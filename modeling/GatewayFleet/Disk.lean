import GatewayFleet.Failure

/-! Steps that read and change a file tree and may fail on the way. What a step changed before it
failed stays changed. A file is replaced through a temporary sibling, so that its old content is
there until the new one is complete. -/

namespace GatewayFleet

abbrev Disk (α : Type) := ExceptT Failure (StateM Tree) α

namespace Disk

def run (d : Disk α) (t : Tree) : Except Failure α × Tree := (ExceptT.run d).run t

def ask (f : Tree → Except Failure α) : Disk α := do
  ExceptT.mk (pure (f (← get)))

/-- A change of the tree; one that is refused leaves the tree alone. -/
def change (action : Action) (p : Path) (f : Tree → Except OsError Tree) : Disk Unit := do
  match f (← get) with
  | .ok t => set t
  | .error reason => throw (.refused action p reason)

def makeDirectories (action : Action) (p : Path) : Disk Unit := do
  let (result, t) := (← get).mkdirs p
  set t
  match result with
  | .ok _ => pure ()
  | .error reason => throw (.refused action p reason)

def requireDirectory (action : Action) (p : Path) : Disk Unit := do
  if !(← get).isPresent p then makeDirectories action p

def temporaryFor (p : Path) (name : String) : Path :=
  p.directory.join (.ofString ("." ++ name ++ ".tmp"))

/-- Moves the temporary file over the target, or takes it away again. -/
def moveOver (temporary target : Path) : Disk Unit := do
  let t ← get
  match t.rename temporary target with
  | .ok t => set t
  | .error reason =>
    set (t.remove temporary)
    throw (.refused .replace target reason)

def replaceFile (p : Path) (content : ByteArray) : Disk Unit := do
  match p.parent? with
  | some parent => requireDirectory .createParent parent
  | none => pure ()
  match p.fileName? with
  | none => throw (.noFileName p)
  | some name =>
    let temporary := temporaryFor p name
    change .createTemporary temporary (·.create temporary content)
    moveOver temporary p

def replaceText (p : Path) (text : String) : Disk Unit := replaceFile p text.toUTF8

end Disk

end GatewayFleet
