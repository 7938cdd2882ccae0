import GatewayFleet.Path

/-! A file tree: what stands at each location. A path is followed one segment at a time, and every
location it passes has to be a directory. The root, the start of relative paths and the levels
above the start are always directories. -/

namespace GatewayFleet

inductive Entry
  | file (content : ByteArray)
  | directory

instance : DecidableEq Entry
  | .file a, .file b =>
    match ByteArray.instDecidableEq a b with
    | isTrue h => isTrue (congrArg Entry.file h)
    | isFalse h => isFalse fun e => h (Entry.file.inj e)
  | .directory, .directory => isTrue rfl
  | .file _, .directory => isFalse nofun
  | .directory, .file _ => isFalse nofun

inductive OsError
  | noEntry | busy | alreadyThere | notDirectory | isDirectory | nameTooLong | nulInPath | notText
deriving DecidableEq, Repr

def OsError.text : OsError → String
  | .noEntry => "No such file or directory (os error 2)"
  | .busy => "Device or resource busy (os error 16)"
  | .alreadyThere => "File exists (os error 17)"
  | .notDirectory => "Not a directory (os error 20)"
  | .isDirectory => "Is a directory (os error 21)"
  | .nameTooLong => "File name too long (os error 36)"
  | .nulInPath => "file name contained an unexpected NUL byte"
  | .notText => "stream did not contain valid UTF-8"

structure Tree where
  entries : List (Location × Entry)
deriving Inhabited

namespace Tree

def find? : List (Location × Entry) → Location → Option Entry
  | [], _ => none
  | (l', e) :: rest, l => if l' = l then some e else find? rest l

def replace : List (Location × Entry) → Location → Entry → List (Location × Entry)
  | [], l, e => [(l, e)]
  | (l', e') :: rest, l, e => if l' = l then (l', e) :: rest else (l', e') :: replace rest l e

def get? (t : Tree) (l : Location) : Option Entry :=
  if l.isTop then some .directory else find? t.entries l

def set (t : Tree) (l : Location) (e : Entry) : Tree := ⟨replace t.entries l e⟩

def erase (t : Tree) (l : Location) : Tree := ⟨t.entries.filter fun m => m.1 ≠ l⟩

def content? (t : Tree) (l : Location) : Option ByteArray :=
  match t.get? l with
  | some (.file bytes) => some bytes
  | _ => none

def isFile (t : Tree) (l : Location) : Bool := (t.content? l).isSome

theorem find?_replace_self (es : List (Location × Entry)) (l : Location) (e : Entry) :
    find? (replace es l e) l = some e := by
  induction es with
  | nil => simp [replace, find?]
  | cons m rest ih =>
    by_cases h : m.1 = l
    · simp [replace, find?, h]
    · simp [replace, find?, h, ih]

theorem find?_replace_of_ne (es : List (Location × Entry)) {l l' : Location} (e : Entry)
    (h : l ≠ l') : find? (replace es l e) l' = find? es l' := by
  induction es with
  | nil => simp [replace, find?, h]
  | cons m rest ih =>
    by_cases hm : m.1 = l
    · simp [replace, find?, hm, h]
    · simp [replace, find?, hm, ih]

theorem get?_set_of_ne (t : Tree) {l l' : Location} (e : Entry) (h : l ≠ l') :
    (t.set l e).get? l' = t.get? l' := by
  simp [get?, set, find?_replace_of_ne _ e h]

theorem get?_set_self (t : Tree) {l : Location} (e : Entry) (h : l.isTop = false) :
    (t.set l e).get? l = some e := by
  simp [get?, set, h, find?_replace_self]

def start (p : Path) : Location := ⟨p.isAbsolute, []⟩

def nameLimit : Nat := 255

def named (l : Location) (name : String) : Except OsError Location :=
  if nameLimit < name.utf8ByteSize then .error .nameTooLong else .ok (l.child name)

def enter (t : Tree) (l : Location) (s : String) : Except OsError Location :=
  match t.get? l with
  | none => .error .noEntry
  | some (.file _) => .error .notDirectory
  | some .directory => if Path.isIdle s then .ok l else if s = ".." then .ok l.up else named l s

def follow (t : Tree) (p : Path) (segments : List String) : Except OsError Location :=
  if p.hasNul then .error .nulInPath else segments.foldlM t.enter (start p)

def walk (t : Tree) (p : Path) : Except OsError Location := t.follow p p.body

def stat (t : Tree) (p : Path) : Except OsError Entry := do
  if p = Path.empty then throw .noEntry
  let l ← t.walk p
  match t.get? l with
  | some e => pure e
  | none => throw .noEntry

def isPresent (t : Tree) (p : Path) : Bool := (t.stat p).isOk

def isDirectoryAt (t : Tree) (p : Path) : Bool :=
  match t.stat p with
  | .ok .directory => true
  | _ => false

def isFileAt (t : Tree) (p : Path) : Bool :=
  match t.stat p with
  | .ok (.file _) => true
  | _ => false

def readText (t : Tree) (p : Path) : Except OsError String := do
  match ← t.stat p with
  | .directory => throw .isDirectory
  | .file bytes =>
    match String.fromUTF8? bytes with
    | some text => pure text
    | none => throw .notText

/-- The place for a new entry: a name in a directory that exists. `closed` tells that a slash
follows the name. -/
inductive Slot
  | top
  | dots
  | named (l : Location) (closed : Bool)

def slot (t : Tree) (p : Path) : Except OsError Slot := do
  match p.body.reverse.dropWhile (· = "") with
  | [] => pure .top
  | last :: above =>
    let l ← t.follow p (above.reverse ++ ["."])
    if last = "." ∨ last = ".." then pure .dots
    else pure (.named (← named l last) (p.body.getLast? = some ""))

def mkdir (t : Tree) (p : Path) : Except OsError Tree := do
  if p = Path.empty then throw .noEntry
  match ← t.slot p with
  | .top | .dots => throw .alreadyThere
  | .named l _ => if (t.get? l).isSome then throw .alreadyThere else pure (t.set l .directory)

def openAt (t : Tree) (p : Path) : Except OsError Location := do
  if p = Path.empty then throw .noEntry
  match ← t.slot p with
  | .top | .dots => throw .isDirectory
  | .named l closed =>
    if closed ∨ t.get? l = some .directory then throw .isDirectory else pure l

def create (t : Tree) (p : Path) (content : ByteArray) : Except OsError Tree := do
  let l ← t.openAt p
  pure (t.set l (.file content))

def append (t : Tree) (p : Path) (content : ByteArray) : Except OsError Tree := do
  let l ← t.openAt p
  pure (t.set l (.file ((t.content? l).getD ByteArray.empty ++ content)))

def remove (t : Tree) (p : Path) : Tree :=
  match t.walk p with
  | .ok l => t.erase l
  | .error _ => t

/-- Moves a file over the target, which may be a file or nothing. -/
def rename (t : Tree) (source target : Path) : Except OsError Tree := do
  let l ← t.walk source
  match ← t.slot target with
  | .top | .dots => throw .busy
  | .named m closed =>
    if closed then throw .notDirectory
    else match t.get? l with
      | some (.file content) =>
        if t.get? m = some .directory then throw .isDirectory
        else pure ((t.erase l).set m (.file content))
      | _ => throw .noEntry

/-- What the second tree holds in place of what the first one holds; `none` where it holds
nothing. -/
def differences (before after : Tree) : List (Location × Option Entry) :=
  (after.entries.filter fun m => before.get? m.1 ≠ some m.2).map (fun m => (m.1, some m.2)) ++
    (before.entries.filter fun m => (after.get? m.1).isNone).map fun m => (m.1, none)

/-- Creates a directory and the missing ones above it; at most `above` levels are looked at. What
was created stays when a later step fails. -/
def mkdirAll (above : Nat) (t : Tree) (p : Path) : Except OsError Unit × Tree :=
  if p = Path.empty then (.ok (), t)
  else match t.mkdir p with
    | .ok t => (.ok (), t)
    | .error .noEntry =>
      match above, p.parent? with
      | above + 1, some parent =>
        match mkdirAll above t parent with
        | (.error e, t) => (.error e, t)
        | (.ok _, t) =>
          match t.mkdir p with
          | .ok t => (.ok (), t)
          | .error e => (if t.isDirectoryAt p then .ok () else .error e, t)
      | _, _ => (.error .noEntry, t)
    | .error e => (if t.isDirectoryAt p then .ok () else .error e, t)

def mkdirs (t : Tree) (p : Path) : Except OsError Unit × Tree := mkdirAll p.segments.length t p

end Tree

end GatewayFleet
