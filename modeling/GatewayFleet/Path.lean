/-! Paths as they are written and the locations they name. A path is the list of its segments
between slashes, so nothing of its spelling is lost; it is absolute when it starts with a slash.
A location is what is left after the lexical rules: `.` and empty segments vanish and `..` takes
away the name before it. At the root there is nothing to take away; at the start of a relative
path the `..` stays. -/

namespace GatewayFleet

structure Path where
  segments : List String
deriving DecidableEq, Inhabited

structure Location where
  absolute : Bool
  names : List String
deriving DecidableEq, Inhabited

namespace Path

/-- The pieces of a text between slashes; there is always at least one. -/
def splitSlashes : List Char → List (List Char)
  | [] => [[]]
  | c :: rest =>
    if c = '/' then [] :: splitSlashes rest
    else match splitSlashes rest with
      | [] => [[c]]
      | piece :: pieces => (c :: piece) :: pieces

def ofString (s : String) : Path := ⟨(splitSlashes s.toList).map String.ofList⟩

def toString (p : Path) : String := String.intercalate "/" p.segments

instance : ToString Path := ⟨toString⟩

def empty : Path := ⟨[""]⟩

def isAbsolute (p : Path) : Bool :=
  match p.segments with
  | "" :: _ :: _ => true
  | _ => false

def body (p : Path) : List String := if p.isAbsolute then p.segments.tail else p.segments

def hasNul (p : Path) : Bool := p.segments.any fun s => s.toList.contains '\x00'

def isIdle (s : String) : Bool := s = "" || s = "."

def step (absolute : Bool) (walked : List String) (s : String) : List String :=
  if isIdle s then walked
  else if s = ".." then
    match walked with
    | [] => if absolute then [] else [".."]
    | top :: rest => if top = ".." then ".." :: walked else rest
  else s :: walked

def locate (p : Path) : Location :=
  ⟨p.isAbsolute, (p.body.foldl (step p.isAbsolute) []).reverse⟩

def join (base p : Path) : Path :=
  if p.isAbsolute then p
  else if base = empty then p
  else if base.segments.getLast? = some "" then ⟨base.segments.dropLast ++ p.segments⟩
  else ⟨base.segments ++ p.segments⟩

def resolve (base p : Path) : Location := (base.join p).locate

/-- The part of a path in front of its body: a slash, a leading `.`, or nothing. -/
def head (p : Path) : List String :=
  if p.isAbsolute then [""] else if p.segments.head? = some "." then ["."] else []

def trail (p : Path) : List String :=
  (p.segments.drop p.head.length).reverse.dropWhile isIdle

/-- The path without its last component, as it is written. -/
def parent? (p : Path) : Option Path :=
  match p.trail with
  | [] => if p.head = ["."] then some empty else none
  | _ :: above =>
    let above := (above.dropWhile isIdle).reverse
    match p.head, above with
    | [], [] => some empty
    | [""], [] => some ⟨["", ""]⟩
    | h, above => some ⟨h ++ above⟩

def directory (p : Path) : Path := p.parent?.getD (.ofString ".")

def fileName? (p : Path) : Option String :=
  match p.trail with
  | [] => none
  | name :: _ => if name = ".." then none else some name

end Path

namespace Location

/-- Only names: nothing idle, and `..` in no place but the front of a relative location. -/
def Canonical (l : Location) : Prop :=
  (∀ s ∈ l.names, Path.isIdle s = false) ∧
    ∃ ups rest, l.names = List.replicate ups ".." ++ rest ∧ ".." ∉ rest ∧
      (l.absolute = true → ups = 0)

def toPath (l : Location) : Path :=
  match l.absolute, l.names with
  | true, [] => ⟨["", ""]⟩
  | true, names => ⟨"" :: names⟩
  | false, [] => Path.empty
  | false, names => ⟨names⟩

def toString (l : Location) : String := l.toPath.toString

instance : ToString Location := ⟨toString⟩

def directory (l : Location) : Location := ⟨l.absolute, l.names.dropLast⟩

def child (l : Location) (name : String) : Location := ⟨l.absolute, l.names ++ [name]⟩

def up (l : Location) : Location :=
  ⟨l.absolute, (Path.step l.absolute l.names.reverse "..").reverse⟩

def isTop (l : Location) : Bool := l.names.all (· = "..")

end Location

end GatewayFleet
