/-! The characters of a YAML text with the places where they stand. Carriage returns and the next
line character count as line breaks like the line feed; the line and the paragraph separator are
breaks too and keep their own character. -/

namespace GatewayFleet.Yaml

structure Mark where
  line : Nat
  column : Nat
  index : Nat
deriving DecidableEq

structure Glyph where
  char : Char
  mark : Mark

def isAllowed (c : Char) : Bool :=
  let n := c.toNat
  n = 0x9 || n = 0xA || n = 0xD || (0x20 ≤ n && n ≤ 0x7E) || n = 0x85 ||
    (0xA0 ≤ n && n ≤ 0xD7FF) || (0xE000 ≤ n && n ≤ 0xFFFD) || 0x10000 ≤ n

def isBreak (c : Char) : Bool := c = '\n' || c = '\u2028' || c = '\u2029'

def isGap (c : Char) : Bool := c = ' ' || c = '\t'

/-- The mark that may stand in front of a text or a line and means nothing. -/
def byteOrderMark : Char := '\ufeff'

/-- Writes the breaks that are not kept as line feeds. -/
def unifyBreaks : List Char → List Char
  | [] => []
  | '\r' :: '\n' :: rest => '\n' :: unifyBreaks rest
  | c :: rest => (if c = '\r' || c = '\u0085' then '\n' else c) :: unifyBreaks rest

def Mark.next (m : Mark) (c : Char) : Mark :=
  if isBreak c then ⟨m.line + 1, 0, m.index + 1⟩ else ⟨m.line, m.column + 1, m.index + 1⟩

def glyphsFrom (m : Mark) : List Char → List Glyph
  | [] => []
  | c :: rest => ⟨c, m⟩ :: glyphsFrom (m.next c) rest

def Mark.first : Mark := ⟨0, 0, 0⟩

def glyphs (text : String) : Option (List Glyph × Mark) :=
  let cs := match text.toList with
    | c :: rest => if c = byteOrderMark then rest else c :: rest
    | [] => []
  if cs.all isAllowed then
    let cs := unifyBreaks cs
    some (glyphsFrom .first cs, cs.foldl Mark.next .first)
  else none

def front (s : List Glyph) : Option Char := s.head?.map (·.char)

def second (s : List Glyph) : Option Char := front s.tail

def startsWith (c : Char) (s : List Glyph) : Bool := front s = some c

def blankNext (s : List Glyph) : Bool :=
  match front s with
  | some c => isGap c || isBreak c
  | none => true

def breakNext (s : List Glyph) : Bool := (front s).any isBreak

def gapNext (s : List Glyph) : Bool := (front s).any isGap

/-- Whether a line starts with three of that character and nothing sticks to them. -/
def lineMark (c : Char) (s : List Glyph) : Bool :=
  match s with
  | a :: b :: d :: rest =>
    a.mark.column = 0 && a.char = c && b.char = c && d.char = c && blankNext rest
  | _ => false

def documentMark (s : List Glyph) : Bool := lineMark '-' s || lineMark '.' s

def skipGaps (s : List Glyph) : List Glyph := s.dropWhile fun g => isGap g.char

def skipComment (s : List Glyph) : List Glyph :=
  if startsWith '#' s then s.dropWhile fun g => !isBreak g.char else s

def finishLine (s : List Glyph) : Option (List Glyph) :=
  let s := skipComment (skipGaps s)
  match s with
  | [] => some []
  | g :: rest => if isBreak g.char then some rest else none

def isNameChar (c : Char) : Bool := c.isAlphanum || c = '_' || c = '-'

def takeName (s : List Glyph) : List Char × List Glyph :=
  ((s.takeWhile fun g => isNameChar g.char).map (·.char), s.dropWhile fun g => isNameChar g.char)

end GatewayFleet.Yaml
