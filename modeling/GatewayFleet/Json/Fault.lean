/-! Why a text is not JSON. A reader stops in front of the rest of its text; the place it reports
is counted in bytes from there, and lines and columns count from the start of the text. -/

namespace GatewayFleet.Json

inductive Reason
  | endInValue | endInList | endInObject | endInString
  | expectedValue | expectedIdent | expectedColon | expectedListEnd | expectedObjectEnd
  | keyNotString | trailingComma | trailingCharacters
  | invalidNumber | numberOutOfRange
  | invalidEscape | controlCharacter | loneSurrogate | endOfHexEscape
  | tooDeep
deriving DecidableEq, Repr

def Reason.text : Reason → String
  | .endInValue => "EOF while parsing a value"
  | .endInList => "EOF while parsing a list"
  | .endInObject => "EOF while parsing an object"
  | .endInString => "EOF while parsing a string"
  | .expectedValue => "expected value"
  | .expectedIdent => "expected ident"
  | .expectedColon => "expected `:`"
  | .expectedListEnd => "expected `,` or `]`"
  | .expectedObjectEnd => "expected `,` or `\x7d`"
  | .keyNotString => "key must be a string"
  | .trailingComma => "trailing comma"
  | .trailingCharacters => "trailing characters"
  | .invalidNumber => "invalid number"
  | .numberOutOfRange => "number out of range"
  | .invalidEscape => "invalid escape"
  | .controlCharacter => "control character (\\u0000-\\u001F) found while parsing a string"
  | .loneSurrogate => "lone leading surrogate in hex escape"
  | .endOfHexEscape => "unexpected end of hex escape"
  | .tooDeep => "recursion limit exceeded"

def byteLength (cs : List Char) : Nat := cs.foldl (fun n c => n + c.utf8Size) 0

/-- Where a reader stops: some bytes into `rest`, or at the end of the text if that is nearer. -/
structure Stop where
  rest : List Char
  ahead : Nat
deriving Repr

def Stop.byteIndex (whole : List Char) (s : Stop) : Nat :=
  let total := byteLength whole
  min total (total - byteLength s.rest + s.ahead)

structure Position where
  line : Nat
  column : Nat
deriving DecidableEq, Repr

def Position.suffix (p : Position) : String := s!" at line {p.line} column {p.column}"

/-- The place of a byte: line breaks before it start new lines, and the column counts the bytes
since the last of them. -/
def Position.ofByte (index : Nat) : List Char → Nat → Position → Position
  | [], at_, p => { p with column := p.column + (index - at_) }
  | c :: rest, at_, p =>
    if index ≤ at_ then p
    else if c = '\n' then Position.ofByte index rest (at_ + 1) ⟨p.line + 1, 0⟩
    else Position.ofByte index rest (at_ + c.utf8Size)
      { p with column := p.column + min c.utf8Size (index - at_) }

def Stop.position (whole : List Char) (s : Stop) : Position :=
  Position.ofByte (s.byteIndex whole) whole 0 ⟨1, 0⟩

structure Fault where
  reason : Reason
  stop : Stop
deriving Repr

def Fault.message (whole : String) (f : Fault) : String :=
  f.reason.text ++ (f.stop.position whole.toList).suffix

end GatewayFleet.Json
