import GatewayFleet.Number.Layout
import GatewayFleet.Yaml.Glyph
import GatewayFleet.Yaml.Scalar

/-! Values written as YAML blocks. A sequence stands at the column of its name. Texts are plain
where they read back as themselves, and otherwise take the first of single quotes and double
quotes that can hold them; a text with line feeds is a literal block where that can hold it. Names
that are long or hold breaks are written behind a question mark. -/

namespace GatewayFleet.Yaml

def isShown (c : Char) : Bool :=
  let n := c.toNat
  n = 0xA || (0x20 ≤ n && n ≤ 0x7E) || (0xA0 ≤ n && n ≤ 0xFFFD && n ≠ 0xFEFF)

def isWrittenBreak (c : Char) : Bool := isBreak c || c = '\r' || c = '\u0085'

def isBlankOrEnd (c : Option Char) : Bool :=
  c.all fun c => isGap c || isWrittenBreak c

def startIndicators : List Char :=
  ['#', ',', '[', ']', '{', '}', '&', '*', '!', '|', '>', '\'', '"', '%', '@', '\x60']

def blocksStart (s : List Char) : Bool :=
  match s with
  | [] => false
  | c :: rest =>
    c ∈ startIndicators || (c ∈ ['?', ':', '-'] && isBlankOrEnd rest.head?) ||
      s.take 3 = ['-', '-', '-'] || s.take 3 = ['.', '.', '.']

def blocksInside : Char → List Char → Bool
  | _, [] => false
  | before, c :: rest =>
    (c = ':' && isBlankOrEnd rest.head?) || (c = '#' && isBlankOrEnd (some before)) ||
      blocksInside c rest

def hasPair (first second : Char → Bool) : List Char → Bool
  | a :: b :: rest => (first a && second b) || hasPair first second (b :: rest)
  | _ => false

def isSpace (c : Char) : Bool := c = ' '

/-- Whether only double quotes can hold a text: it has characters that are not shown, or spaces in
front of a break. -/
def needsEscapes (s : List Char) : Bool :=
  !s.all isShown || hasPair isSpace isWrittenBreak s

def isPlainAllowed (s : List Char) : Bool :=
  match s with
  | [] => false
  | c :: rest =>
    !needsEscapes s && !s.any isWrittenBreak && !isSpace c && s.getLast? ≠ some ' ' &&
      !blocksStart s && !blocksInside c rest

def isSingleAllowed (s : List Char) : Bool :=
  !needsEscapes s && !hasPair isWrittenBreak isSpace s

def isLiteralAllowed (s : List Char) : Bool := !needsEscapes s && s.getLast? ≠ some ' '

def readsAsText (s : String) : Bool := Scalar.resolve? s = some (.string s)

inductive Style
  | plain | single | double | literal
deriving DecidableEq

def styleOf (s : String) : Style :=
  let cs := s.toList
  if cs.contains '\n' then if isLiteralAllowed cs then .literal else .double
  else if readsAsText s && !Scalar.isZeroPadded cs && isPlainAllowed cs then .plain
  else if isSingleAllowed cs then .single
  else .double

def pad (n : Nat) : List Char := List.replicate n ' '

def indented (indent : Nat) : Bool → List Char → List Char
  | _, [] => []
  | fresh, c :: rest =>
    if isBreak c then c :: indented indent true rest
    else (if fresh then pad indent else []) ++ c :: indented indent false rest

def doubled (s : List Char) : List Char := s.flatMap fun c => if c = '\'' then [c, c] else [c]

/-- A text in single quotes. Breaks at its end are followed by the spaces of a line. -/
def single (indent : Nat) (s : List Char) : List Char :=
  let close := if s.getLast?.any isBreak then pad indent else []
  '\'' :: indented indent false (doubled s) ++ close ++ ['\'']

def upperHex (width n : Nat) : List Char :=
  let ds := (Nat.toDigits 16 n).map Char.toUpper
  List.replicate (width - ds.length) '0' ++ ds

def escapeCode (c : Char) : List Char :=
  match c with
  | '\x00' => ['0']
  | '\x07' => ['a']
  | '\x08' => ['b']
  | '\t' => ['t']
  | '\n' => ['n']
  | '\x0b' => ['v']
  | '\x0c' => ['f']
  | '\r' => ['r']
  | '\x1b' => ['e']
  | '"' => ['"']
  | '\\' => ['\\']
  | '\u0085' => ['N']
  | '\u2028' => ['L']
  | '\u2029' => ['P']
  | _ =>
    let n := c.toNat
    if n ≤ 0xFF then 'x' :: upperHex 2 n
    else if n ≤ 0xFFFF then 'u' :: upperHex 4 n
    else 'U' :: upperHex 8 n

def double (s : List Char) : List Char :=
  '"' :: s.flatMap (fun c =>
    if !isShown c || isBreak c || c = '"' || c = '\\' then '\\' :: escapeCode c else [c]) ++ ['"']

/-- The marks of a literal block: an indentation where the text itself starts with a blank or a
break, and what is to become of the breaks at its end. -/
def literalMarks (s : List Char) : List Char :=
  let indentation := if s.head?.any fun c => isSpace c || isBreak c then ['2'] else []
  let chomping := match s.reverse with
    | [] => ['-']
    | [c] => if isBreak c then ['+'] else ['-']
    | c :: d :: _ => if !isBreak c then ['-'] else if isBreak d then ['+'] else []
  indentation ++ chomping

def literal (indent : Nat) (s : List Char) : List Char :=
  '|' :: literalMarks s ++ '\n' :: indented indent true s

def text (indent : Nat) (s : String) : List Char :=
  match styleOf s with
  | .plain => s.toList
  | .single => single indent s.toList
  | .double => double s.toList
  | .literal => literal indent s.toList

def longestName : Nat := 128

def isSimpleName (name : String) : Bool :=
  name.utf8ByteSize ≤ longestName && !name.toList.any isWrittenBreak

def leaf (indent : Nat) : Value → List Char
  | .null => "null".toList
  | .bool b => (if b then "true" else "false").toList
  | .number (.int n) => (toString n).toList
  | .number (.float x) => (Number.Layout.yaml.write x).toList
  | .string s => text indent s
  | .list _ => ['[', ']']
  | .mapping _ => ['{', '}']

def endLine (line : List Char) : List Char :=
  if line.getLast?.any isBreak then line else line ++ ['\n']

mutual

def lines (lead : List Char) (indent : Nat) : Value → List Char
  | .mapping fields =>
    if fields.isEmpty then endLine (lead ++ ['{', '}']) else fieldLines lead indent fields
  | .list items =>
    if items.isEmpty then endLine (lead ++ ['[', ']']) else itemLines lead indent items
  | v => endLine (lead ++ leaf indent v)

def itemLines (lead : List Char) (indent : Nat) : List Value → List Char
  | [] => []
  | v :: rest =>
    lines (lead ++ ['-', ' ']) (indent + 2) v ++ itemLines (pad indent) indent rest

def fieldLines (lead : List Char) (indent : Nat) : List (String × Value) → List Char
  | [] => []
  | (name, v) :: rest =>
    (if isSimpleName name then memberLines (lead ++ text (indent + 2) name ++ [':']) indent v
      else endLine (lead ++ '?' :: ' ' :: text (indent + 2) name) ++
        lines (pad indent ++ [':', ' ']) (indent + 2) v) ++
      fieldLines (pad indent) indent rest

/-- The lines of a value behind its name: collections begin on the next line, and a sequence does
so at the column of the name. -/
def memberLines (lead : List Char) (indent : Nat) : Value → List Char
  | .mapping fields =>
    if fields.isEmpty then endLine (lead ++ [' ', '{', '}'])
    else lead ++ '\n' :: fieldLines (pad (indent + 2)) (indent + 2) fields
  | .list items =>
    if items.isEmpty then endLine (lead ++ [' ', '[', ']'])
    else lead ++ '\n' :: itemLines (pad indent) indent items
  | v => endLine (lead ++ ' ' :: leaf (indent + 2) v)

end

def write (v : Value) : String := String.ofList (lines [] 0 v)

end GatewayFleet.Yaml
