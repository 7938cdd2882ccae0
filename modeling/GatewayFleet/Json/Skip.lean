import GatewayFleet.Json.Reader

/-! Passing over a JSON value whose content does not matter. Its form is checked as far as one has
to look to find its end: escapes need not denote characters, numbers may be of any size, and
containers may nest without a limit. -/

namespace GatewayFleet.Json

abbrev Skip := Except Fault (List Char)

/-- The text behind a backslash; four digits are passed whatever they denote. -/
def skipEscape : List Char → Skip
  | [] => stopped .endInString [] 0
  | 'u' :: r => (readHex r).map (·.2)
  | c :: r => if (simpleEscape? c).isSome then .ok r else stopped .invalidEscape (c :: r) 1

def skipString (s : List Char) : Skip :=
  match s with
  | [] => stopped .endInString [] 0
  | c :: r =>
    if c = '"' then .ok r
    else if c = '\\' then
      match skipEscape r with
      | .error e => .error e
      | .ok r' =>
        if _h : r'.length < (c :: r).length then skipString r' else stopped .endInString [] 0
    else if c.toNat < 0x20 then stopped .controlCharacter s 0
    else skipString r
termination_by s.length
decreasing_by
  · exact _h
  · exact Nat.lt_succ_self _

def skipDigits (s : List Char) : List Char := s.dropWhile Char.isDigit

def isExponentMark (c : Char) : Bool := c = 'e' || c = 'E'

def skipExponent (s : List Char) : Skip :=
  let s := match s with
    | '+' :: r | '-' :: r => r
    | _ => s
  match s with
  | [] => stopped .invalidNumber [] 0
  | c :: r => if c.isDigit then .ok (skipDigits r) else stopped .invalidNumber s 1

def skipFraction (s : List Char) : Skip :=
  match s with
  | '.' :: r =>
    let left := skipDigits r
    if left.length = r.length then peeked .invalidNumber r
    else match left with
      | c :: r' => if isExponentMark c then skipExponent r' else .ok left
      | [] => .ok []
  | c :: r => if isExponentMark c then skipExponent r else .ok s
  | [] => .ok []

def skipNumber (s : List Char) : Skip :=
  match s with
  | [] => stopped .invalidNumber [] 0
  | c :: r =>
    if c = '0' then
      if (r.head?.map Char.isDigit).getD false then peeked .invalidNumber r else skipFraction r
    else if c.isDigit then skipFraction (skipDigits r)
    else stopped .invalidNumber s 1

def skipName (s : List Char) : Skip := do
  match skipSpace (← skipString s) with
  | ':' :: r => pure r
  | [] => peeked .endInObject []
  | rest => peeked .expectedColon rest

inductive Container
  | list | object
deriving DecidableEq

def Container.closer : Container → Char
  | .list => ']'
  | .object => '}'

def Container.ended : Container → Reason
  | .list => .endInList
  | .object => .endInObject

def Container.unended : Container → Reason
  | .list => .expectedListEnd
  | .object => .expectedObjectEnd

/-- The name in front of an element, which the elements of a list do not have. -/
def skipLabel (container : Container) (s : List Char) : Skip :=
  match container, skipSpace s with
  | .list, s => .ok s
  | .object, '"' :: r => skipName r
  | .object, [] => peeked .endInObject []
  | .object, rest => peeked .keyNotString rest

inductive Due
  | value | opened | element
deriving DecidableEq

/-- The open containers, innermost first, and the text that is left. -/
structure Skipping where
  containers : List Container
  due : Due
  left : List Char

def Skipping.measure (k : Skipping) : Nat :=
  2 * k.left.length + (if k.due = .value then 0 else 1)

def skipStart (containers : List Container) (s : List Char) : Except Fault Skipping :=
  let scalar (left : Skip) : Except Fault Skipping := left.map (⟨containers, .element, ·⟩)
  match skipSpace s with
  | [] => peeked .endInValue []
  | '[' :: r => .ok ⟨.list :: containers, .opened, r⟩
  | '{' :: r => .ok ⟨.object :: containers, .opened, r⟩
  | 'n' :: r => scalar (readWord ['u', 'l', 'l'] r)
  | 't' :: r => scalar (readWord ['r', 'u', 'e'] r)
  | 'f' :: r => scalar (readWord ['a', 'l', 's', 'e'] r)
  | '"' :: r => scalar (skipString r)
  | '-' :: r => scalar (skipNumber r)
  | c :: r => if c.isDigit then scalar (skipNumber (c :: r)) else peeked .expectedValue (c :: r)

def skipBetween (container : Container) (outer : List Container) (due : Due) (s : List Char) :
    Except Fault Skipping :=
  match skipSpace s with
  | [] => peeked container.ended []
  | c :: r =>
    if c = container.closer then .ok ⟨outer, .element, r⟩
    else if due = .element && c = ',' then
      (skipLabel container r).map (⟨container :: outer, .value, ·⟩)
    else if due = .element then peeked container.unended (c :: r)
    else (skipLabel container (c :: r)).map (⟨container :: outer, .value, ·⟩)

def Skipping.next (k : Skipping) (container : Container) (outer : List Container) :
    Except Fault Skipping :=
  if k.due = .value then skipStart k.containers k.left
  else skipBetween container outer k.due k.left

def skipOut (k : Skipping) : Skip :=
  match k.containers with
  | [] => .ok k.left
  | container :: outer =>
    match k.next container outer with
    | .error e => .error e
    | .ok k' => if _h : k'.measure < k.measure then skipOut k' else peeked .endInValue k'.left
termination_by k.measure
decreasing_by exact _h

def skipValue (s : List Char) : Skip := do skipOut (← skipStart [] s)

end GatewayFleet.Json
