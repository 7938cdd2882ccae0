import GatewayFleet.Yaml.Text

/-! The tokens of a YAML text. Block collections have no brackets in the text; their tokens come
from the columns at which things stand. -/

namespace GatewayFleet.Yaml

/-- The prefix of a tag as it is written, and what follows it. A tag without a handle is written
out in full. -/
structure TagName where
  handle : String
  suffix : String
deriving DecidableEq

inductive Token
  | version (major minor : Nat)
  | tagHandle (handle start : String)
  | documentStart
  | documentEnd
  | blockSequence
  | blockMapping
  | blockEnd
  | flowSequence
  | flowSequenceEnd
  | flowMapping
  | flowMappingEnd
  | blockEntry
  | flowEntry
  | key
  | value
  | reference (name : String)
  | anchor (name : String)
  | tag (name : TagName)
  | scalar (text : String) (plain : Bool)
deriving DecidableEq

def readAnchorName (s : List Glyph) : Option (String × List Glyph) :=
  let (name, rest) := takeName s
  let closed := blankNext rest || (front rest).any (· ∈ ['?', ':', ',', ']', '}', '%', '@', '\x60'])
  if name.isEmpty || !closed then none else some (String.ofList name, rest)

def isTagChar (full : Bool) (c : Char) : Bool :=
  isNameChar c ||
    c ∈ [';', '/', '?', ':', '@', '&', '=', '+', '$', '.', '!', '~', '*', '\'', '(', ')']
    || (full && c ∈ [',', '[', ']'])

def byteWidth? (n : Nat) : Option Nat :=
  if n < 0x80 then some 1
  else if 0xC0 ≤ n ∧ n < 0xE0 then some 2
  else if 0xE0 ≤ n ∧ n < 0xF0 then some 3
  else if 0xF0 ≤ n ∧ n < 0xF8 then some 4
  else none

def readPercentByte (s : List Glyph) : Option (Nat × List Glyph) :=
  match s with
  | g :: rest => if g.char = '%' then readHex 2 0 rest else none
  | [] => none

def readPercentTail : Nat → List Glyph → Option (List UInt8 × List Glyph)
  | 0, s => some ([], s)
  | n + 1, s => do
    let (b, s) ← readPercentByte s
    if b / 64 ≠ 2 then none
    let (more, s) ← readPercentTail n s
    pure (b.toUInt8 :: more, s)

def readPercentChar (s : List Glyph) : Option (List Char × List Glyph) := do
  let (b, s) ← readPercentByte s
  let (more, s) ← readPercentTail ((← byteWidth? b) - 1) s
  let bytes : ByteArray := ⟨(b.toUInt8 :: more).toArray⟩
  pure (((String.fromUTF8? bytes).getD "\ufffd").toList, s)

def readTagChars (full : Bool) (s : List Glyph) : Option (List Char × List Glyph) :=
  match s with
  | [] => some ([], [])
  | g :: rest =>
    if g.char = '%' then
      match readPercentChar s with
      | none => none
      | some (cs, left) =>
        if _h : left.length < (g :: rest).length then
          (readTagChars full left).map fun (more, left) => (cs ++ more, left)
        else none
    else if isTagChar full g.char then
      (readTagChars full rest).map fun (more, left) => (g.char :: more, left)
    else some ([], s)
termination_by s.length
decreasing_by
  · exact _h
  · exact Nat.lt_succ_self _

def readTagText (full : Bool) (s : List Glyph) : Option (String × List Glyph) := do
  let (cs, rest) ← readTagChars full s
  if cs.isEmpty then none else pure (String.ofList cs, rest)

/-- A handle: `!`, or `!` and a name, with or without a second `!`. -/
def readHandle (s : List Glyph) : Option (List Char × List Glyph) := do
  if !startsWith '!' s then none
  let (name, rest) := takeName s.tail
  if startsWith '!' rest then pure ('!' :: name ++ ['!'], rest.tail) else pure ('!' :: name, rest)

def readTagName (s : List Glyph) : Option (TagName × List Glyph) :=
  if startsWith '<' s.tail then do
    let (text, rest) ← readTagText true s.tail.tail
    if startsWith '>' rest then pure (⟨"", text⟩, rest.tail) else none
  else do
    let (handle, rest) ← readHandle s
    if handle.length > 1 && handle.getLast? = some '!' then
      let (suffix, rest) ← readTagText false rest
      pure (⟨String.ofList handle, suffix⟩, rest)
    else
      let (more, rest) ← readTagChars false rest
      let suffix := String.ofList (handle.tail ++ more)
      pure (if suffix = "" then ⟨"", "!"⟩ else ⟨"!", suffix⟩, rest)

def readTag (flow : Bool) (s : List Glyph) : Option (TagName × List Glyph) := do
  let (name, rest) ← readTagName s
  if blankNext rest || (flow && startsWith ',' rest) then pure (name, rest) else none

def readSmall (s : List Glyph) : Option (Nat × List Glyph) :=
  let digits := (s.takeWhile fun g => g.char.isDigit).map (·.char)
  if digits.isEmpty || digits.length > 9 then none
  else some (digits.foldl (fun n c => n * 10 + (c.toNat - '0'.toNat)) 0, s.drop digits.length)

def readVersion (s : List Glyph) : Option (Token × List Glyph) := do
  let (major, s) ← readSmall (skipGaps s)
  if !startsWith '.' s then none
  let (minor, s) ← readSmall s.tail
  pure (.version major minor, s)

def readTagDirective (s : List Glyph) : Option (Token × List Glyph) := do
  let (handle, s) ← readHandle (skipGaps s)
  if handle ≠ ['!'] && !(handle.length > 1 && handle.getLast? = some '!') then none
  if !gapNext s then none
  let (start, s) ← readTagText true (skipGaps s)
  if blankNext s then pure (.tagHandle (String.ofList handle) start, s) else none

def readDirective (s : List Glyph) : Option (Token × List Glyph) := do
  let (name, s) := takeName s
  if !blankNext s then none
  let (token, s) ← match String.ofList name with
    | "YAML" => readVersion s
    | "TAG" => readTagDirective s
    | _ => none
  pure (token, ← finishLine s)

end GatewayFleet.Yaml
