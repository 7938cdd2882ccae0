import GatewayFleet.Yaml.Token

/-! From glyphs to tokens. A key of a mapping is only known to be one when its colon is met, so the
lexer leaves a slot in front of everything that may turn out to be a key and fills it later. A
column further right than that of the innermost block collection opens a new one where an entry or
a key stands, and a column further left closes those it is left of. -/

namespace GatewayFleet.Yaml

structure PendingKey where
  slot : Nat
  mark : Mark
  required : Bool

inductive Written
  | token (t : Token)
  | slot (n : Nat)

structure Lexer where
  rest : List Glyph
  stop : Mark
  written : List Written
  slots : Nat
  /-- Slots of keys, each with whether a mapping opens there. -/
  filled : List (Nat × Bool)
  flowKeys : List (Option PendingKey)
  blockKey : Option PendingKey
  columns : List Nat
  keyAllowed : Bool

namespace Lexer

def start (s : List Glyph) (stop : Mark) : Lexer := ⟨s, stop, [], 0, [], [], none, [], true⟩

def here (l : Lexer) : Mark := (l.rest.head?.map (·.mark)).getD l.stop

def inFlow (l : Lexer) : Bool := !l.flowKeys.isEmpty

def write (l : Lexer) (t : Token) : Lexer := { l with written := .token t :: l.written }

def pass (l : Lexer) (n : Nat) (t : Token) : Lexer :=
  { l.write t with rest := l.rest.drop n }

def pending (l : Lexer) : Option PendingKey :=
  match l.flowKeys with
  | [] => l.blockKey
  | k :: _ => k

def setPending (l : Lexer) (k : Option PendingKey) : Lexer :=
  match l.flowKeys with
  | [] => { l with blockKey := k }
  | _ :: rest => { l with flowKeys := k :: rest }

/-- A key has to end on its line and within this many characters. -/
def keyLimit : Nat := 1024

def PendingKey.isStale (here : Mark) (k : PendingKey) : Bool :=
  k.mark.line < here.line || k.mark.index + keyLimit < here.index

def dropStale (here : Mark) : Option PendingKey → Option (Option PendingKey)
  | none => some none
  | some k =>
    if PendingKey.isStale here k then if k.required then none else some none else some (some k)

def dropStaleKeys (l : Lexer) : Option Lexer := do
  let block ← dropStale l.here l.blockKey
  let flow ← l.flowKeys.mapM (dropStale l.here)
  pure { l with blockKey := block, flowKeys := flow }

/-- Gives up the pending key, unless there has to be a key. -/
def dropKey (l : Lexer) : Option Lexer :=
  match l.pending with
  | some k => if k.required then none else some (l.setPending none)
  | none => some l

def column (l : Lexer) : Nat := l.here.column

def mayBeKey (l : Lexer) : Option Lexer :=
  if l.keyAllowed then do
    let required := !l.inFlow && l.columns.head? = some l.column
    let l' ← l.dropKey
    let key : PendingKey := ⟨l.slots, l.here, required⟩
    pure ({ l' with written := .slot l.slots :: l.written, slots := l.slots + 1 }.setPending key)
  else some l

def opens (l : Lexer) (column : Nat) : Bool := !l.inFlow && l.columns.head?.all (· < column)

def openBlock (l : Lexer) (t : Token) : Lexer :=
  if l.opens l.column then { l.write t with columns := l.column :: l.columns } else l

def closeWhile (l : Lexer) (test : Nat → Bool) : Lexer :=
  if l.inFlow then l
  else
    let closed := l.columns.takeWhile test
    { l with
      written := closed.map (fun _ => .token .blockEnd) ++ l.written
      columns := l.columns.drop closed.length }

/-- Passes blanks, comments and breaks. In a block a tab only counts as a blank where no key may
stand, and a break makes a key possible again. -/
def skip (flow keyAllowed : Bool) (s : List Glyph) : List Glyph × Bool :=
  match s with
  | [] => ([], keyAllowed)
  | g :: rest =>
    if g.mark.column = 0 && g.char = byteOrderMark then skip flow keyAllowed rest
    else if g.char = ' ' || (g.char = '\t' && (flow || !keyAllowed)) then skip flow keyAllowed rest
    else if isBreak g.char then skip flow (keyAllowed || !flow) rest
    else if g.char = '#' then
      skip flow keyAllowed (rest.dropWhile fun g => !isBreak g.char)
    else (s, keyAllowed)
termination_by s.length
decreasing_by
  · exact Nat.lt_succ_self _
  · exact Nat.lt_succ_self _
  · exact Nat.lt_succ_self _
  · exact Nat.lt_succ_of_le (List.dropWhile_suffix _).length_le

def skipBlanks (l : Lexer) : Lexer :=
  let (rest, allowed) := skip l.inFlow l.keyAllowed l.rest
  { l with rest := rest, keyAllowed := allowed }

def documentLine (l : Lexer) (t : Token) : Option Lexer := do
  let l ← (l.closeWhile fun _ => true).dropKey
  pure { l.pass 3 t with keyAllowed := false }

def directive (l : Lexer) : Option Lexer := do
  let l ← (l.closeWhile fun _ => true).dropKey
  let (t, rest) ← readDirective l.rest.tail
  pure { l.write t with rest := rest, keyAllowed := false }

def openFlow (l : Lexer) (t : Token) : Option Lexer := do
  let l ← l.mayBeKey
  pure { l.pass 1 t with flowKeys := none :: l.flowKeys, keyAllowed := true }

def closeFlow (l : Lexer) (t : Token) : Option Lexer := do
  let l ← l.dropKey
  pure { l.pass 1 t with flowKeys := l.flowKeys.tail, keyAllowed := false }

def flowEntry (l : Lexer) : Option Lexer := do
  let l ← l.dropKey
  pure { l.pass 1 .flowEntry with keyAllowed := true }

def blockEntry (l : Lexer) : Option Lexer := do
  if !l.inFlow && !l.keyAllowed then none
  let l ← (l.openBlock .blockSequence).dropKey
  pure { l.pass 1 .blockEntry with keyAllowed := true }

def explicitKey (l : Lexer) : Option Lexer := do
  if !l.inFlow && !l.keyAllowed then none
  let l ← (l.openBlock .blockMapping).dropKey
  pure { l.pass 1 .key with keyAllowed := !l.inFlow }

/-- A colon: the pending key turns out to be one, or the value stands without it. -/
def value (l : Lexer) : Option Lexer :=
  match l.pending with
  | some k =>
    let opened := l.opens k.mark.column
    let l := { l with
      filled := (k.slot, opened) :: l.filled
      columns := if opened then k.mark.column :: l.columns else l.columns }
    some { (l.setPending none).pass 1 .value with keyAllowed := false }
  | none =>
    if !l.inFlow && !l.keyAllowed then none
    else some { (l.openBlock .blockMapping).pass 1 .value with keyAllowed := !l.inFlow }

def keyed (l : Lexer) (read : List Glyph → Option (Token × List Glyph)) : Option Lexer := do
  let l ← l.mayBeKey
  let (t, rest) ← read l.rest
  pure { l.write t with rest := rest, keyAllowed := false }

def block (l : Lexer) (literal : Bool) : Option Lexer := do
  let l ← l.dropKey
  let (text, rest) ← readBlock literal l.columns.head? l.stop l.rest.tail
  pure { l.write (.scalar (String.ofList text) false) with rest := rest, keyAllowed := true }

def plain (l : Lexer) : Option Lexer := do
  let l ← l.mayBeKey
  let indent := (l.columns.head?.map (· + 1)).getD 0
  let found ← readPlain l.inFlow indent l.stop ⟨[], []⟩ l.rest
  pure { l.write (.scalar (String.ofList found.text) true) with
    rest := found.rest, keyAllowed := found.broken }

def quoted (q : Quote) (s : List Glyph) : Option (Token × List Glyph) :=
  (readQuoted q s.tail).map fun (text, rest) => (.scalar (String.ofList text) false, rest)

def isIndicator (c : Char) : Bool :=
  c ∈ ['-', '?', ':', ',', '[', ']', '{', '}', '#', '&', '*', '!', '|', '>', '\'', '"', '%', '@',
    '\x60']

def startsPlain (flow : Bool) (c : Char) (rest : List Glyph) : Bool :=
  !(isIndicator c || isGap c) || (c = '-' && !gapNext rest) ||
    (!flow && (c = '?' || c = ':') && !blankNext rest)

def token (l : Lexer) (c : Char) : Option Lexer :=
  let rest := l.rest.tail
  if l.column = 0 && c = '%' then l.directive
  else if lineMark '-' l.rest then l.documentLine .documentStart
  else if lineMark '.' l.rest then l.documentLine .documentEnd
  else match c with
    | '[' => l.openFlow .flowSequence
    | '{' => l.openFlow .flowMapping
    | ']' => l.closeFlow .flowSequenceEnd
    | '}' => l.closeFlow .flowMappingEnd
    | ',' => l.flowEntry
    | '*' =>
      l.keyed fun s => (readAnchorName s.tail).map fun (name, rest) => (.reference name, rest)
    | '&' => l.keyed fun s => (readAnchorName s.tail).map fun (name, rest) => (.anchor name, rest)
    | '!' => l.keyed fun s => (readTag l.inFlow s).map fun (name, rest) => (.tag name, rest)
    | '\'' => l.keyed (quoted .single)
    | '"' => l.keyed (quoted .double)
    | _ =>
      if c = '-' && blankNext rest then l.blockEntry
      else if c = '?' && (l.inFlow || blankNext rest) then l.explicitKey
      else if c = ':' && (l.inFlow || blankNext rest) then l.value
      else if c = '|' && !l.inFlow then l.block true
      else if c = '>' && !l.inFlow then l.block false
      else if startsPlain l.inFlow c rest then l.plain
      else none

def finish (l : Lexer) : Option Lexer := (l.closeWhile fun _ => true).dropKey

def run (l : Lexer) : Option Lexer := do
  let l' ← l.skipBlanks.dropStaleKeys
  match front l'.rest with
  | none => l'.finish
  | some c =>
    let next ← (l'.closeWhile (l'.column < ·)).token c
    if _h : next.rest.length < l.rest.length then run next else none
termination_by l.rest.length
decreasing_by exact _h

def slotTokens (filled : List (Nat × Bool)) (n : Nat) : List Token :=
  match filled.find? (·.1 = n) with
  | none => []
  | some (_, opened) => if opened then [.blockMapping, .key] else [.key]

def tokens (l : Lexer) : List Token :=
  l.written.reverse.flatMap fun
    | .token t => [t]
    | .slot n => slotTokens l.filled n

end Lexer

def tokens? (text : String) : Option (List Token) := do
  let (gs, stop) ← glyphs text
  pure (← (Lexer.start gs stop).run).tokens

end GatewayFleet.Yaml
