import GatewayFleet.Yaml.Glyph

/-! The texts of scalars: plain ones, quoted ones, and blocks. A line break inside a plain or a
quoted scalar counts as one space, and further breaks after it stand for themselves. -/

namespace GatewayFleet.Yaml

/-- Blanks between two stretches of a scalar: those in front of the first break, and the breaks. -/
structure Gap where
  blanks : List Char
  breaks : List Char

def Gap.isBroken (g : Gap) : Bool := !g.breaks.isEmpty

def foldBreaks : List Char → List Char
  | [] => []
  | first :: more =>
    if first = '\n' then if more.isEmpty then [' '] else more else first :: more

def Gap.text (g : Gap) : List Char := if g.isBroken then foldBreaks g.breaks else g.blanks

def readGap (indent : Nat) (broken : Bool) : List Glyph → Option (Gap × List Glyph)
  | [] => some (⟨[], []⟩, [])
  | g :: rest =>
    if isBreak g.char then
      (readGap indent true rest).map fun (gap, left) => (⟨[], g.char :: gap.breaks⟩, left)
    else if isGap g.char then
      if broken && g.char = '\t' && g.mark.column < indent then none
      else (readGap indent broken rest).map fun (gap, left) =>
        (if broken || gap.isBroken then gap else ⟨g.char :: gap.blanks, []⟩, left)
    else some (⟨[], []⟩, g :: rest)

def isFlowIndicator (c : Char) : Bool := c ∈ [',', '[', ']', '{', '}']

def endsPlain (flow : Bool) (c : Char) (rest : List Glyph) : Bool :=
  (c = ':' && blankNext rest) || (flow && isFlowIndicator c)

def isStrayColon (c : Char) (rest : List Glyph) : Bool :=
  c = ':' && (front rest).any fun d => isFlowIndicator d || d = '?'

def plainRun (flow : Bool) : List Glyph → Option (List Char × List Glyph)
  | [] => some ([], [])
  | g :: rest =>
    if isGap g.char || isBreak g.char then some ([], g :: rest)
    else if flow && isStrayColon g.char rest then none
    else if endsPlain flow g.char rest then some ([], g :: rest)
    else (plainRun flow rest).map fun (cs, left) => (g.char :: cs, left)

structure PlainText where
  text : List Char
  broken : Bool
  rest : List Glyph

def columnOf (s : List Glyph) (stop : Mark) : Nat := ((s.head?.map (·.mark)).getD stop).column

/-- Reads a plain scalar, whose further lines are indented to the column `indent` at least. The
gap is what was passed since the last stretch. -/
def readPlain (flow : Bool) (indent : Nat) (stop : Mark) (gap : Gap) (s : List Glyph) :
    Option PlainText := do
  if documentMark s || startsWith '#' s then return ⟨[], gap.isBroken, s⟩
  let (run, left) ← plainRun flow s
  if run.isEmpty then return ⟨[], gap.isBroken, s⟩
  let start := gap.text ++ run
  if !(gapNext left || breakNext left) then return ⟨start, false, left⟩
  let (gap, left) ← readGap indent false left
  if !flow && columnOf left stop < indent then return ⟨start, gap.isBroken, left⟩
  if _h : left.length < s.length then
    let more ← readPlain flow indent stop gap left
    return { more with text := start ++ more.text }
  else none
termination_by s.length
decreasing_by exact _h

def hexDigit? (c : Char) : Option Nat :=
  if c.isDigit then some (c.toNat - '0'.toNat)
  else if 'a' ≤ c ∧ c ≤ 'f' then some (c.toNat - 'a'.toNat + 10)
  else if 'A' ≤ c ∧ c ≤ 'F' then some (c.toNat - 'A'.toNat + 10)
  else none

def readHex : Nat → Nat → List Glyph → Option (Nat × List Glyph)
  | 0, value, s => some (value, s)
  | n + 1, value, g :: rest => do readHex n (value * 16 + (← hexDigit? g.char)) rest
  | _ + 1, _, [] => none

def charOf? (n : Nat) : Option Char := if n.isValidChar then some (Char.ofNat n) else none

def shortEscape? : Char → Option Char
  | '0' => some '\x00'
  | 'a' => some '\x07'
  | 'b' => some '\x08'
  | 't' | '\t' => some '\t'
  | 'n' => some '\n'
  | 'v' => some '\x0b'
  | 'f' => some '\x0c'
  | 'r' => some '\r'
  | 'e' => some '\x1b'
  | ' ' => some ' '
  | '"' => some '"'
  | '/' => some '/'
  | '\\' => some '\\'
  | 'N' => some '\u0085'
  | '_' => some '\u00a0'
  | 'L' => some '\u2028'
  | 'P' => some '\u2029'
  | _ => none

def escapeWidth? : Char → Option Nat
  | 'x' => some 2
  | 'u' => some 4
  | 'U' => some 8
  | _ => none

def readEscape : List Glyph → Option (Char × List Glyph)
  | [] => none
  | g :: rest =>
    match escapeWidth? g.char with
    | some width => do
      let (n, left) ← readHex width 0 rest
      pure (← charOf? n, left)
    | none => (shortEscape? g.char).map fun c => (c, rest)

inductive Quote
  | single | double
deriving DecidableEq

def Quote.char : Quote → Char
  | .single => '\''
  | .double => '"'

inductive RunEnd
  | quote | gap | escapedBreak

def quotedRun (q : Quote) (s : List Glyph) : Option (List Char × RunEnd × List Glyph) :=
  match s with
  | [] => none
  | g :: rest =>
    if isGap g.char || isBreak g.char then some ([], .gap, s)
    else if q = .single && g.char = '\'' && startsWith '\'' rest then
      (quotedRun q rest.tail).map fun (cs, left) => ('\'' :: cs, left)
    else if g.char = q.char then some ([], .quote, rest)
    else if q = .double && g.char = '\\' then
      if breakNext rest then some ([], .escapedBreak, rest.tail)
      else
        match readEscape rest with
        | none => none
        | some (c, left) =>
          if _h : left.length < (g :: rest).length then
            (quotedRun q left).map fun (cs, left) => (c :: cs, left)
          else none
    else (quotedRun q rest).map fun (cs, left) => (g.char :: cs, left)
termination_by s.length
decreasing_by
  · simp only [List.length_cons, List.length_tail]
    omega
  · exact _h
  · exact Nat.lt_succ_self _

/-- Reads a quoted scalar behind its opening quote. Behind an escaped break, blanks vanish and
further breaks stand for themselves. -/
def readQuoted (q : Quote) (s : List Glyph) : Option (List Char × List Glyph) := do
  if documentMark s then none
  match ← quotedRun q s with
  | (run, .quote, rest) => pure (run, rest)
  | (run, .gap, rest) =>
    let (gap, left) ← readGap 0 false rest
    if _h : left.length < s.length then
      let (more, left) ← readQuoted q left
      pure (run ++ gap.text ++ more, left)
    else none
  | (run, .escapedBreak, rest) =>
    let (gap, left) ← readGap 0 true rest
    if _h : left.length < s.length then
      let (more, left) ← readQuoted q left
      pure (run ++ gap.breaks ++ more, left)
    else none
termination_by s.length
decreasing_by
  · exact _h
  · exact _h

inductive Chomping
  | strip | clip | keep
deriving DecidableEq

structure BlockHeader where
  chomping : Chomping
  indent : Option Nat

def chomping? : Char → Option Chomping
  | '-' => some .strip
  | '+' => some .keep
  | _ => none

def takeChomping (s : List Glyph) : Chomping × List Glyph :=
  match (front s).bind chomping? with
  | some c => (c, s.tail)
  | none => (.clip, s)

def takeIndent (s : List Glyph) : Option (Option Nat × List Glyph) :=
  match front s with
  | some c =>
    if !c.isDigit then some (none, s)
    else if c = '0' then none
    else some (some (c.toNat - '0'.toNat), s.tail)
  | none => some (none, s)

def readHeader (s : List Glyph) : Option (BlockHeader × List Glyph) := do
  let (indent, s) ← takeIndent s
  let (chomping, s) := takeChomping s
  let (later, s) ← if indent.isSome || chomping = .clip then some (none, s) else takeIndent s
  pure (⟨chomping, indent <|> later⟩, ← finishLine s)

/-- Empty lines: their breaks, the widest indentation seen, and what is left. With an indentation
given, spaces beyond it belong to the content. -/
def blockBreaks (indent : Option Nat) (widest : Nat) (s : List Glyph) :
    Option (List Char × Nat × List Glyph) :=
  match s with
  | [] => some ([], widest, [])
  | g :: rest =>
    let within := indent.all (g.mark.column < ·)
    if within && g.char = ' ' then blockBreaks indent (max widest (g.mark.column + 1)) rest
    else if within && g.char = '\t' then none
    else if isBreak g.char then
      (blockBreaks indent widest rest).map fun (breaks, more) => (g.char :: breaks, more)
    else some ([], max widest g.mark.column, s)

/-- The lines of a block from one that has content on. `lead` is the break before it, `extra` the
breaks after that, and `blank` whether the line before it began with a blank. -/
def blockLines (literal : Bool) (chomping : Chomping) (indent : Nat) (stop : Mark)
    (lead extra : List Char) (blank : Bool) (s : List Glyph) : Option (List Char × List Glyph) := do
  if s.isEmpty || columnOf s stop ≠ indent then
    let ends := if chomping = .strip then [] else lead
    return (ends ++ (if chomping = .keep then extra else []), s)
  let blankHere := gapNext s
  let joined :=
    if !literal && lead.head? = some '\n' && !blank && !blankHere then
      if extra.isEmpty then [' '] else extra
    else lead ++ extra
  let line := (s.takeWhile fun g => !isBreak g.char).map (·.char)
  let left := s.dropWhile fun g => !isBreak g.char
  let lead := (left.take 1).map (·.char)
  let (extra, _, left) ← blockBreaks (some indent) 0 left.tail
  if _h : left.length < s.length then
    let (more, left) ← blockLines literal chomping indent stop lead extra blankHere left
    return (joined ++ line ++ more, left)
  else none
termination_by s.length
decreasing_by exact _h

def readBlock (literal : Bool) (outer : Option Nat) (stop : Mark) (s : List Glyph) :
    Option (List Char × List Glyph) := do
  let (header, s) ← readHeader s
  let given := header.indent.map (· + outer.getD 0)
  let (extra, widest, s) ← blockBreaks given 0 s
  let least := max 1 ((outer.map (· + 1)).getD 0)
  let indent := given.getD (max widest least)
  blockLines literal header.chomping indent stop [] extra false s

end GatewayFleet.Yaml
