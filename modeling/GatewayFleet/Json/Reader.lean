import GatewayFleet.Value
import GatewayFleet.Json.Fault

/-! Strict JSON. Each reader takes the text in front of it and returns what it read with the text
that is left. Lists and mappings nest at most 127 deep. A repeated name takes its last value at
its first place. Integers of 64 bits stay integers; other numbers become doubles. -/

namespace GatewayFleet.Json

abbrev Step (α : Type) := Except Fault (α × List Char)

def peeked (r : Reason) (rest : List Char) : Except Fault α := .error ⟨r, ⟨rest, 1⟩⟩

def stopped (r : Reason) (rest : List Char) (taken : Nat) : Except Fault α :=
  .error ⟨r, ⟨rest, taken⟩⟩

def isSpace (c : Char) : Bool := c = ' ' || c = '\n' || c = '\t' || c = '\r'

def skipSpace (s : List Char) : List Char := s.dropWhile isSpace

theorem skipSpace_length_le (s : List Char) : (skipSpace s).length ≤ s.length :=
  (List.dropWhile_suffix _).length_le

def readWord : List Char → List Char → Except Fault (List Char)
  | [], s => .ok s
  | _ :: _, [] => stopped .endInValue [] 0
  | w :: ws, c :: s => if c = w then readWord ws s else stopped .expectedIdent (c :: s) 1

def digitValue (c : Char) : Nat := c.toNat - '0'.toNat

def hexValue? (c : Char) : Option Nat :=
  if c.isDigit then some (c.toNat - '0'.toNat)
  else if 'a' ≤ c ∧ c ≤ 'f' then some (c.toNat - 'a'.toNat + 10)
  else if 'A' ≤ c ∧ c ≤ 'F' then some (c.toNat - 'A'.toNat + 10)
  else none

def maxUnsigned : Nat := 0xFFFFFFFFFFFFFFFF

/-- Appends digits to a significand as long as it stays below `2 ^ 64`; returns those left. -/
def absorb (n : Nat) : List Char → Nat × List Char
  | [] => (n, [])
  | d :: ds =>
    if maxUnsigned < n * 10 + digitValue d then (n, d :: ds)
    else absorb (n * 10 + digitValue d) ds

/-- Multiplies or divides by one power of ten, in double arithmetic. Powers below `10 ^ -308` are
reached in steps; a result that is too large has no value. -/
def scale (x : Float) (e : Int) : Option Float :=
  if 308 < e then if x == 0.0 then some x else none
  else if 0 ≤ e then
    let y := x * Float.ofScientific 1 false e.toNat
    if y.isInf then none else some y
  else if -308 ≤ e then some (x / Float.ofScientific 1 false (-e).toNat)
  else if x == 0.0 then some x
  else scale (x / Float.ofScientific 1 false 308) (e + 308)
termination_by (-e).toNat
decreasing_by omega

def signed (negative : Bool) (x : Binary64) : Binary64 := if negative then x.negate else x

def floatOfParts (negative : Bool) (significand : Nat) (e : Int) (rest : List Char) :
    Step Number :=
  match scale (Float.ofNat significand) e with
  | some x => .ok (.float (signed negative (.ofFloat x)), rest)
  | none => stopped .numberOutOfRange rest 0

/-- The exponent as long as it stays below `2 ^ 31`; otherwise the text in front of the digit
that is one too many. -/
def absorbExponent (n : Nat) : List Char → Except (List Char) Nat
  | [] => .ok n
  | d :: ds =>
    if 0x7FFFFFFF < n * 10 + digitValue d then .error (d :: ds)
    else absorbExponent (n * 10 + digitValue d) ds

def readExponent (negative : Bool) (significand : Nat) (e : Int) (s : List Char) : Step Number :=
  let (down, s) := match s with
    | '+' :: r => (false, r)
    | '-' :: r => (true, r)
    | _ => (false, s)
  match s with
  | [] => stopped .endInValue [] 0
  | c :: _ =>
    if !c.isDigit then stopped .invalidNumber s 1
    else
      let digits := s.takeWhile Char.isDigit
      let rest := s.dropWhile Char.isDigit
      match absorbExponent 0 digits with
      | .ok x => floatOfParts negative significand (if down then e - x else e + x) rest
      | .error left =>
        if significand ≠ 0 && !down then stopped .numberOutOfRange (left ++ rest) 0
        else .ok (.float (signed negative ⟨0⟩), rest)

def readFractionOrExponent (negative : Bool) (significand : Nat) (e : Int) :
    List Char → Option (Step Number)
  | '.' :: s =>
    let digits := s.takeWhile Char.isDigit
    let rest := s.dropWhile Char.isDigit
    if digits.isEmpty then
      some (peeked (if rest.isEmpty then .endInValue else .invalidNumber) rest)
    else
      let (n, left) := absorb significand digits
      let e := e - (digits.length - left.length : Nat)
      match rest with
      | c :: r =>
        if c = 'e' || c = 'E' then some (readExponent negative n e r)
        else some (floatOfParts negative n e rest)
      | [] => some (floatOfParts negative n e rest)
  | c :: s => if c = 'e' || c = 'E' then some (readExponent negative significand e s) else none
  | [] => none

def integer (negative : Bool) (n : Nat) : Number :=
  if !negative then .int n
  else if 0 < n ∧ n ≤ 0x8000000000000000 then .int (-n)
  else .float (Binary64.ofFloat (Float.ofNat n)).negate

def readNumber (negative : Bool) (s : List Char) : Step Number :=
  match s with
  | [] => stopped .endInValue [] 0
  | c :: r =>
    if !c.isDigit then stopped .invalidNumber s 1
    else
      let digits := if c = '0' then [c] else s.takeWhile Char.isDigit
      let rest := if c = '0' then r else s.dropWhile Char.isDigit
      if c = '0' && (rest.head?.map Char.isDigit).getD false then peeked .invalidNumber rest
      else
        let (n, left) := absorb 0 digits
        match readFractionOrExponent negative n left.length rest with
        | some result => result
        | none =>
          if left.isEmpty then .ok (integer negative n, rest)
          else floatOfParts negative n left.length rest

def readHex : List Char → Step Nat
  | a :: b :: c :: d :: r =>
    match hexValue? a, hexValue? b, hexValue? c, hexValue? d with
    | some a', some b', some c', some d' => .ok (((a' * 16 + b') * 16 + c') * 16 + d', r)
    | _, _, _, _ => stopped .invalidEscape (a :: b :: c :: d :: r) 4
  | s =>
    if byteLength s < 4 then stopped .endInString [] 0 else stopped .invalidEscape s 4

def expectInPair (c : Char) : List Char → Except Fault (List Char)
  | [] => stopped .endInString [] 0
  | d :: r => if d = c then .ok r else stopped .endOfHexEscape (d :: r) 1

/-- The character behind an escape of four digits; a leading surrogate needs a trailing one. -/
def readUnicode (s : List Char) : Except Fault (Char × List Char) := do
  let (n, r) ← readHex s
  if 0xDC00 ≤ n ∧ n ≤ 0xDFFF then stopped .loneSurrogate r 0
  else if n < 0xD800 ∨ 0xDBFF < n then .ok (Char.ofNat n, r)
  else
    let r ← expectInPair '\\' r
    let r ← expectInPair 'u' r
    let (m, r) ← readHex r
    if 0xDC00 ≤ m ∧ m ≤ 0xDFFF then
      .ok (Char.ofNat ((n - 0xD800) * 0x400 + (m - 0xDC00) + 0x10000), r)
    else stopped .loneSurrogate r 0

def simpleEscape? : Char → Option Char
  | '"' => some '"'
  | '\\' => some '\\'
  | '/' => some '/'
  | 'b' => some '\x08'
  | 'f' => some '\x0C'
  | 'n' => some '\n'
  | 'r' => some '\r'
  | 't' => some '\t'
  | _ => none

def readEscape : List Char → Step Char
  | [] => stopped .endInString [] 0
  | 'u' :: r => readUnicode r
  | c :: r =>
    match simpleEscape? c with
    | some d => .ok (d, r)
    | none => stopped .invalidEscape (c :: r) 1

theorem readHex_length {s r : List Char} {n : Nat} (h : readHex s = .ok (n, r)) :
    r.length < s.length := by
  unfold readHex at h
  split at h
  · split at h
    · simp only [Except.ok.injEq, Prod.mk.injEq] at h
      simp [← h.2]
      omega
    · simp [stopped] at h
  · split at h <;> simp [stopped] at h

theorem expectInPair_length {c : Char} {s r : List Char} (h : expectInPair c s = .ok r) :
    r.length < s.length := by
  unfold expectInPair at h
  split at h
  · simp [stopped] at h
  · split at h
    · simp_all
    · simp [stopped] at h

theorem readUnicode_length {s r : List Char} {c : Char} (h : readUnicode s = .ok (c, r)) :
    r.length < s.length := by
  simp only [readUnicode, bind, Except.bind] at h
  split at h
  · cases h
  · rename_i v hv
    have h₁ := readHex_length hv
    split at h
    · simp [stopped] at h
    · split at h
      · simp_all
      · split at h
        · cases h
        · rename_i r₂ h₂
          have h₂ := expectInPair_length h₂
          split at h
          · cases h
          · rename_i r₃ h₃
            have h₃ := expectInPair_length h₃
            split at h
            · cases h
            · rename_i w h₄
              have h₄ := readHex_length h₄
              split at h
              · simp only [Except.ok.injEq, Prod.mk.injEq] at h
                rw [← h.2]
                omega
              · simp [stopped] at h

theorem readEscape_length {s r : List Char} {c : Char} (h : readEscape s = .ok (c, r)) :
    r.length < s.length := by
  unfold readEscape at h
  split at h
  · simp [stopped] at h
  · have := readUnicode_length h
    simp only [List.length_cons]
    omega
  · split at h
    · simp_all
    · simp [stopped] at h

def readString (s : List Char) : Step (List Char) :=
  match s with
  | [] => stopped .endInString [] 0
  | '"' :: r => .ok ([], r)
  | '\\' :: r =>
    match _h : readEscape r with
    | .error e => .error e
    | .ok (c, r') => (readString r').map fun (cs, rest) => (c :: cs, rest)
  | c :: r =>
    if c.toNat < 0x20 then stopped .controlCharacter (c :: r) 1
    else (readString r).map fun (cs, rest) => (c :: cs, rest)
termination_by s.length
decreasing_by
  · have := readEscape_length _h
    simp only [List.length_cons]
    omega
  · simp

mutual

def readValue (depth : Nat) (s : List Char) : Step Value :=
  match _hs : skipSpace s with
  | [] => peeked .endInValue []
  | 'n' :: r => (readWord ['u', 'l', 'l'] r).map (Value.null, ·)
  | 't' :: r => (readWord ['r', 'u', 'e'] r).map (Value.bool true, ·)
  | 'f' :: r => (readWord ['a', 'l', 's', 'e'] r).map (Value.bool false, ·)
  | '"' :: r => (readString r).map fun (cs, rest) => (.string (String.ofList cs), rest)
  | '-' :: r => (readNumber true r).map fun (n, rest) => (.number n, rest)
  | '[' :: r =>
    match depth with
    | 0 => peeked .tooDeep ('[' :: r)
    | depth + 1 =>
      match skipSpace r with
      | [] => peeked .endInList []
      | ']' :: rest => .ok (.list [], rest)
      | _ => (readItems depth r).map fun (items, rest) => (.list items, rest)
  | '{' :: r =>
    match depth with
    | 0 => peeked .tooDeep ('{' :: r)
    | depth + 1 =>
      match skipSpace r with
      | [] => peeked .endInObject []
      | '}' :: rest => .ok (.mapping [], rest)
      | _ => (readMembers depth r).map fun (ms, rest) => (.mapping (Fields.ofList ms), rest)
  | c :: r =>
    if c.isDigit then (readNumber false (c :: r)).map fun (n, rest) => (.number n, rest)
    else peeked .expectedValue (c :: r)
termination_by (s.length, 0)
decreasing_by
  all_goals
    have := skipSpace_length_le s
    rw [_hs] at this
    simp only [List.length_cons] at this
    exact Prod.Lex.left _ _ (by omega)

def readItems (depth : Nat) (s : List Char) : Step (List Value) :=
  match readValue depth s with
  | .error e => .error e
  | .ok (v, r) =>
    match skipSpace r with
    | [] => peeked .endInList []
    | ']' :: rest => .ok ([v], rest)
    | ',' :: r' =>
      match skipSpace r' with
      | [] => peeked .endInValue []
      | ']' :: rest => peeked .trailingComma (']' :: rest)
      | next =>
        if next.length < s.length then
          (readItems depth next).map fun (vs, rest) => (v :: vs, rest)
        else peeked .expectedValue next
    | rest => peeked .expectedListEnd rest
termination_by (s.length, 1)
decreasing_by
  · exact Prod.Lex.right _ (by omega)
  · exact Prod.Lex.left _ _ (by assumption)

def readMembers (depth : Nat) (s : List Char) : Step (List (String × Value)) :=
  match skipSpace s with
  | '"' :: r =>
    match readString r with
    | .error e => .error e
    | .ok (k, r₁) =>
      match skipSpace r₁ with
      | [] => peeked .endInObject []
      | ':' :: r₂ =>
        if r₂.length < s.length then
          match readValue depth r₂ with
          | .error e => .error e
          | .ok (v, r₃) =>
            match skipSpace r₃ with
            | [] => peeked .endInObject []
            | '}' :: rest => .ok ([(String.ofList k, v)], rest)
            | ',' :: r₄ =>
              match skipSpace r₄ with
              | [] => peeked .endInValue []
              | '}' :: rest => peeked .trailingComma ('}' :: rest)
              | next =>
                if next.length < s.length then
                  (readMembers depth next).map fun (ms, rest) => ((String.ofList k, v) :: ms, rest)
                else peeked .expectedValue next
            | rest => peeked .expectedObjectEnd rest
        else peeked .expectedValue r₂
      | rest => peeked .expectedColon rest
  | rest => peeked .keyNotString rest
termination_by (s.length, 1)
decreasing_by
  all_goals exact Prod.Lex.left _ _ (by assumption)

end

def maxDepth : Nat := 127

def readChars (s : List Char) : Except Fault Value :=
  match readValue maxDepth s with
  | .error e => .error e
  | .ok (v, r) =>
    match skipSpace r with
    | [] => .ok v
    | rest => peeked .trailingCharacters rest

def read (text : String) : Except Fault Value := readChars text.toList

end GatewayFleet.Json
