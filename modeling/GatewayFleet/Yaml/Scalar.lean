import GatewayFleet.Value

/-! What a plain scalar stands for: null, a boolean, a number, or its own text. Digits behind a
leading zero are text, and so is every number word that is out of reach of a double. -/

namespace GatewayFleet.Yaml.Scalar

def isNull (s : String) : Bool := s ∈ ["null", "Null", "NULL", "~"]

def bool? : String → Option Bool
  | "true" | "True" | "TRUE" => some true
  | "false" | "False" | "FALSE" => some false
  | _ => none

def unsigned (cs : List Char) : List Char :=
  match cs with
  | '+' :: rest | '-' :: rest => rest
  | _ => cs

def isZeroPadded (cs : List Char) : Bool :=
  match unsigned cs with
  | '0' :: d :: rest => (d :: rest).all Char.isDigit
  | _ => false

def digitOf? (base : Nat) (c : Char) : Option Nat :=
  let n :=
    if c.isDigit then c.toNat - '0'.toNat
    else if 'a' ≤ c ∧ c ≤ 'f' then c.toNat - 'a'.toNat + 10
    else if 'A' ≤ c ∧ c ≤ 'F' then c.toNat - 'A'.toNat + 10
    else base
  if n < base then some n else none

def natural? (base : Nat) (cs : List Char) : Option Nat :=
  if cs.isEmpty then none
  else cs.foldlM (fun n c => (digitOf? base c).map (n * base + ·)) 0

def radix? : List Char → Option (Nat × List Char)
  | '0' :: 'x' :: rest => some (16, rest)
  | '0' :: 'o' :: rest => some (8, rest)
  | '0' :: 'b' :: rest => some (2, rest)
  | _ => none

def digits? (cs : List Char) : Option Nat :=
  match radix? cs with
  | some (base, rest) => natural? base rest
  | none => if isZeroPadded cs then none else natural? 10 cs

def integer? : List Char → Option Int
  | '-' :: rest => (digits? rest).map fun n => -(n : Int)
  | '+' :: rest => (digits? rest).map fun n => (n : Int)
  | cs => (digits? cs).map fun n => (n : Int)

/-- What an integer of any size leads to: a number of 64 bits, or nothing that can be kept, or
none when it is too large even for 128 bits. -/
inductive Reach
  | within (n : Int)
  | beyond
deriving DecidableEq

def reach? (n : Int) : Option Reach :=
  if -0x8000000000000000 ≤ n ∧ n < 0x10000000000000000 then some (.within n)
  else if -0x80000000000000000000000000000000 ≤ n ∧
      n < 0x100000000000000000000000000000000 then some .beyond
  else none

/-- The digits of a decimal number, with the power of ten of the last one. -/
def mantissa? (cs : List Char) : Option (Nat × Int × List Char) :=
  let whole := cs.takeWhile Char.isDigit
  let rest := cs.dropWhile Char.isDigit
  let (fraction, rest) := match rest with
    | '.' :: r => (r.takeWhile Char.isDigit, r.dropWhile Char.isDigit)
    | _ => ([], rest)
  (natural? 10 (whole ++ fraction)).map fun n => (n, -(fraction.length : Int), rest)

def exponent? : List Char → Option Int
  | [] => some 0
  | c :: rest =>
    if c = 'e' || c = 'E' then
      match rest with
      | '-' :: ds => (natural? 10 ds).map fun n => -(n : Int)
      | '+' :: ds => (natural? 10 ds).map fun n => (n : Int)
      | ds => (natural? 10 ds).map fun n => (n : Int)
    else none

def decimal? (cs : List Char) : Option Binary64 := do
  let (digits, scale, rest) ← mantissa? cs
  let e ← exponent? rest
  pure (.ofDecimal ⟨digits, scale + e⟩)

def infinityNames : List String := [".inf", ".Inf", ".INF"]
def nanNames : List String := [".nan", ".NaN", ".NAN"]

def infinity : Binary64 := .ofFloat (1.0 / 0.0)
def nan : Binary64 := .ofFloat (0.0 / 0.0)

def finite? (negative : Bool) (cs : List Char) : Option Binary64 := do
  let x ← decimal? cs
  if x.isFinite then pure (if negative then x.negate else x) else none

def float? (s : String) : Option Binary64 :=
  match s.toList with
  | '-' :: rest =>
    if String.ofList rest ∈ infinityNames then some infinity.negate else finite? true rest
  | '+' :: rest =>
    let t := String.ofList rest
    if t ∈ infinityNames then some infinity else if t ∈ nanNames then some nan
    else finite? false rest
  | cs =>
    if s ∈ infinityNames then some infinity else if s ∈ nanNames then some nan
    else finite? false cs

def ofFloat (x : Binary64) : Value := if x.isFinite then .number (.float x) else .null

/-- The integer that a text stands for, if that can be kept; the outer option tells whether it is
one at all. -/
def keptInteger? (s : String) : Option (Option Value) :=
  match (integer? s.toList).bind reach? with
  | some (.within n) => some (some (.ofInt n))
  | some .beyond => some none
  | none => none

def resolve? (s : String) : Option Value :=
  if s = "" || isNull s then some .null
  else match bool? s with
    | some b => some (.bool b)
    | none =>
      match keptInteger? s with
      | some kept => kept
      | none =>
        if isZeroPadded s.toList then some (.string s)
        else match float? s with
          | some x => some (ofFloat x)
          | none => some (.string s)

end GatewayFleet.Yaml.Scalar
