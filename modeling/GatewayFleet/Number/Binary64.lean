/-! Double precision numbers by their bits. A finite one is `m · 2 ^ q` with a sign; the decimals
that read back as it form an interval around that value, whose ends belong to it when `m` is
even. The shortest decimal is the first hit on the grids of 1, 2, … 17 digits: there the two
neighbours of the value are tried, the nearer hit wins and a tie goes to the even digit. -/

namespace GatewayFleet

structure Binary64 where
  bits : UInt64
deriving DecidableEq, Inhabited

namespace Binary64

def ofFloat (x : Float) : Binary64 := ⟨x.toBits⟩

def hiddenBit : Nat := 0x10000000000000

def isNegative (x : Binary64) : Bool := x.bits.toNat ≥ 0x8000000000000000
def exponentField (x : Binary64) : Nat := x.bits.toNat / hiddenBit % 0x800
def fractionField (x : Binary64) : Nat := x.bits.toNat % hiddenBit
def isFinite (x : Binary64) : Bool := x.exponentField ≠ 2047

def negate (x : Binary64) : Binary64 := ⟨x.bits ^^^ 0x8000000000000000⟩

def significand (x : Binary64) : Nat :=
  if x.exponentField = 0 then x.fractionField else x.fractionField + hiddenBit

def power (x : Binary64) : Int := (max x.exponentField 1 : Nat) - 1075

structure Decimal where
  digits : Nat
  exponent : Int
deriving DecidableEq, Repr

/-- The greatest `k` with `10 ^ k ≤ num / den`, both positive. -/
def decimalMagnitude (num den : Nat) : Int :=
  if den ≤ num then (Nat.toDigits 10 (num / den)).length - 1
  else
    let j := (Nat.toDigits 10 (den / num)).length
    if den ≤ num * Nat.pow 10 (j - 1) then -(j - 1 : Nat) else -j

/-- Four times a finite value and the two ends of its interval, over one denominator. -/
structure Interval where
  low : Nat
  mid : Nat
  high : Nat
  den : Nat
  closed : Bool

def interval (x : Binary64) : Interval :=
  let m := x.significand
  let below := if m = hiddenBit ∧ x.exponentField > 1 then 1 else 2
  let scale := Nat.pow 2 x.power.toNat
  ⟨(4 * m - below) * scale, 4 * m * scale, (4 * m + 2) * scale, 4 * Nat.pow 2 (-x.power).toNat,
   m % 2 = 0⟩

def Interval.contains (i : Interval) (d : Nat) (e : Int) : Bool :=
  let v := d * Nat.pow 10 e.toNat * i.den
  let s := Nat.pow 10 (-e).toNat
  if i.closed then i.low * s ≤ v && v ≤ i.high * s else i.low * s < v && v < i.high * s

def Interval.hit? (i : Interval) (e : Int) : Option Nat :=
  let num := i.mid * Nat.pow 10 (-e).toNat
  let den := i.den * Nat.pow 10 e.toNat
  let d := num / den
  let r := num % den
  match i.contains d e, i.contains (d + 1) e with
  | true, true =>
    if 2 * r < den then some d
    else if 2 * r > den then some (d + 1)
    else some (if d % 2 = 0 then d else d + 1)
  | true, false => some d
  | false, true => some (d + 1)
  | false, false => none

def Interval.search (i : Interval) (magnitude : Int) : List Nat → Decimal
  | [] => ⟨0, 0⟩
  | n :: rest =>
    let e := magnitude + 1 - n
    match i.hit? e with
    | some d => ⟨d, e⟩
    | none => i.search magnitude rest

def Decimal.strip (d : Decimal) : Decimal :=
  let zeros := ((Nat.toDigits 10 d.digits).reverse.takeWhile (· = '0')).length
  if d.digits = 0 then ⟨0, 0⟩ else ⟨d.digits / Nat.pow 10 zeros, d.exponent + zeros⟩

/-- The shortest decimal that reads back as the magnitude of a finite number. -/
def shortest (x : Binary64) : Decimal :=
  if x.significand = 0 then ⟨0, 0⟩
  else
    let i := x.interval
    (i.search (decimalMagnitude i.mid i.den) (List.range' 1 17)).strip

def ofDecimal (d : Decimal) : Binary64 :=
  let span := (Nat.toDigits 10 d.digits).length
  if d.digits = 0 ∨ d.exponent + span < -400 then ⟨0⟩
  else if d.exponent > 400 then ofFloat (1.0 / 0.0)
  else ofFloat (Float.ofScientific d.digits (d.exponent < 0) d.exponent.natAbs)

end Binary64

end GatewayFleet
