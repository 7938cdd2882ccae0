import GatewayFleet.Number.Binary64

/-! How a finite number is written from its shortest digits. The point of a decimal with digits
`d₁ … dₙ` stands after the place `n + exponent`; when that place lies in the positional range the
number is written out with at least one decimal, and otherwise as `d₁.d₂…e±x`. -/

namespace GatewayFleet

namespace Number

structure Layout where
  /-- The first and the last place of the point at which a number is written out. -/
  positional : Int × Int
  plus : Bool

def Layout.json : Layout := ⟨(-4, 16), true⟩

def Layout.yaml : Layout := ⟨(-4, 16), false⟩

def Layout.isPositional (l : Layout) (point : Int) : Bool :=
  l.positional.1 ≤ point && point ≤ l.positional.2

def zeros (n : Nat) : List Char := List.replicate n '0'

def writtenOut (ds : List Char) (point : Int) : List Char :=
  if point ≤ 0 then '0' :: '.' :: zeros (-point).toNat ++ ds
  else
    let p := point.toNat
    if ds.length ≤ p then ds ++ zeros (p - ds.length) ++ ['.', '0']
    else ds.take p ++ '.' :: ds.drop p

def scientific (plus : Bool) (ds : List Char) (point : Int) : List Char :=
  let e := point - 1
  let sign := if e < 0 then ['-'] else if plus then ['+'] else []
  let head := match ds with
    | [] => []
    | d :: rest => if rest.isEmpty then [d] else d :: '.' :: rest
  head ++ 'e' :: sign ++ Nat.toDigits 10 e.natAbs

def Layout.decimal (l : Layout) (d : Binary64.Decimal) : List Char :=
  if d.digits = 0 then ['0', '.', '0']
  else
    let ds := Nat.toDigits 10 d.digits
    let point := (ds.length : Int) + d.exponent
    if l.isPositional point then writtenOut ds point else scientific l.plus ds point

def Layout.write (l : Layout) (x : Binary64) : String :=
  String.ofList ((if x.isNegative then ['-'] else []) ++ l.decimal x.shortest)

end Number

end GatewayFleet
