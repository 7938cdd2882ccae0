import GatewayFleet.Fields
import GatewayFleet.Number.Binary64

/-! Open values: what a document holds before anything is known about its shape. Mappings keep
their members in document order. Equality is decided by comparing the two trees. -/

namespace GatewayFleet

/-- Integers stay exact; every other number is a double. -/
inductive Number
  | int (n : Int)
  | float (x : Binary64)
deriving DecidableEq, Inhabited

inductive Kind
  | null | boolean | number | string | list | mapping
deriving DecidableEq, Repr

def Kind.name : Kind → String
  | .null => "null"
  | .boolean => "boolean"
  | .number => "number"
  | .string => "string"
  | .list => "list"
  | .mapping => "mapping"

inductive Value
  | null
  | bool (b : Bool)
  | number (n : Number)
  | string (s : String)
  | list (items : List Value)
  | mapping (fields : List (String × Value))
deriving Inhabited

namespace Value

def kind : Value → Kind
  | .null => .null
  | .bool _ => .boolean
  | .number _ => .number
  | .string _ => .string
  | .list _ => .list
  | .mapping _ => .mapping

mutual

def decEq (a b : Value) : Decidable (a = b) :=
  match a with
  | .null => match b with
    | .null => isTrue rfl
    | .bool _ | .number _ | .string _ | .list _ | .mapping _ => isFalse nofun
  | .bool x => match b with
    | .bool y => decidable_of_iff (x = y) ⟨congrArg _, Value.bool.inj⟩
    | .null | .number _ | .string _ | .list _ | .mapping _ => isFalse nofun
  | .number x => match b with
    | .number y => decidable_of_iff (x = y) ⟨congrArg _, Value.number.inj⟩
    | .null | .bool _ | .string _ | .list _ | .mapping _ => isFalse nofun
  | .string x => match b with
    | .string y => decidable_of_iff (x = y) ⟨congrArg _, Value.string.inj⟩
    | .null | .bool _ | .number _ | .list _ | .mapping _ => isFalse nofun
  | .list x => match b with
    | .list y => @decidable_of_iff _ (x = y) ⟨congrArg _, Value.list.inj⟩ (decEqItems x y)
    | .null | .bool _ | .number _ | .string _ | .mapping _ => isFalse nofun
  | .mapping x => match b with
    | .mapping y => @decidable_of_iff _ (x = y) ⟨congrArg _, Value.mapping.inj⟩ (decEqFields x y)
    | .null | .bool _ | .number _ | .string _ | .list _ => isFalse nofun
termination_by structural a

def decEqItems (a b : List Value) : Decidable (a = b) :=
  match a, b with
  | [], [] => isTrue rfl
  | [], _ :: _ => isFalse nofun
  | _ :: _, [] => isFalse nofun
  | x :: xs, y :: ys =>
    match decEq x y, decEqItems xs ys with
    | isTrue h, isTrue hs => isTrue (h ▸ hs ▸ rfl)
    | isFalse h, _ => isFalse fun e => h (List.cons.inj e).1
    | _, isFalse h => isFalse fun e => h (List.cons.inj e).2
termination_by structural a

def decEqFields (a b : List (String × Value)) : Decidable (a = b) :=
  match a, b with
  | [], [] => isTrue rfl
  | [], _ :: _ => isFalse nofun
  | _ :: _, [] => isFalse nofun
  | (k, x) :: xs, (l, y) :: ys =>
    match instDecidableEqString k l, decEq x y, decEqFields xs ys with
    | isTrue hk, isTrue h, isTrue hs => isTrue (hk ▸ h ▸ hs ▸ rfl)
    | isFalse hk, _, _ => isFalse fun e => hk (Prod.mk.inj (List.cons.inj e).1).1
    | _, isFalse h, _ => isFalse fun e => h (Prod.mk.inj (List.cons.inj e).1).2
    | _, _, isFalse h => isFalse fun e => h (List.cons.inj e).2
termination_by structural a

end

instance : DecidableEq Value := decEq

def empty : Value := .mapping []

def member? : Value → String → Option Value
  | .mapping fs, k => Fields.get? fs k
  | _, _ => none

def ofInt (n : Int) : Value := .number (.int n)
def ofNat (n : Nat) : Value := .number (.int n)
def ofStrings (xs : List String) : Value := .list (xs.map .string)

/-- The value as an integer from 0 to below `2 ^ 64`. -/
def asUnsigned? : Value → Option Nat
  | .number (.int n) => if 0 ≤ n ∧ n < 0x10000000000000000 then some n.toNat else none
  | _ => none

mutual

def WellFormed : Value → Prop
  | .list items => WellFormedItems items
  | .mapping fields => Fields.Distinct fields ∧ WellFormedFields fields
  | _ => True

def WellFormedItems : List Value → Prop
  | [] => True
  | v :: rest => WellFormed v ∧ WellFormedItems rest

def WellFormedFields : List (String × Value) → Prop
  | [] => True
  | (_, v) :: rest => WellFormed v ∧ WellFormedFields rest

end

end Value

end GatewayFleet
