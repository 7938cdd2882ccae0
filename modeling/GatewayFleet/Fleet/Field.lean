import GatewayFleet.Fleet.Issue
import GatewayFleet.Text.Blank

/-! Reading the members of one mapping. Every reader reports what does not fit and goes on with
what it could make of the member; null counts as absent wherever a member may be absent. -/

namespace GatewayFleet.Fleet

open Policy (Fragment)

structure Section where
  fields : Fields Value
  place : Place

namespace Section

def at_ (s : Section) (k : String) : Place := s.place ++ [.key k]

def get? (s : Section) (k : String) : Option Value := Fields.get? s.fields k

/-- A text with something in it besides blank characters. -/
def filled? : Option Value → Option String
  | some (.string t) => if Text.isAllBlank t then none else some t
  | _ => none

def mapping (s : Section) (k : String) : Checked (Option (Fields Value)) :=
  match s.get? k with
  | some (.mapping fs) => pure (some fs)
  | _ => Checked.faulty (s.at_ k) .notMapping none

def optionalMapping (s : Section) (k : String) : Checked (Option (Fields Value)) :=
  match s.get? k with
  | none | some .null => pure none
  | some (.mapping fs) => pure (some fs)
  | some v => Checked.faulty (s.at_ k) (.mappingExpected v.kind) none

def string (s : Section) (k : String) : Checked (Option String) :=
  match filled? (s.get? k) with
  | some t => pure (some t)
  | none => Checked.faulty (s.at_ k) .notFilledString none

def optionalString (s : Section) (k : String) : Checked (Option String) :=
  match s.get? k with
  | none | some .null => pure none
  | some v => match filled? (some v) with
    | some t => pure (some t)
    | none => Checked.faulty (s.at_ k) .notFilledString none

/-- The texts among the items from index `i` on; the other items are reported. -/
def texts (place : Place) (problem : Value → Problem) : Nat → List Value → Checked (List String)
  | _, [] => pure []
  | i, .string t :: rest => do pure (t :: (← texts place problem (i + 1) rest))
  | i, v :: rest => do
    Checked.report (.shape (place ++ [.index i]) (problem v))
    texts place problem (i + 1) rest

def optionalStrings (s : Section) (k : String) : Checked (Option (List String)) :=
  match s.get? k with
  | none | some .null => pure none
  | some (.list items) => do
    pure (some (← texts (s.at_ k) (fun v => .stringExpected v.kind) 0 items))
  | some v => Checked.faulty (s.at_ k) (.listExpected v.kind) none

def strings (s : Section) (k : String) : Checked (List String) := do
  pure ((← s.optionalStrings k).getD [])

def policy (s : Section) (k : String) : Checked (Option Fragment) := do
  match ← s.optionalMapping k with
  | none => pure none
  | some fs => match Fragment.ofFields? fs with
    | .ok f => pure (some f)
    | .error m => Checked.faulty (s.at_ k) (.unusablePolicy m) none

def without (s : Section) (known : List String) : Fields Value := Fields.without s.fields known

end Section

end GatewayFleet.Fleet
