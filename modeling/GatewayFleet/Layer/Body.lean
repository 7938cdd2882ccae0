import GatewayFleet.Layer.Dialect
import GatewayFleet.Json.Reader

/-! A configuration layer: the members it declares and the layers it includes. A text without
anything in it declares nothing. -/

namespace GatewayFleet

structure Layer where
  body : Fields Value
  includes : List String
deriving DecidableEq

namespace Layer

def includeKey : String := "$include"

inductive Defect
  | malformed (message : String)
  | notMapping (found : Kind)
  | includeNotTexts (found : Kind)
  | includeItemNotText (index : Nat) (found : Kind)
deriving DecidableEq

def textsFrom (i : Nat) : List Value → Except Defect (List String)
  | [] => .ok []
  | .string s :: rest => (textsFrom (i + 1) rest).map (s :: ·)
  | v :: _ => .error (.includeItemNotText i v.kind)

/-- The layers named by the value of `$include`: one text or a list of texts. -/
def includesOf : Option Value → Except Defect (List String)
  | none => .ok []
  | some (.string s) => .ok [s]
  | some (.list items) => textsFrom 0 items
  | some v => .error (.includeNotTexts v.kind)

def ofValue? : Value → Except Defect Layer
  | .mapping fs =>
    (includesOf (Fields.get? fs includeKey)).map fun includes =>
      ⟨Fields.erase fs includeKey, includes⟩
  | v => .error (.notMapping v.kind)

def valueOf? (text : String) : Except Defect Value :=
  let strict := toStrict text
  if Text.isAllBlank strict then .ok Value.empty
  else match Json.read strict with
    | .ok v => .ok v
    | .error fault => .error (.malformed (fault.message strict))

def parse (text : String) : Except Defect Layer := valueOf? text >>= ofValue?

end Layer

end GatewayFleet
