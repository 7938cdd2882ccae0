import GatewayFleet.Value.Describe

/-! The allow and deny lists declared at one scope. Every group and every list may be absent, and
names that are not known are kept. A member of the wrong shape makes the whole declaration
unusable; the first one in document order is the one that is named. -/

namespace GatewayFleet.Policy

inductive Expectation
  | string | sequence | integrationRules | skillRules | modelRules | fragment
deriving DecidableEq

def Expectation.text : Expectation → String
  | .string => "a string"
  | .sequence => "a sequence"
  | .integrationRules => "struct IntegrationRules"
  | .skillRules => "struct SkillRules"
  | .modelRules => "struct ModelRules"
  | .fragment => "struct PolicyFragment"

structure Mismatch where
  found : Value
  expected : Expectation
deriving DecidableEq

def Mismatch.message (m : Mismatch) : String :=
  "invalid type: " ++ m.found.describe ++ ", expected " ++ m.expected.text

structure IntegrationRules where
  allow : Option (List String) := none
  deny : Option (List String) := none
  extra : Fields Value := []
deriving DecidableEq

structure SkillRules where
  allow : Option (List String) := none
  deny : Option (List String) := none
  allowSources : Option (List String) := none
  denySources : Option (List String) := none
  extra : Fields Value := []
deriving DecidableEq

structure ModelRules where
  allowProviders : Option (List String) := none
  denyProviders : Option (List String) := none
  allowModels : Option (List String) := none
  denyModels : Option (List String) := none
  extra : Fields Value := []
deriving DecidableEq

structure Fragment where
  integrations : Option IntegrationRules := none
  skills : Option SkillRules := none
  models : Option ModelRules := none
  extra : Fields Value := []
deriving DecidableEq

def integrationKeys : List String := ["allow", "deny"]
def skillKeys : List String := ["allow", "deny", "allow_sources", "deny_sources"]
def modelKeys : List String := ["allow_providers", "deny_providers", "allow_models", "deny_models"]
def groupKeys : List String := ["integrations", "skills", "models"]

def itemFault? : Value → Option Mismatch
  | .string _ => none
  | v => some ⟨v, .string⟩

def listFault? : Value → Option Mismatch
  | .null => none
  | .list items => items.findSome? itemFault?
  | v => some ⟨v, .sequence⟩

def groupFault? (known : List String) (expected : Expectation) : Value → Option Mismatch
  | .null => none
  | .mapping ms => ms.findSome? fun (k, v) => if known.contains k then listFault? v else none
  | v => some ⟨v, expected⟩

def memberFault? : String × Value → Option Mismatch
  | ("integrations", v) => groupFault? integrationKeys .integrationRules v
  | ("skills", v) => groupFault? skillKeys .skillRules v
  | ("models", v) => groupFault? modelKeys .modelRules v
  | _ => none

def text? : Value → Option String
  | .string s => some s
  | _ => none

/-- The texts of a list; anything else declares no list. -/
def texts? (fs : Fields Value) (k : String) : Option (List String) :=
  match Fields.get? fs k with
  | some (.list items) => some (items.filterMap text?)
  | _ => none

def IntegrationRules.ofFields (fs : Fields Value) : IntegrationRules where
  allow := texts? fs "allow"
  deny := texts? fs "deny"
  extra := Fields.without fs integrationKeys

def SkillRules.ofFields (fs : Fields Value) : SkillRules where
  allow := texts? fs "allow"
  deny := texts? fs "deny"
  allowSources := texts? fs "allow_sources"
  denySources := texts? fs "deny_sources"
  extra := Fields.without fs skillKeys

def ModelRules.ofFields (fs : Fields Value) : ModelRules where
  allowProviders := texts? fs "allow_providers"
  denyProviders := texts? fs "deny_providers"
  allowModels := texts? fs "allow_models"
  denyModels := texts? fs "deny_models"
  extra := Fields.without fs modelKeys

/-- The members of a group; a group that is absent or null is not declared. -/
def group? (fs : Fields Value) (k : String) : Option (Fields Value) :=
  match Fields.get? fs k with
  | some (.mapping ms) => some ms
  | _ => none

def Fragment.ofFields? (fs : Fields Value) : Except Mismatch Fragment :=
  match fs.findSome? memberFault? with
  | some m => .error m
  | none => .ok {
      integrations := (group? fs "integrations").map .ofFields
      skills := (group? fs "skills").map .ofFields
      models := (group? fs "models").map .ofFields
      extra := Fields.without fs groupKeys }

def Fragment.ofValue? : Value → Except Mismatch Fragment
  | .mapping fs => Fragment.ofFields? fs
  | v => .error ⟨v, .fragment⟩

def optional (k : String) (v : Option Value) : Fields Value :=
  match v with
  | some v => [(k, v)]
  | none => []

def IntegrationRules.toFields (r : IntegrationRules) : Fields Value :=
  optional "allow" (r.allow.map .ofStrings) ++ optional "deny" (r.deny.map .ofStrings) ++ r.extra

def SkillRules.toFields (r : SkillRules) : Fields Value :=
  optional "allow" (r.allow.map .ofStrings) ++ optional "deny" (r.deny.map .ofStrings) ++
    optional "allow_sources" (r.allowSources.map .ofStrings) ++
    optional "deny_sources" (r.denySources.map .ofStrings) ++ r.extra

def ModelRules.toFields (r : ModelRules) : Fields Value :=
  optional "allow_providers" (r.allowProviders.map .ofStrings) ++
    optional "deny_providers" (r.denyProviders.map .ofStrings) ++
    optional "allow_models" (r.allowModels.map .ofStrings) ++
    optional "deny_models" (r.denyModels.map .ofStrings) ++ r.extra

def Fragment.toFields (f : Fragment) : Fields Value :=
  optional "integrations" (f.integrations.map fun r => .mapping r.toFields) ++
    optional "skills" (f.skills.map fun r => .mapping r.toFields) ++
    optional "models" (f.models.map fun r => .mapping r.toFields) ++ f.extra

def Fragment.toValue (f : Fragment) : Value := .mapping f.toFields

end GatewayFleet.Policy
