import GatewayFleet.Fleet.Model
import GatewayFleet.Text.Blank
import GatewayFleet.Value.Merge

/-! The policy in force at a scope. The declarations from the defaults down to the scope are laid
over each other as values, so that their lists are joined in that order, and every list is then
reduced to its distinct entries. Skill sources are the only subject with a default. -/

namespace GatewayFleet

open Policy (Fragment Mismatch)

namespace Policy

structure Rule where
  allow : List String := []
  deny : List String := []
deriving DecidableEq

end Policy

structure Policy where
  integrations : Policy.Rule := {}
  skills : Policy.Rule := {}
  skillSources : Policy.Rule := {}
  providers : Policy.Rule := {}
  models : Policy.Rule := {}
deriving DecidableEq

namespace Policy

def builtinSources : List String := ["bundled", "managed", "workspace", "local", "shared"]

def distinctOrNone (xs : Option (List String)) : List String := Text.distinct (xs.getD [])

/-- The rules that one declaration makes. An empty list of sources that is written down counts. -/
def ofFragment (f : Fragment) : Policy :=
  let integrations := f.integrations.getD {}
  let skills := f.skills.getD {}
  let models := f.models.getD {}
  { integrations := ⟨distinctOrNone integrations.allow, distinctOrNone integrations.deny⟩
    skills := ⟨distinctOrNone skills.allow, distinctOrNone skills.deny⟩
    skillSources := ⟨(skills.allowSources.map Text.distinct).getD builtinSources,
      distinctOrNone skills.denySources⟩
    providers := ⟨distinctOrNone models.allowProviders, distinctOrNone models.denyProviders⟩
    models := ⟨distinctOrNone models.allowModels, distinctOrNone models.denyModels⟩ }

def ofFragments? (fs : List Fragment) : Except Mismatch Policy :=
  (Fragment.ofValue? (Value.mergeAll (fs.map Fragment.toValue))).map ofFragment

def Rule.toFields (allow deny : String) (r : Rule) : Fields Value :=
  [(allow, .ofStrings r.allow), (deny, .ofStrings r.deny)]

def toValue (p : Policy) : Value :=
  .mapping [
    ("integrations", .mapping (p.integrations.toFields "allow" "deny")),
    ("skills", .mapping (p.skills.toFields "allow" "deny" ++
      p.skillSources.toFields "allow_sources" "deny_sources")),
    ("models", .mapping (p.providers.toFields "allow_providers" "deny_providers" ++
      p.models.toFields "allow_models" "deny_models"))]

structure Summary where
  scope : String
  policy : Policy
deriving DecidableEq

def Summary.toValue (s : Summary) : Value :=
  .mapping [("scope", .string s.scope), ("policy", s.policy.toValue)]

end Policy

namespace Fleet

/-- The declarations that reach an instance, or one agent of it, from the widest scope down. -/
def Inventory.declarations (inv : Inventory) (i : Instance) (agent : Option Agent) :
    List Fragment :=
  [inv.defaults.policy, inv.policy, i.policy, agent.bind (·.policy)].filterMap id

def Inventory.policy? (inv : Inventory) (i : Instance) (agent : Option Agent) :
    Except Mismatch Policy :=
  Policy.ofFragments? (inv.declarations i agent)

def Instance.scope (i : Instance) : Option Agent → String
  | none => "instance:" ++ i.id
  | some a => "agent:" ++ i.id ++ "/" ++ a.id

def Inventory.policySummary? (inv : Inventory) (i : Instance) (agent : Option Agent) :
    Except Mismatch Policy.Summary := do
  pure ⟨i.scope agent, ← inv.policy? i agent⟩

def Inventory.policySummaries? (inv : Inventory) (i : Instance) :
    Except Mismatch (List Policy.Summary) :=
  (none :: i.agents.map some).mapM (inv.policySummary? i)

end Fleet

end GatewayFleet
