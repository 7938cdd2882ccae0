import GatewayFleet.Policy.Effective

/-! Whether agents keep to their policies. An agent uses items of five subjects. An item that is
denied offends whatever else is said about it; an item that is not denied offends when the subject
has a list of allowed items and the item is not on it. -/

namespace GatewayFleet

namespace Policy

/-- What an item is used as. A provider is the provider of some model. -/
inductive Subject
  | integration | skill | skillSource | provider (model : String) | model
deriving DecidableEq

inductive Verdict
  | denied | notAllowed
deriving DecidableEq

structure Offence where
  subject : Subject
  item : String
  verdict : Verdict
deriving DecidableEq

def rule (p : Policy) : Subject → Rule
  | .integration => p.integrations
  | .skill => p.skills
  | .skillSource => p.skillSources
  | .provider _ => p.providers
  | .model => p.models

def Rule.verdict? (r : Rule) (item : String) : Option Verdict :=
  if item ∈ r.deny then some .denied
  else if r.allow ≠ [] ∧ item ∉ r.allow then some .notAllowed
  else none

/-- The part of a model's name in front of the first slash, or all of it. -/
def provider (model : String) : String :=
  match Text.splitFirst? '/' model with
  | some (provider, _) => provider
  | none => model

def Verdict.text : Verdict → String
  | .denied => " is denied"
  | .notAllowed => " is not allowlisted"

def quoted (s : String) : String := "'" ++ s ++ "'"

def Offence.message (o : Offence) : String :=
  match o.subject, o.verdict with
  | .integration, v => "integration " ++ quoted o.item ++ v.text
  | .skill, v => "skill " ++ quoted o.item ++ v.text
  | .skillSource, v => "skill source " ++ quoted o.item ++ v.text
  | .provider model, .notAllowed =>
    "model provider " ++ quoted o.item ++ " for " ++ quoted model ++ Verdict.notAllowed.text
  | .provider _, .denied => "model provider " ++ quoted o.item ++ Verdict.denied.text
  | .model, v => "model " ++ quoted o.item ++ v.text

structure Violation where
  instanceId : String
  agentId : String
  offence : Offence
deriving DecidableEq

def Violation.text (v : Violation) : String :=
  v.instanceId ++ "/" ++ v.agentId ++ ": " ++ v.offence.message

def report (vs : List Violation) : String :=
  vs.foldl (fun s v => s ++ "\n- " ++ v.text) "Policy validation failed:"

end Policy

namespace Fleet

open Policy (Subject Offence Violation)

/-- The integrations an agent names, or the channels it is bound to when it names none. -/
def Agent.usedIntegrations (a : Agent) : List String :=
  match Text.distinct a.integrations with
  | [] => Text.distinct (a.bindings.map Binding.channel)
  | named => named

def Agent.usedModel? (a : Agent) : Option String :=
  match a.model.map Text.trim with
  | some "" | none => none
  | some model => some model

def Agent.usage (a : Agent) : List (Subject × String) :=
  a.usedIntegrations.map (.integration, ·) ++ (Text.distinct a.skills).map (.skill, ·) ++
    (Text.distinct a.sources).map (.skillSource, ·) ++
    (match a.usedModel? with
      | none => []
      | some m => [(.provider m, Policy.provider m), (.model, m)])

def offence? (p : Policy) (use : Subject × String) : Option Offence :=
  ((p.rule use.1).verdict? use.2).map fun v => ⟨use.1, use.2, v⟩

def Agent.offences (p : Policy) (a : Agent) : List Offence := a.usage.filterMap (offence? p)

def Agent.violations (p : Policy) (instanceId : String) (a : Agent) : List Violation :=
  (a.offences p).map fun o => ⟨instanceId, a.id, o⟩

def Inventory.seats (inv : Inventory) : List (Instance × Agent) :=
  inv.instances.flatMap fun i => i.agents.map (i, ·)

def Inventory.violations? (inv : Inventory) : Except Policy.Mismatch (List Violation) := do
  let found ← inv.seats.mapM fun (i, a) => do
    pure (a.violations (← inv.policy? i (some a)) i.id)
  pure found.flatten

end Fleet

end GatewayFleet
