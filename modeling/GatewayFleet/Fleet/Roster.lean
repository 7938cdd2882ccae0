import GatewayFleet.Failure
import GatewayFleet.Fleet.Account
import GatewayFleet.Fleet.Document

/-! The agents of an instance: adding one, removing one, and listing them. A change that fails
leaves the instance as it is. -/

namespace GatewayFleet.Fleet

structure Account where
  channel : String
  account : String
deriving DecidableEq

/-- Reads `channel:account`, where blank characters around either part do not count. -/
def Account.parse (text : String) : Except Failure Account :=
  match Text.splitFirst? ':' text with
  | none => .error (.malformedAccount text)
  | some (channel, account) =>
    let found : Account := ⟨Text.trim channel, Text.trim account⟩
    if found.channel = "" ∨ found.account = "" then .error (.malformedAccount text)
    else .ok found

structure AgentSpec where
  id : String
  role : Role
  accounts : List String
  integrations : List String
  skills : List String
  model : Option String
deriving DecidableEq

/-- The integrations asked for, and the channels of the accounts that are not among them. -/
def withChannels (integrations : List String) (accounts : List Account) : List String :=
  accounts.foldl (fun names a => if a.channel ∈ names then names else names ++ [a.channel])
    (Text.distinct integrations)

def modelOf (model : Option String) : Option String :=
  match model.map Text.trim with
  | none | some "" => none
  | some name => some name

def AgentSpec.agent (spec : AgentSpec) (id : String) (accounts : List Account) : Agent where
  id := id
  role := spec.role
  workspace := some id
  agentDir := some ("agents/" ++ id)
  bindings := accounts.map fun a => Binding.of a.channel a.account
  integrations := withChannels spec.integrations accounts
  skills := Text.distinct spec.skills
  skillSources := some defaultSkillSources
  model := modelOf spec.model

def Instance.addAgent (i : Instance) (spec : AgentSpec) : Except Failure Instance := do
  let id := Text.trim spec.id
  if id = "" then throw .blankAgentId
  if (i.find? id).isSome then throw (.agentTaken i.id id)
  let accounts ← spec.accounts.mapM Account.parse
  let i := accounts.foldl (fun i a => i.register a.channel a.account) i
  pure { i with agents := i.agents ++ [spec.agent id accounts] }

def Instance.removeAgent (i : Instance) (id : String) (prune : Bool) :
    Except Failure (Agent × Instance) :=
  match i.find? id with
  | none => .error (.unknownAgent i.id id)
  | some a =>
    let left := { i with agents := i.agents.eraseP (·.id = id) }
    .ok (a, if prune then left.prune else left)

def Agent.summary (a : Agent) : Value :=
  .mapping ([("id", .string a.id), ("role", .string a.role.name)] ++
    Policy.optional "model" (a.model.map .string) ++
    [("integrations", .ofStrings a.integrations), ("skills", .ofStrings a.skills),
      ("bindings", .ofNat a.bindings.length)])

def Instance.listing (i : Instance) : Value := .list (i.agents.map Agent.summary)

def Inventory.instance? (inv : Inventory) (id : String) : Except Failure Instance :=
  match inv.find? id with
  | some i => .ok i
  | none => .error (.unknownInstance id)

def Instance.agent? (i : Instance) (id : String) : Except Failure Agent :=
  match i.find? id with
  | some a => .ok a
  | none => .error (.unknownAgent i.id id)

end GatewayFleet.Fleet
