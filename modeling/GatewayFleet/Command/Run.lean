import GatewayFleet.Command.Invocation
import GatewayFleet.Fleet.Discovery
import GatewayFleet.Fleet.Storage
import GatewayFleet.Gateway.Artifact
import GatewayFleet.Policy.Catalogue

/-! Carrying out commands. Every command works on one inventory and answers with a value. A command
that changes the inventory writes it only when the changed fleet is accepted and complies; a
command that renders writes only when the configuration is complete. -/

namespace GatewayFleet

open Fleet (Inventory Instance AgentSpec)
open Audit (Stamp Deed)

structure Surroundings where
  environment : Gateway.Environment
  cwd : Path
  stamp : Stamp

namespace Command

def runValidate (p : Path) : Disk Value := do
  let inv ← Disk.ask (Fleet.loadCompliant · p)
  pure (.mapping [("inventory", .string p.toString), ("instances", .ofNat inv.instances.length),
    ("status", .string "ok")])

def runPolicyCheck (p : Path) : Disk Value := do
  let _ ← Disk.ask (Fleet.loadCompliant · p)
  pure (.mapping [("status", .string "ok")])

/-- An agent that breaks its policy can still be looked at. -/
def effectivePolicy (t : Tree) (p : Path) (instanceId : String) (agentId : Option String) :
    Except Failure Value := do
  let inv ← Fleet.load t p
  let i ← inv.instance? instanceId
  let agent ← agentId.mapM i.agent?
  let summary ← (inv.policySummary? i agent).mapError .unusablePolicy
  pure summary.toValue

/-- The inventory in a file with one instance changed, if the result is accepted and complies. -/
def changed (t : Tree) (p : Path) (instanceId : String)
    (change : Instance → Except Failure Instance) : Except Failure Inventory := do
  let inv ← Fleet.load t p
  let i ← inv.instance? instanceId
  let again ← Fleet.accept t p.directory (inv.setInstance instanceId (← change i)).toValue
  again.comply
  pure again

def mutate (p : Path) (instanceId : String) (change : Instance → Except Failure Instance) :
    Disk Unit := do
  Fleet.save p (← Disk.ask (changed · p instanceId change))

def mutation (status instanceId agentId : String) (p : Path) : Value :=
  .mapping [("status", .string status), ("instance", .string instanceId),
    ("agent", .string agentId), ("inventory", .string p.toString)]

def runChange (p : Path) (instanceId : String) (change : Instance → Except Failure Instance)
    (event : Audit.Event) (answer : Value) : Disk Value := do
  mutate p instanceId change
  Audit.record p.directory event
  pure answer

def runAgentAdd (stamp : Stamp) (p : Path) (instanceId : String) (spec : AgentSpec) :
    Disk Value :=
  runChange p instanceId (·.addAgent spec)
    (stamp.event .agentAdd instanceId
      [("agent", .string spec.id), ("role", .string spec.role.name)])
    (mutation "added" instanceId spec.id p)

def runAgentRemove (stamp : Stamp) (p : Path) (instanceId agentId : String) (prune : Bool) :
    Disk Value :=
  runChange p instanceId (fun i => (i.removeAgent agentId prune).map (·.2))
    (stamp.event .agentRemove instanceId
      [("agent", .string agentId), ("pruned_accounts", .bool prune)])
    (mutation "removed" instanceId agentId p)

def agentListing (t : Tree) (p : Path) (instanceId : String) : Except Failure Value := do
  let inv ← Fleet.load t p
  let i ← inv.instance? instanceId
  pure (.mapping [("instance", .string instanceId), ("agents", i.listing)])

structure Rendering where
  fleet : Inventory
  target : Instance
  config : Value

def rendering (t : Tree) (env : Gateway.Environment) (p : Path) (instanceId : String) :
    Except Failure Rendering := do
  let inv ← Fleet.loadCompliant t p
  let i ← inv.instance? instanceId
  pure ⟨inv, i, ← Gateway.resolve t env i p⟩

def Rendering.policies (r : Rendering) : Except Failure (List Policy.Summary) :=
  (r.fleet.policySummaries? r.target).mapError .unusablePolicy

def Rendering.counts (r : Rendering) : Gateway.Counts := .of r.config

def Rendering.placement (r : Rendering) (p : Path) : Gateway.Placement := .of r.target p

def Rendering.answer (r : Rendering) (p : Path) (instanceId : String) (dryRun : Bool) : Value :=
  let placement := r.placement p
  .mapping ([("instance", .string instanceId), ("dry_run", .bool dryRun),
    ("generated_path", .string placement.resolvedConfig.toString)] ++
    (if dryRun then []
      else [("runtime_config_path", .string placement.mountedConfig.toString)]) ++
    [("summary", .mapping r.counts.toFields)])

/-- Writes what a render leaves behind, and records it. The policies are layered when the other
files are there already. -/
def Rendering.write (r : Rendering) (stamp : Stamp) (p : Path) (instanceId : String) :
    Disk Unit := do
  let placement := r.placement p
  Gateway.makeDirectories placement
  Gateway.writeConfiguration placement r.config
  Gateway.writeSummary placement stamp.time r.counts
  Gateway.writePolicies placement (← Disk.ask fun _ => r.policies)
  Audit.record p.directory (stamp.event .render instanceId
    [("generated_path", .string placement.resolvedConfig.toString),
      ("agents", .ofNat r.counts.agents), ("bindings", .ofNat r.counts.bindings)])

def runRender (s : Surroundings) (p : Path) (instanceId : String) (dryRun : Bool) :
    Disk Value := do
  let r ← Disk.ask (rendering · s.environment p instanceId)
  if !dryRun then r.write s.stamp p instanceId
  pure (r.answer p instanceId dryRun)

def run (s : Surroundings) (p : Path) : Command → Disk Value
  | .validate => runValidate p
  | .render instanceId dryRun => runRender s p instanceId dryRun
  | .policyCheck => runPolicyCheck p
  | .policyEffective instanceId agentId => Disk.ask (effectivePolicy · p instanceId agentId)
  | .policyIntegrations => pure Policy.catalogue.toValue
  | .agentAdd instanceId spec => runAgentAdd s.stamp p instanceId spec
  | .agentRemove instanceId agentId prune => runAgentRemove s.stamp p instanceId agentId prune
  | .agentList instanceId => Disk.ask (agentListing · p instanceId)

end Command

def Invocation.target (i : Invocation) (s : Surroundings) (t : Tree) : Path :=
  (Fleet.discover t i.inventory (s.environment Fleet.inventoryVariable) s.cwd).toPath

def Invocation.run (i : Invocation) (s : Surroundings) : Disk String := do
  pure (Json.pretty (← i.command.run s (i.target s (← get))))

end GatewayFleet
