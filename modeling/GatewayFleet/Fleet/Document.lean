import GatewayFleet.Fleet.Model

/-! The typed inventory written back as an open value. Known members come first, in a fixed order;
absent members and empty collections of the optional kind are left out; members that were not
interpreted follow in document order. -/

namespace GatewayFleet.Fleet

open Policy (optional)

def listUnlessEmpty (k : String) (xs : List String) : Fields Value :=
  if xs.isEmpty then [] else [(k, .ofStrings xs)]

def mappingUnlessEmpty (k : String) (fs : Fields Value) : Fields Value :=
  if fs.isEmpty then [] else [(k, .mapping fs)]

def Defaults.toFields (d : Defaults) : Fields Value :=
  optional "port_stride" (d.portStride.map .ofNat) ++
    optional "policy" (d.policy.map (·.toValue)) ++ d.extra

def Host.toFields (h : Host) : Fields Value :=
  ("gateway_port", .ofNat h.gatewayPort) :: optional "bind" (h.bind.map .string) ++ h.extra

def RolePaths.toFields (p : RolePaths) : Fields Value :=
  PathRole.all.map (fun r => (r.key, .string (p.get r))) ++ p.extra

def RuntimeBlock.toFields (r : RuntimeBlock) : Fields Value :=
  ("config_layers", .ofStrings r.configLayers) :: r.extra

def Match.toFields (m : Match) : Fields Value :=
  [("channel", .string m.channel), ("accountId", .string m.accountId)] ++ m.extra

def Binding.toFields (b : Binding) : Fields Value :=
  ("match", .mapping b.route.toFields) :: b.extra

def Agent.toFields (a : Agent) : Fields Value :=
  [("id", .string a.id), ("role", .string a.role.name)] ++
    optional "workspace" (a.workspace.map .string) ++
    optional "agent_dir" (a.agentDir.map .string) ++
    [("bindings", .list (a.bindings.map fun b => .mapping b.toFields))] ++
    listUnlessEmpty "integrations" a.integrations ++
    listUnlessEmpty "skills" a.skills ++
    optional "skill_sources" (a.skillSources.map .ofStrings) ++
    optional "model" (a.model.map .string) ++
    optional "policy" (a.policy.map (·.toValue)) ++ a.extra

def Agent.toValue (a : Agent) : Value := .mapping a.toFields

def Channel.toFields (c : Channel) : Fields Value :=
  mappingUnlessEmpty "accounts" c.accounts ++ c.extra

def channelsToFields (cs : Fields Channel) : Fields Value :=
  cs.map fun (name, c) => (name, .mapping c.toFields)

def Instance.toFields (i : Instance) : Fields Value :=
  [("id", .string i.id), ("host", .mapping i.host.toFields), ("paths", .mapping i.paths.toFields),
    ("runtime", .mapping i.runtime.toFields),
    ("agents", .list (i.agents.map Agent.toValue))] ++
    mappingUnlessEmpty "channels" (channelsToFields i.channels) ++
    optional "policy" (i.policy.map (·.toValue)) ++ i.extra

def Instance.toValue (i : Instance) : Value := .mapping i.toFields

def Inventory.toFields (inv : Inventory) : Fields Value :=
  ("version", .ofNat inv.version) :: mappingUnlessEmpty "defaults" inv.defaults.toFields ++
    optional "policy" (inv.policy.map (·.toValue)) ++
    [("instances", .list (inv.instances.map Instance.toValue))] ++ inv.extra

def Inventory.toValue (inv : Inventory) : Value := .mapping inv.toFields

end GatewayFleet.Fleet
