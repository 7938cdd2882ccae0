import GatewayFleet.Fleet.Document
import GatewayFleet.Gateway.Placement

/-! The facts of the inventory in the shape of a gateway's configuration. They are laid over the
configuration layers of an instance. -/

namespace GatewayFleet.Gateway

open Fleet (Instance Agent Binding)
open Policy (optional)

def workspaceMount : String := "/var/lib/gateway/workspaces"

def stateMount : String := "/var/lib/gateway/state"

def agentFields (a : Agent) : Fields Value :=
  [("id", .string a.id),
    ("workspace", .string (workspaceMount ++ "/" ++ a.workspaceName)),
    ("agentDir", .string (stateMount ++ "/" ++ a.agentDirName)),
    ("role", .string a.role.name)] ++ optional "model" (a.model.map .string)

def agentValue (a : Agent) : Value := .mapping (agentFields a)

/-- A binding with the identifier of its agent, whatever it says about that itself. -/
def bindingValue (a : Agent) (b : Binding) : Value :=
  .mapping (Fields.put b.toFields "agentId" (.string a.id))

def primaryModel? (i : Instance) : Option String := i.agents.findSome? (·.model)

def agentsBlock (i : Instance) : Fields Value :=
  optional "defaults" ((primaryModel? i).map fun model =>
    .mapping [("model", .mapping [("primary", .string model)])]) ++
  [("list", .list (i.agents.map agentValue))]

def overlay (i : Instance) (p : Placement) : Value :=
  .mapping [
    ("gateway", .mapping [("port", .ofNat p.port), ("bind", .string p.runtimeBind)]),
    ("agents", .mapping (agentsBlock i)),
    ("bindings", .list (i.agents.flatMap fun a => a.bindings.map (bindingValue a))),
    ("channels", .mapping (Fleet.channelsToFields i.channels))]

end GatewayFleet.Gateway
