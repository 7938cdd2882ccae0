import GatewayFleet.Gateway.Overlay
import GatewayFleet.Gateway.Placeholder
import GatewayFleet.Layer.Include

/-! The configuration of an instance: its layers, the overlay on top of them, and every
placeholder replaced. -/

namespace GatewayFleet.Gateway

open Fleet (Instance)

/-- The configuration of an instance of the inventory in that file, with its placeholders. -/
def assemble (t : Tree) (i : Instance) (inventory : Path) : Except Failure Value := do
  let layers ← Layer.loadAll t (layerLocations i inventory)
  pure (layers.merge (overlay i (.of i inventory)))

def resolve (t : Tree) (env : Environment) (i : Instance) (inventory : Path) :
    Except Failure Value := do
  expand env (← assemble t i inventory)

structure Counts where
  agents : Nat
  bindings : Nat
  channels : Nat
deriving DecidableEq

def listLength : Option Value → Nat
  | some (.list items) => items.length
  | _ => 0

def mappingLength : Option Value → Nat
  | some (.mapping fields) => fields.length
  | _ => 0

def Counts.of (config : Value) : Counts where
  agents := listLength ((config.member? "agents").bind (·.member? "list"))
  bindings := listLength (config.member? "bindings")
  channels := mappingLength (config.member? "channels")

def Counts.toFields (c : Counts) : Fields Value :=
  [("agents", .ofNat c.agents), ("bindings", .ofNat c.bindings), ("channels", .ofNat c.channels)]

end GatewayFleet.Gateway
