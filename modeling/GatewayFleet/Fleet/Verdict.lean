import GatewayFleet.Failure
import GatewayFleet.Fleet.Admission

/-! The two judgements on a fleet: whether a document is admitted as an inventory, and whether
every agent of an inventory keeps to its policy. -/

namespace GatewayFleet.Fleet

def accept (t : Tree) (dir : Path) (v : Value) : Except Failure Inventory :=
  (Inventory.ofValue? t dir v).mapError .rejected

def Inventory.comply (inv : Inventory) : Except Failure Unit :=
  match inv.violations? with
  | .error mismatch => .error (.unusablePolicy mismatch)
  | .ok [] => .ok ()
  | .ok violations => .error (.violated violations)

end GatewayFleet.Fleet
