import GatewayFleet.Disk
import GatewayFleet.Fleet.Document
import GatewayFleet.Fleet.Verdict
import GatewayFleet.Yaml.Printer
import GatewayFleet.Yaml.Reader

/-! The inventory on disk, as one YAML document. -/

namespace GatewayFleet.Fleet

/-- The open value of a document. Nothing at all, and null, stand for the empty mapping. -/
def document? (text : String) : Option Value :=
  if Text.isAllBlank text then some Value.empty
  else match Yaml.read text with
    | some .null => some Value.empty
    | found => found

def readDocument (t : Tree) (p : Path) : Except Failure Value := do
  if !t.isFileAt p then throw (.missing .inventory p)
  let text ← (t.readText p).mapError (.refused .readInventory p)
  match document? text with
  | some v => pure v
  | none => throw (.brokenInventory p text)

def load (t : Tree) (p : Path) : Except Failure Inventory := do
  accept t (p.directory) (← readDocument t p)

def loadCompliant (t : Tree) (p : Path) : Except Failure Inventory := do
  let inv ← load t p
  inv.comply
  pure inv

def save (p : Path) (inv : Inventory) : Disk Unit := Disk.replaceText p (Yaml.write inv.toValue)

end GatewayFleet.Fleet
