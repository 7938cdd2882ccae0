import GatewayFleet.Text.Blank
import GatewayFleet.Tree

/-! Where the inventory is. A path that is given counts first, then the variable, then the local
file below the working directory, and the shared file is what is left. -/

namespace GatewayFleet.Fleet

def inventoryVariable : String := "FLEETCONF_INVENTORY"

def localInventory : Path := .ofString "inventory/instances.local.yaml"

def sharedInventory : Path := .ofString "inventory/instances.yaml"

def pathOfVariable (named : Option String) : Option Path :=
  match named.map Text.trim with
  | none | some "" => none
  | some text => some (.ofString text)

def defaultInventory (t : Tree) (cwd : Path) : Path :=
  if t.isFileAt (cwd.join localInventory) then cwd.join localInventory
  else cwd.join sharedInventory

/-- The inventory to use. Whatever is chosen is seen from the working directory. -/
def discover (t : Tree) (explicit : Option Path) (named : Option String) (cwd : Path) :
    Location :=
  cwd.resolve ((explicit <|> pathOfVariable named).getD (defaultInventory t cwd))

end GatewayFleet.Fleet
