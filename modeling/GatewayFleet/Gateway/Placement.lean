import GatewayFleet.Fleet.Model
import GatewayFleet.Text.Blank

/-! Where an instance lives: its directories and files, seen from the directory of the inventory,
and the address its gateway listens on. -/

namespace GatewayFleet.Gateway

open Fleet (Instance PathRole)

/-- The address behind a word for it; nothing at all means the machine itself. -/
def normalizeBind (bind : Option String) : String :=
  match Text.trim (bind.getD "") with
  | "" | "loopback" | "localhost" => "127.0.0.1"
  | "all" => "0.0.0.0"
  | address => address

structure Placement where
  id : String
  inventory : Path
  configDir : Location
  stateDir : Location
  workspaceRoot : Location
  generatedDir : Location
  port : Nat
  bind : String
deriving DecidableEq

namespace Placement

def of (i : Instance) (inventory : Path) : Placement :=
  let locate := i.paths.locate inventory.directory
  { id := i.id
    inventory := inventory
    configDir := locate .configDir
    stateDir := locate .stateDir
    workspaceRoot := locate .workspaceRoot
    generatedDir := locate .generatedDir
    port := i.host.gatewayPort
    bind := normalizeBind i.host.bind }

def dir (p : Placement) : Path := p.inventory.directory

def resolvedConfig (p : Placement) : Location := p.generatedDir.child "gateway.resolved.json"

def mountedConfig (p : Placement) : Location := p.configDir.child "gateway.json"

def renderSummary (p : Placement) : Location := p.generatedDir.child "render-summary.json"

def effectivePolicy (p : Placement) : Location := p.generatedDir.child "effective-policy.json"

/-- The directories an instance needs, in the order in which they are created. -/
def directories (p : Placement) : List Location :=
  [p.generatedDir, p.configDir, p.stateDir, p.workspaceRoot]

def artifacts (p : Placement) : List Location :=
  [p.resolvedConfig, p.mountedConfig, p.renderSummary, p.effectivePolicy]

def runtimeBind (p : Placement) : String := if p.bind = "0.0.0.0" then "all" else "loopback"

end Placement

def layerLocations (i : Instance) (inventory : Path) : List Location :=
  i.runtime.configLayers.map fun layer => inventory.directory.resolve (.ofString layer)

end GatewayFleet.Gateway
