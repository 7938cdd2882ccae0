import GatewayFleet.Command.Run

/-! What a run depends on. A machine holds too many files for a tree, and its variables cannot be
listed, so both are learned by asking for single ones. The functions below name those that count
for a run, as far as what was learned tells. They name more as more is learned; once they name
nothing new the run needs no more. -/

namespace GatewayFleet

def Location.route (l : Location) : List Location :=
  (List.range l.names.length).map fun n => ⟨l.absolute, l.names.take (n + 1)⟩

namespace Command

def replaceable (p : Path) : List Location :=
  p.locate :: (p.fileName?.map fun name => (Disk.temporaryFor p name).locate).toList

def unknownLayers (t : Tree) (p : Path) : List Location :=
  match Fleet.readDocument t p with
  | .error _ => []
  | .ok v =>
    (Fleet.Inventory.read t p.directory v).issues.filterMap fun
      | .missingLayer _ layer => some (p.directory.resolve (.ofString layer))
      | _ => none

def included (t : Tree) : List Location :=
  t.entries.flatMap fun m =>
    match Layer.readAt t m.1 with
    | .ok (some layer) => Layer.targets m.1 layer
    | _ => []

def rendered? (t : Tree) (p : Path) : Command → Option Fleet.Instance
  | .render instanceId _ => (Fleet.load t p >>= (·.instance? instanceId)).toOption
  | _ => none

/-- What a command reads besides the inventory and its layers, and what it writes. -/
def reach (c : Command) (t : Tree) (p : Path) : List Location :=
  match c.rendered? t p with
  | none => []
  | some i =>
    let placement : Gateway.Placement := .of i p
    included t ++ placement.directories ++ placement.artifacts.flatMap fun l =>
      replaceable l.toPath

def mentions (c : Command) (t : Tree) (p : Path) : List String :=
  match c.rendered? t p with
  | none => []
  | some i =>
    match Gateway.assemble t i p with
    | .error _ => []
    | .ok config => Gateway.mentioned config

end Command

def Invocation.reach (i : Invocation) (s : Surroundings) (t : Tree) : List Location :=
  let p := i.target s t
  let named := [s.cwd.join Fleet.localInventory, Audit.logFor p.directory].map Path.locate ++
    Command.replaceable p ++ Command.unknownLayers t p ++ i.command.reach t p
  named.flatMap Location.route

def Invocation.mentions (i : Invocation) (s : Surroundings) (t : Tree) : List String :=
  Fleet.inventoryVariable :: i.command.mentions t (i.target s t)

end GatewayFleet
