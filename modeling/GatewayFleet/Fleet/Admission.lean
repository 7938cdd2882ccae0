import GatewayFleet.Fleet.Record
import GatewayFleet.Tree

/-! An open value is admitted as an inventory when one pass over it finds nothing wrong. Besides
the shape of every record the pass checks what instances must not share: identifiers, ports, and
the location of each path role; and what agents of one instance must not share: identifiers,
workspaces, agent directories and bindings. Every config layer has to be a file. -/

namespace GatewayFleet.Fleet

structure PathClaim where
  role : PathRole
  location : Location
  owner : String
deriving DecidableEq

structure Claims where
  ids : List String := []
  ports : List PortRange := []
  paths : List PathClaim := []

/-- The ports from the gateway port on, at most up to the last port there is. -/
def PortRange.of (id : String) (port stride : Nat) : PortRange :=
  ⟨id, port, min (port + stride - 1) maxPort⟩

def PortRange.Meets (a b : PortRange) : Prop := a.first ≤ b.last ∧ b.first ≤ a.last

instance (a b : PortRange) : Decidable (a.Meets b) := inferInstanceAs (Decidable (_ ∧ _))

/-- Claims a port range: one issue for every earlier range it meets. -/
def claimPorts (taken : List PortRange) (range : PortRange) : Checked (List PortRange) :=
  ⟨(taken.filter fun earlier => range.Meets earlier).map (.portOverlap range ·), taken ++ [range]⟩

def PathClaim.find? (taken : List PathClaim) (role : PathRole) (l : Location) :
    Option PathClaim :=
  taken.find? fun c => c.role = role ∧ c.location = l

def claimPath (dir : Path) (id : String) (raw : Fields Value) (taken : List PathClaim)
    (role : PathRole) : Checked (List PathClaim) :=
  match Section.filled? (Fields.get? raw role.key) with
  | none => pure taken
  | some text =>
    let location := dir.resolve (.ofString text)
    match PathClaim.find? taken role location with
    | some earlier => ⟨[.sharedPath role id text earlier.owner], taken⟩
    | none => pure (taken ++ [⟨role, location, id⟩])

def claimPaths (dir : Path) (id : String) (raw : Fields Value) (taken : List PathClaim) :
    Checked (List PathClaim) :=
  PathRole.all.foldlM (claimPath dir id raw) taken

structure Seats where
  ids : List String := []
  workspaces : List String := []
  agentDirs : List String := []
  bindings : List String := []

def claimName (issue : String → Issue) (taken : List String) (name : String) :
    Checked (List String) :=
  if name ∈ taken then ⟨[issue name], taken⟩ else pure (taken ++ [name])

def Seats.claim (seats : Seats) (a : Agent) : Checked Seats := do
  let workspaces ← claimName .duplicateWorkspace seats.workspaces a.workspaceName
  let agentDirs ← claimName .duplicateAgentDir seats.agentDirs a.agentDirName
  let bindings ← (a.bindings.map Binding.key).foldlM (claimName .duplicateBinding) seats.bindings
  pure ⟨seats.ids ++ [a.id], workspaces, agentDirs, bindings⟩

/-- The agents from index `i` on. One that repeats an identifier is left out. -/
def Agent.readAll (place : Place) : Nat → Seats → List Value → Checked (List Agent)
  | _, _, [] => pure []
  | i, seats, .mapping fs :: rest => do
    match ← Agent.read ⟨fs, place ++ [.index i]⟩ with
    | none => Agent.readAll place (i + 1) seats rest
    | some a =>
      if a.id ∈ seats.ids then
        Checked.report (.duplicateAgent a.id)
        Agent.readAll place (i + 1) seats rest
      else
        let seats ← seats.claim a
        pure (a :: (← Agent.readAll place (i + 1) seats rest))
  | i, seats, _ :: rest => do
    Checked.report (.shape (place ++ [.index i]) .notMapping)
    Agent.readAll place (i + 1) seats rest

def readAgents (s : Section) : Checked (List Agent) :=
  match s.get? "agents" with
  | none | some .null => pure []
  | some (.list items) => Agent.readAll (s.at_ "agents") 0 {} items
  | some _ => Checked.faulty (s.at_ "agents") .notList []

def instanceKeys : List String :=
  ["id", "host", "paths", "runtime", "openclaw", "agents", "channels", "policy"]

def missingLayers (tree : Tree) (dir : Path) (id : String) (layers : List String) : List Issue :=
  (layers.filter fun layer => !tree.isFile (dir.resolve (.ofString layer))).map (.missingLayer id)

def Instance.read (tree : Tree) (dir : Path) (stride : Nat) (id : String) (s : Section)
    (claims : Claims) : Checked (Option Instance × Claims) := do
  let host ← match ← s.mapping "host" with
    | none => pure none
    | some fs => Host.read ⟨fs, s.at_ "host"⟩
  let ports ← match host with
    | none => pure claims.ports
    | some h => claimPorts claims.ports (.of id h.gatewayPort stride)
  let raw ← s.mapping "paths"
  let pathClaims ← match raw with
    | none => pure claims.paths
    | some fs => claimPaths dir id fs claims.paths
  let paths ← match raw with
    | none => pure none
    | some fs => RolePaths.read ⟨fs, s.at_ "paths"⟩
  let runtime ← RuntimeBlock.read s
  let layers := (runtime.map (·.configLayers)).getD []
  (⟨missingLayers tree dir id layers, ()⟩ : Checked Unit)
  let agents ← readAgents s
  let channels ← readChannels s
  let policy ← s.policy "policy"
  let claims : Claims := { claims with ports := ports, paths := pathClaims }
  pure (match host, paths, runtime with
    | some host, some paths, some runtime =>
      (some ⟨id, host, paths, runtime, agents, channels, policy, s.without instanceKeys⟩, claims)
    | _, _, _ => (none, claims))

def Instance.readAll (tree : Tree) (dir : Path) (stride : Nat) :
    Nat → Claims → List Value → Checked (List Instance)
  | _, _, [] => pure []
  | i, claims, .mapping fs :: rest => do
    let s : Section := ⟨fs, [.key "instances", .index i]⟩
    match Section.filled? (s.get? "id") with
    | none =>
      Checked.report (.shape (s.at_ "id") .notFilledString)
      Instance.readAll tree dir stride (i + 1) claims rest
    | some id =>
      if id ∈ claims.ids then
        Checked.report (.duplicateInstance id)
        Instance.readAll tree dir stride (i + 1) claims rest
      else
        let (found, claims) ←
          Instance.read tree dir stride id s { claims with ids := claims.ids ++ [id] }
        let others ← Instance.readAll tree dir stride (i + 1) claims rest
        pure (found.toList ++ others)
  | i, claims, _ :: rest => do
    Checked.report (.shape [.key "instances", .index i] .notMapping)
    Instance.readAll tree dir stride (i + 1) claims rest

def rootKeys : List String := ["version", "defaults", "policy", "instances"]

def Inventory.read (tree : Tree) (dir : Path) : Value → Checked (Option Inventory)
  | .mapping fs => do
    let root : Section := ⟨fs, []⟩
    let version := (root.get? "version").bind Value.asUnsigned?
    if version ≠ some supportedVersion then
      Checked.report (.shape [.key "version"] .notSupportedVersion)
    match root.get? "instances" with
    | some (.list (item :: items)) =>
      let defaults ← Defaults.read (← root.optionalMapping "defaults")
      let policy ← root.policy "policy"
      let instances ← Instance.readAll tree dir defaults.stride 0 {} (item :: items)
      pure (some ⟨version.getD 0, defaults, policy, instances, root.without rootKeys⟩)
    | _ => Checked.faulty [.key "instances"] .notFilledList none
  | v => Checked.faulty [.key "inventory"] (.mappingExpected v.kind) none

def Inventory.ofValue? (tree : Tree) (dir : Path) (v : Value) : Except (List Issue) Inventory :=
  let result := Inventory.read tree dir v
  match result.value, result.issues with
  | some inv, [] => .ok inv
  | _, issues => .error issues

end GatewayFleet.Fleet
