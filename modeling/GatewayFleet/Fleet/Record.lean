import GatewayFleet.Fleet.Field

/-! The records of an inventory read one by one. A record whose necessary members are missing is
given up after everything about it has been reported. -/

namespace GatewayFleet.Fleet

/-- The widest stride that is kept; a wider one counts as this. -/
def strideLimit : Nat := 0xFFFFFFFF

def Defaults.read : Option (Fields Value) → Checked Defaults
  | none => pure {}
  | some fs => do
    let s : Section := ⟨fs, [.key "defaults"]⟩
    let stride ← match s.get? "port_stride" with
      | none | some .null => pure none
      | some v => match v.asUnsigned? with
        | some (n + 1) => pure (some (min (n + 1) strideLimit))
        | _ => Checked.faulty (s.at_ "port_stride") .notPositive none
    let policy ← s.policy "policy"
    pure ⟨stride, policy, s.without ["port_stride", "policy"]⟩

def maxPort : Nat := 65535

def port? (v : Option Value) : Option Nat :=
  match v.bind Value.asUnsigned? with
  | some p => if 1 ≤ p ∧ p ≤ maxPort then some p else none
  | none => none

def Host.read (s : Section) : Checked (Option Host) := do
  let port ← match port? (s.get? "gateway_port") with
    | some p => pure (some p)
    | none => Checked.faulty (s.at_ "gateway_port") .notPort none
  let bind ← s.optionalString "bind"
  pure (port.map fun p => ⟨p, bind, s.without ["gateway_port", "bind"]⟩)

def RolePaths.read (s : Section) : Checked (Option RolePaths) := do
  let config ← s.string PathRole.configDir.key
  let state ← s.string PathRole.stateDir.key
  let workspace ← s.string PathRole.workspaceRoot.key
  let generated ← s.string PathRole.generatedDir.key
  pure (match config, state, workspace, generated with
    | some c, some t, some w, some g => some ⟨c, t, w, g, s.without (PathRole.all.map (·.key))⟩
    | _, _, _, _ => none)

/-- The runtime block has an older name, which counts when the newer one is absent. -/
def runtimeKey (s : Section) : String :=
  if (s.get? "runtime").isNone && (s.get? "openclaw").isSome then "openclaw" else "runtime"

def RuntimeBlock.read (s : Section) : Checked (Option RuntimeBlock) := do
  let key := runtimeKey s
  match ← s.mapping key with
  | none => pure none
  | some fs =>
    let block : Section := ⟨fs, s.at_ key⟩
    match block.get? "config_layers" with
    | some (.list (item :: items)) =>
      let layers ← Section.texts (block.at_ "config_layers") (fun _ => .notString) 0 (item :: items)
      pure (some ⟨layers, block.without ["config_layers"]⟩)
    | _ => Checked.faulty (block.at_ "config_layers") .notFilledList none

def Role.read (s : Section) : Checked Role :=
  match s.get? "role" with
  | none | some .null => pure .default
  | some (.string name) => match Role.ofName? name with
    | some role => pure role
    | none => Checked.faulty (s.at_ "role") (.unknownRole name) .default
  | some v => Checked.faulty (s.at_ "role") (.stringExpected v.kind) .default

def matchKeys : List String := ["channel", "accountId", "account_id"]

def Binding.read (place : Place) : Value → Checked (Option Binding)
  | .mapping binding =>
    match Fields.get? binding "match" with
    | some (.mapping route) =>
      let channel := Section.filled? (Fields.get? route "channel")
      let account := Section.filled? (Fields.get? route "accountId") <|>
        Section.filled? (Fields.get? route "account_id")
      match channel, account with
      | some channel, some account =>
        pure (some ⟨⟨channel, account, Fields.without route matchKeys⟩,
          Fields.without binding ["match"]⟩)
      | _, _ => Checked.faulty (place ++ [.key "match"]) .notRoutable none
    | _ => Checked.faulty (place ++ [.key "match"]) .notMapping none
  | _ => Checked.faulty place .notMapping none

def Binding.readAll (place : Place) : Nat → List Value → Checked (List Binding)
  | _, [] => pure []
  | i, v :: rest => do
    let binding ← Binding.read (place ++ [.index i]) v
    let others ← Binding.readAll place (i + 1) rest
    pure (binding.toList ++ others)

def Agent.readBindings (s : Section) : Checked (List Binding) :=
  match s.get? "bindings" with
  | some (.list (item :: items)) => Binding.readAll (s.at_ "bindings") 0 (item :: items)
  | _ => Checked.faulty (s.at_ "bindings") .notFilledList []

def agentKeys : List String :=
  ["id", "role", "workspace", "agent_dir", "bindings", "integrations", "skills", "skill_sources",
   "model", "policy"]

def Agent.read (s : Section) : Checked (Option Agent) :=
  match Section.filled? (s.get? "id") with
  | none => Checked.faulty (s.at_ "id") .notFilledString none
  | some id => do
    let role ← Role.read s
    let bindings ← Agent.readBindings s
    let workspace ← s.optionalString "workspace"
    let agentDir ← s.optionalString "agent_dir"
    let integrations ← s.strings "integrations"
    let skills ← s.strings "skills"
    let skillSources ← s.optionalStrings "skill_sources"
    let model ← s.optionalString "model"
    let policy ← s.policy "policy"
    pure (some ⟨id, role, workspace, agentDir, bindings, integrations, skills, skillSources, model,
      policy, s.without agentKeys⟩)

/-- Account identifiers in a list are accounts without metadata; repeats change nothing. -/
def accountsOfList (place : Place) (items : List Value) : Checked (Fields Value) := do
  let ids ← Section.texts place (fun v => .stringExpected v.kind) 0 items
  pure (ids.foldl (fun fs id => Fields.insertNew fs id Value.empty) [])

def sortFields (fs : Fields α) : Fields α :=
  fs.foldl (fun sorted m => Fields.insert sorted m.1 m.2) []

/-- A channel is null, a list of account identifiers, or a mapping with either form of accounts. -/
def Channel.read (place : Place) : Value → Checked (Option Channel)
  | .null => pure (some {})
  | .list items => do pure (some ⟨← accountsOfList place items, []⟩)
  | .mapping fs => do
    let accounts ← match Fields.get? fs "accounts" with
      | none | some .null => pure []
      | some (.list items) => accountsOfList (place ++ [.key "accounts"]) items
      | some (.mapping accounts) => pure (sortFields accounts)
      | some v =>
        Checked.faulty (place ++ [.key "accounts"]) (.listOrMappingExpected v.kind) []
    pure (some ⟨accounts, Fields.without fs ["accounts"]⟩)
  | v => Checked.faulty place (.listOrMappingExpected v.kind) none

def Channel.readAll (place : Place) : Fields Value → Checked (Fields Channel)
  | [] => pure []
  | (name, v) :: rest => do
    let channel ← Channel.read (place ++ [.key name]) v
    let others ← Channel.readAll place rest
    pure ((channel.map (name, ·)).toList ++ others)

def readChannels (s : Section) : Checked (Fields Channel) := do
  match ← s.optionalMapping "channels" with
  | none => pure []
  | some fs => do pure (sortFields (← Channel.readAll (s.at_ "channels") fs))

end GatewayFleet.Fleet
