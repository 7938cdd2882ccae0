import GatewayFleet.Gateway.Configuration
import GatewayFleet.Proofs.Fleet.Canonical
import GatewayFleet.Proofs.Fleet.Registration
import GatewayFleet.Proofs.Gateway.Expansion
import GatewayFleet.Proofs.Layer.Reachability

/-! The facts of the inventory in a resolved configuration. Whatever kinds of values the layers put
in their places, the overlay is found at the end of the ways that lead to it: single facts stand
alone, agents and bindings end the lists of the layers, and accounts are among those of the
layers. -/

namespace GatewayFleet.Gateway

open Fleet (Agent Binding Instance Inventory)
open Value (IsScalar Leads)

variable {env : Environment} {i : Instance} {p : Path} {c merged : Value}

def Shows (env : Environment) (v : Value) (k text : String) : Prop :=
  ∃ shown, expandText env text = .ok shown ∧ v.member? k = some (.string shown)

/-- The descriptor of an agent as it is found in a configuration. A workspace or a directory that
the agent does not name is named after it, and there is a model only if the agent declares one. -/
structure Describes (env : Environment) (a : Agent) (v : Value) : Prop where
  expands : expand env (agentValue a) = .ok v
  id : Shows env v "id" a.id
  workspace : Shows env v "workspace" ("/var/lib/gateway/workspaces/" ++ a.workspace.getD a.id)
  agentDir : Shows env v "agentDir"
    ("/var/lib/gateway/state/" ++ a.agentDir.getD ("agents/" ++ a.id))
  role : v.member? "role" = some (.string a.role.name)
  model : ∀ name, a.model = some name → Shows env v "model" name
  members : ∃ fs, v = .mapping fs ∧ fs.map Prod.fst =
    ["id", "workspace", "agentDir", "role"] ++ (a.model.map fun _ => "model").toList

/-- A binding of an agent as it is found in a configuration. It belongs to the agent, even if the
binding itself names another one, and keeps all its other members. -/
structure Binds (env : Environment) (a : Agent) (b : Binding) (v : Value) : Prop where
  expands : expand env (bindingValue a b) = .ok v
  owner : Shows env v "agentId" a.id
  others : ∀ k m, k ≠ "agentId" → Fields.get? b.toFields k = some m →
    ∃ x, expand env m = .ok x ∧ v.member? k = some x

/-- The host asks for the address that stands for all of its own, by a word or as it is. -/
def ListensEverywhere (bind : Option String) : Prop :=
  ∃ raw, bind = some raw ∧ (Text.trim raw = "all" ∨ Text.trim raw = "0.0.0.0")

def bindingsInOrder (i : Instance) : List (Agent × Binding) :=
  i.agents.flatMap fun a => a.bindings.map (a, ·)

structure Prevails (env : Environment) (i : Instance) (c : Value) : Prop where
  port : c.at? ["gateway", "port"] = some (.ofNat i.host.gatewayPort)
  bind : ∃ word, c.at? ["gateway", "bind"] = some (.string word) ∧
    (word = "all" ↔ ListensEverywhere i.host.bind) ∧
    (word = "loopback" ↔ ¬ ListensEverywhere i.host.bind)
  agents : ∃ before own, c.at? ["agents", "list"] = some (.list (before ++ own)) ∧
    List.Forall₂ (Describes env) i.agents own
  bindings : ∃ before own, c.at? ["bindings"] = some (.list (before ++ own)) ∧
    List.Forall₂ (fun r v => Binds env r.1 r.2 v) (bindingsInOrder i) own
  model : ∀ name, i.agents.findSome? (·.model) = some name → ∃ text,
    expandText env name = .ok text ∧
      c.at? ["agents", "defaults", "model", "primary"] = some (.string text)
  accounts : ∀ channel account info, i.account? channel account = some info →
    ∃ below v x, Value.overlay below info = some v ∧ expand env v = .ok x ∧
      c.at? ["channels", channel, "accounts", account] = some x

theorem isScalar_string (s : String) : IsScalar (.string s) := ⟨nofun, nofun⟩

theorem isScalar_ofNat (n : Nat) : IsScalar (.ofNat n) := ⟨nofun, nofun⟩

theorem leads_port (i : Instance) (p : Path) :
    Leads (overlay i (.of i p)) ["gateway", "port"] (.ofNat i.host.gatewayPort) :=
  .through rfl (.through rfl (.here _))

theorem leads_bind (i : Instance) (p : Path) :
    Leads (overlay i (.of i p)) ["gateway", "bind"] (.string (Placement.of i p).runtimeBind) :=
  .through rfl (.through rfl (.here _))

theorem leads_agents (i : Instance) (p : Path) :
    Leads (overlay i (.of i p)) ["agents", "list"] (.list (i.agents.map agentValue)) := by
  refine .through rfl (.through ?_ (.here _))
  rw [agentsBlock, Fields.values_append, Policy.values_optional]
  rfl

theorem leads_bindings (i : Instance) (p : Path) :
    Leads (overlay i (.of i p)) ["bindings"]
      (.list ((bindingsInOrder i).map fun r => bindingValue r.1 r.2)) := by
  have hlist : (bindingsInOrder i).map (fun r => bindingValue r.1 r.2) =
      i.agents.flatMap fun a => a.bindings.map (bindingValue a) := by
    simp only [bindingsInOrder, List.map_flatMap, List.map_map]
    rfl
  rw [hlist]
  exact .through rfl (.here _)

theorem leads_model {name : String} (h : i.agents.findSome? (·.model) = some name) (p : Path) :
    Leads (overlay i (.of i p)) ["agents", "defaults", "model", "primary"] (.string name) := by
  have hdefaults : Fields.values (agentsBlock i) "defaults" =
      [.mapping [("model", .mapping [("primary", .string name)])]] := by
    rw [agentsBlock, primaryModel?, h, Fields.values_append, Policy.values_optional]
    rfl
  exact .through rfl (.through hdefaults (.through rfl (.through rfl (.here _))))

theorem leads_account {channel account : String} {info : Value}
    (hchannels : Fleet.ChannelsCanonical i.channels)
    (h : i.account? channel account = some info) (p : Path) :
    Leads (overlay i (.of i p)) ["channels", channel, "accounts", account] info := by
  obtain ⟨found, hfound, haccount⟩ := Option.bind_eq_some_iff.1 h
  have hcanonical := hchannels.channels _ (Fields.mem_of_get? hfound)
  have hwritten : Fields.values (Fleet.channelsToFields i.channels) channel =
      [.mapping found.toFields] := by
    apply (Fleet.channelsToFields_distinct hchannels).values_of_get?
    have hget := Fields.get?_map (fun _ (c : Fleet.Channel) => Value.mapping c.toFields)
      i.channels channel
    rw [hfound] at hget
    exact hget
  have haccounts : Fields.values found.toFields "accounts" = [.mapping found.accounts] := by
    have hne : found.accounts ≠ [] := by
      intro hnil
      rw [hnil] at haccount
      cases haccount
    rw [Fleet.Channel.toFields, Fields.values_append, hcanonical.extra.values (by decide),
      Fleet.mappingUnlessEmpty]
    simp [hne, Fields.values_cons]
  exact .through rfl (.through hwritten (.through haccounts
    (.through (hcanonical.accounts.distinct.values_of_get? haccount) (.here _))))

theorem expandText_runtimeBind (env : Environment) (q : Placement) :
    expandText env q.runtimeBind = .ok q.runtimeBind := by
  apply expandText_of_not_mem
  unfold Placement.runtimeBind
  split
  · decide
  · decide

theorem normalizeBind_eq_iff (bind : Option String) :
    normalizeBind bind = "0.0.0.0" ↔ ListensEverywhere bind := by
  cases bind with
  | none => exact ⟨nofun, nofun⟩
  | some raw =>
    have hsome : ListensEverywhere (some raw) ↔
        Text.trim raw = "all" ∨ Text.trim raw = "0.0.0.0" := by
      simp [ListensEverywhere]
    rw [hsome, normalizeBind, Option.getD_some]
    split <;> simp_all

theorem runtimeBind_of (i : Instance) (p : Path) :
    ((Placement.of i p).runtimeBind = "all" ↔ ListensEverywhere i.host.bind) ∧
      ((Placement.of i p).runtimeBind = "loopback" ↔ ¬ ListensEverywhere i.host.bind) := by
  rw [← normalizeBind_eq_iff]
  unfold Placement.runtimeBind
  by_cases h : (Placement.of i p).bind = "0.0.0.0"
  · have hword : normalizeBind i.host.bind = "0.0.0.0" := h
    simp [h, hword]
  · have hword : normalizeBind i.host.bind ≠ "0.0.0.0" := h
    simp [h, hword]

theorem shows_of_expand {k text : String} {v w : Value} (h : expand env v = .ok w)
    (hmember : v.member? k = some (.string text)) : Shows env w k text := by
  obtain ⟨x, hx, hw⟩ := exists_member?_expand h hmember
  obtain ⟨shown, hshown, rfl⟩ := expand_string_eq_ok hx
  exact ⟨shown, hshown, hw⟩

theorem describes_of_expand {a : Agent} {v : Value} (h : expand env (agentValue a) = .ok v) :
    Describes env a v where
  expands := h
  id := shows_of_expand h rfl
  workspace := shows_of_expand h rfl
  agentDir := shows_of_expand h rfl
  role := by
    obtain ⟨text, htext, hv⟩ := shows_of_expand (k := "role") h rfl
    have hplain : '$' ∉ a.role.name.toList := by cases a.role <;> decide
    rw [hv, ← Except.ok.inj (htext.symm.trans (expandText_of_not_mem hplain env))]
  model := by
    intro name hname
    apply shows_of_expand h
    rw [agentValue, agentFields, hname]
    rfl
  members := by
    obtain ⟨fs, hfs, rfl⟩ := expand_mapping_eq_ok h
    refine ⟨fs, rfl, ?_⟩
    rw [hfs.map_fst, agentFields]
    cases a.model <;> rfl

theorem binds_of_expand {a : Agent} {b : Binding} {v : Value}
    (h : expand env (bindingValue a b) = .ok v) : Binds env a b v where
  expands := h
  owner := by
    have hmember : (bindingValue a b).member? "agentId" = some (.string a.id) :=
      Fields.get?_put_self _ _ _
    exact shows_of_expand h hmember
  others := by
    intro k m hk hm
    have hmember : (bindingValue a b).member? k = some m :=
      (Fields.get?_put_of_ne _ _ (Ne.symm hk)).trans hm
    exact exists_member?_expand h hmember

theorem prevails_of_expand (hchannels : Fleet.ChannelsCanonical i.channels)
    (h : expand env (merged.merge (overlay i (.of i p))) = .ok c) : Prevails env i c where
  port := by
    obtain ⟨y, hy, hat⟩ := exists_at?_expand_scalar h (leads_port i p) (isScalar_ofNat _)
    rw [hat, ← Except.ok.inj hy]
  bind := by
    obtain ⟨y, hy, hat⟩ := exists_at?_expand_scalar h (leads_bind i p) (isScalar_string _)
    obtain ⟨text, htext, rfl⟩ := expand_string_eq_ok hy
    rw [Except.ok.inj (htext.symm.trans (expandText_runtimeBind env _))] at hat
    exact ⟨_, hat, runtimeBind_of i p⟩
  agents := by
    obtain ⟨before, own, hat, hown⟩ := exists_at?_expand_list h (leads_agents i p)
    exact ⟨before, own, hat, (List.forall₂_map_left_iff.1 hown).imp fun _ _ => describes_of_expand⟩
  bindings := by
    obtain ⟨before, own, hat, hown⟩ := exists_at?_expand_list h (leads_bindings i p)
    exact ⟨before, own, hat, (List.forall₂_map_left_iff.1 hown).imp fun _ _ => binds_of_expand⟩
  model := by
    intro name hname
    obtain ⟨y, hy, hat⟩ := exists_at?_expand_scalar h (leads_model hname p) (isScalar_string _)
    obtain ⟨text, htext, rfl⟩ := expand_string_eq_ok hy
    exact ⟨text, htext, hat⟩
  accounts := by
    intro channel account info hinfo
    exact exists_at?_expand_merge h (leads_account hchannels hinfo p)

/-- In every configuration that an instance of an admitted fleet resolves to, the facts of the
inventory prevail over the layers. -/
theorem facts_prevail {tree : Tree} {dir : Path} {v : Value} {inv : Inventory} {t : Tree}
    (h : Inventory.ofValue? tree dir v = .ok inv) (hi : i ∈ inv.instances)
    (hc : resolve t env i p = .ok c) : Prevails env i c := by
  obtain ⟨fs, -, hwritten, -, -⟩ := Fleet.ofValue?_eq_ok_iff.1 h
  obtain ⟨whole, hwhole, hexpand⟩ := Outcome.bind_eq_ok hc
  obtain ⟨layers, -, hmerged⟩ := Outcome.bind_eq_ok hwhole
  obtain rfl := Except.ok.inj hmerged
  exact prevails_of_expand (hwritten.canonical.instances i hi).channels hexpand

def crookedText : String :=
  "\x7b\"gateway\":true,\"agents\":\x7b\"list\":\x7b\x7d\x7d," ++
  "\"bindings\":[\"x\"],\"channels\":[null]\x7d"

def crookedTree : Tree := ⟨[(⟨true, ["fleet", "base"]⟩, .file crookedText.toUTF8)]⟩

def crookedFields : Fields Value :=
  [("gateway", .bool true), ("agents", .mapping [("list", .mapping [])]),
    ("bindings", .ofStrings ["x"]), ("channels", .list [.null])]

def pairPath : Path := ⟨["", "fleet", "inventory"]⟩

theorem assemble_crooked : assemble crookedTree Fleet.pairEast pairPath =
    .ok ((Value.mapping crookedFields).merge
      (overlay Fleet.pairEast (.of Fleet.pairEast pairPath))) := by
  have hread : Json.read crookedText = .ok (.mapping crookedFields) := by cbv
  have hreads : Layer.ReadsAs crookedTree ⟨true, ["fleet", "base"]⟩ ⟨crookedFields, []⟩ :=
    .of_read (by rfl) hread rfl
  have hload : Layer.load crookedTree ⟨true, ["fleet", "base"]⟩ =
      .ok (.mapping crookedFields) := by
    rw [Layer.load, Layer.loadInto_layer List.not_mem_nil hreads]
    rfl
  have hlayers : layerLocations Fleet.pairEast pairPath = [⟨true, ["fleet", "base"]⟩] := rfl
  rw [assemble, hlayers, Layer.loadAll, Outcome.mapM_cons_ok [] hload]
  rfl

theorem facts_prevail_crooked : ∃ c,
    Inventory.ofValue? Fleet.pairTree Fleet.pairDir Fleet.pairDocument = .ok Fleet.pairFleet ∧
    resolve crookedTree (fun _ => none) Fleet.pairEast pairPath = .ok c ∧
    Prevails (fun _ => none) Fleet.pairEast c := by
  have hexpand : (expand (fun _ => none) ((Value.mapping crookedFields).merge
      (overlay Fleet.pairEast (.of Fleet.pairEast pairPath)))).isOk = true := by
    decide +kernel
  obtain ⟨c, hc⟩ := Outcome.exists_eq_ok_of_isOk hexpand
  have hresolve : resolve crookedTree (fun _ => none) Fleet.pairEast pairPath = .ok c := by
    rw [resolve, assemble_crooked]
    exact hc
  have hmem : Fleet.pairEast ∈ Fleet.pairFleet.instances := .head _
  exact ⟨c, Fleet.ofValue?_pair, hresolve, facts_prevail Fleet.ofValue?_pair hmem hresolve⟩

end GatewayFleet.Gateway
