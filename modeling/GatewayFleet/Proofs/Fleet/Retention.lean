import GatewayFleet.Proofs.Fleet.Canonical
import GatewayFleet.Proofs.Fleet.Registration
import GatewayFleet.Proofs.Outcome

/-! What becomes of the parts of an admitted document. Every entry that the inventory interprets is
found in the decoded records, in its order, and every member that is not interpreted is written
again where it stood. -/

namespace GatewayFleet

namespace Value

def entries : Option Value → List Value
  | some (.list items) => items
  | _ => []

def rest (known : List String) : Option Value → Fields Value
  | some (.mapping fs) => Fields.without fs known
  | _ => []

variable {v w : Value} {k : String}

theorem WellFormed.of_mem_entries (h : v.WellFormed) (hw : w ∈ entries (v.member? k)) :
    w.WellFormed := by
  cases hmember : v.member? k with
  | none =>
    rw [hmember] at hw
    cases hw
  | some u =>
    have hu := h.member? hmember
    rw [hmember] at hw
    cases u with
    | list items => exact wellFormed_of_mem_items hu hw
    | null | bool _ | number _ | string _ | mapping _ => cases hw

end Value

namespace Fleet

open Value (entries rest)
open Policy (Fragment)

structure Binding.DecodedFrom (v : Value) (b : Binding) : Prop where
  channel : (v.member? "match").bind (·.member? "channel") = some (.string b.channel)
  account : ∃ k ∈ ["accountId", "account_id"],
    (v.member? "match").bind (·.member? k) = some (.string b.account)

structure Agent.DecodedFrom (v : Value) (a : Agent) : Prop where
  id : v.member? "id" = some (.string a.id)
  bindings : List.Forall₂ Binding.DecodedFrom (entries (v.member? "bindings")) a.bindings
  integrations : entries (v.member? "integrations") = a.integrations.map .string
  skills : entries (v.member? "skills") = a.skills.map .string
  skillSources : entries (v.member? "skill_sources") = (a.skillSources.getD []).map .string

/-- Accounts are declared by their identifiers alone, or together with metadata. -/
inductive Declares : Value → String → Value → Prop
  | listed {items : List Value} {id : String} (h : .string id ∈ items) :
      Declares (.list items) id .empty
  | described {accounts : Fields Value} {id : String} {info : Value}
      (h : Fields.get? accounts id = some info) : Declares (.mapping accounts) id info

/-- What declares the accounts of a channel: a member of it, or all there is. -/
def accounts? : Value → Option Value
  | .mapping fs => Fields.get? fs "accounts"
  | v => some v

def Channel.DecodedFrom (v : Value) (c : Channel) : Prop :=
  ∀ id info, Fields.get? c.accounts id = some info ↔ ∃ w ∈ accounts? v, Declares w id info

def runtime? (v : Value) : Option Value := (v.member? "runtime").or (v.member? "openclaw")

def channel? (v : Value) (name : String) : Option Value :=
  (v.member? "channels").bind (·.member? name)

structure Instance.DecodedFrom (v : Value) (i : Instance) : Prop where
  id : v.member? "id" = some (.string i.id)
  layers : entries ((runtime? v).bind (·.member? "config_layers")) =
    i.runtime.configLayers.map .string
  agents : List.Forall₂ Agent.DecodedFrom (entries (v.member? "agents")) i.agents
  channels : ∀ name, Option.Rel Channel.DecodedFrom (channel? v name) (Fields.get? i.channels name)

/-- The records of an inventory stand for the entries of a document, one each in their order. -/
structure Inventory.DecodedFrom (v : Value) (inv : Inventory) : Prop where
  instances : List.Forall₂ Instance.DecodedFrom (entries (v.member? "instances")) inv.instances

structure SameRest.Policy (v w : Option Value) : Prop where
  rest : rest Policy.groupKeys v = rest Policy.groupKeys w
  groups : ∀ k known, Policy.listKeys? k = some known →
    Value.rest known (v.bind (·.member? k)) = Value.rest known (w.bind (·.member? k))

structure SameRest.Binding (v w : Value) : Prop where
  rest : rest ["match"] (some v) = rest ["match"] (some w)
  route : Value.rest matchKeys (v.member? "match") = Value.rest matchKeys (w.member? "match")

structure SameRest.Agent (v w : Value) : Prop where
  rest : rest agentKeys (some v) = rest agentKeys (some w)
  bindings : List.Forall₂ SameRest.Binding (entries (v.member? "bindings"))
    (entries (w.member? "bindings"))
  policy : SameRest.Policy (v.member? "policy") (w.member? "policy")

structure SameRest.Instance (v w : Value) : Prop where
  rest : rest instanceKeys (some v) = rest instanceKeys (some w)
  host : Value.rest ["gateway_port", "bind"] (v.member? "host") =
    Value.rest ["gateway_port", "bind"] (w.member? "host")
  paths : Value.rest (PathRole.all.map (·.key)) (v.member? "paths") =
    Value.rest (PathRole.all.map (·.key)) (w.member? "paths")
  runtime : Value.rest ["config_layers"] (runtime? v) = Value.rest ["config_layers"] (runtime? w)
  agents : List.Forall₂ SameRest.Agent (entries (v.member? "agents")) (entries (w.member? "agents"))
  channels : ∀ name,
    Value.rest ["accounts"] (channel? v name) = Value.rest ["accounts"] (channel? w name)
  policy : SameRest.Policy (v.member? "policy") (w.member? "policy")

structure SameRest.Inventory (v w : Value) : Prop where
  rest : rest rootKeys (some v) = rest rootKeys (some w)
  defaults : Value.rest ["port_stride", "policy"] (v.member? "defaults") =
    Value.rest ["port_stride", "policy"] (w.member? "defaults")
  defaultsPolicy : SameRest.Policy ((v.member? "defaults").bind (·.member? "policy"))
    ((w.member? "defaults").bind (·.member? "policy"))
  policy : SameRest.Policy (v.member? "policy") (w.member? "policy")
  instances : List.Forall₂ SameRest.Instance (entries (v.member? "instances"))
    (entries (w.member? "instances"))

variable {v w : Value} {fs gs : Fields Value}

theorem get?_of_filled? {v : Option Value} {t : String} (h : Section.filled? v = some t) :
    v = some (.string t) :=
  (Section.filled?_eq_some_iff.1 h).1

theorem Binding.WrittenAs.decodedFrom {b : Binding} (h : b.WrittenAs v) : b.DecodedFrom v := by
  cases h with
  | @mapping fs route hroute hmatch hextra =>
    have hmember : (Value.mapping fs).member? "match" = some (.mapping route) := hroute
    constructor
    · rw [hmember]
      exact get?_of_filled? hmatch.channel
    · rw [hmember]
      have haccount := hmatch.account
      cases hnew : Section.filled? (Fields.get? route "accountId") with
      | some t =>
        rw [hnew] at haccount
        obtain rfl : t = b.route.accountId := Option.some.inj haccount
        exact ⟨"accountId", .head _, get?_of_filled? hnew⟩
      | none =>
        rw [hnew] at haccount
        exact ⟨"account_id", .tail _ (.head _), get?_of_filled? haccount⟩

theorem entries_of_texts {v : Option Value} {r : Option (List String)} (h : Optional IsTexts v r) :
    entries v = (r.getD []).map .string := by
  cases h with
  | absent | null => rfl
  | given h =>
    rw [h]
    rfl

theorem AreBindings.entries {bs : List Binding} {v : Option Value} (h : AreBindings bs v) :
    List.Forall₂ (fun v b => Binding.WrittenAs b v) (entries v) bs := by
  cases h with
  | list hne hitems => exact hitems

theorem Agent.WrittenAs.decodedFrom {a : Agent} (h : a.WrittenAs fs) :
    Agent.DecodedFrom (.mapping fs) a where
  id := get?_of_filled? h.id
  bindings := h.bindings.entries.imp fun _ _ => Binding.WrittenAs.decodedFrom
  integrations := by
    obtain ⟨r, hr, hnames⟩ := h.integrations
    exact hnames ▸ entries_of_texts hr
  skills := by
    obtain ⟨r, hr, hnames⟩ := h.skills
    exact hnames ▸ entries_of_texts hr
  skillSources := entries_of_texts h.skillSources

theorem get?_accountsOf (ids : List String) (id : String) :
    Fields.get? (accountsOf ids) id = if id ∈ ids then some .empty else none := by
  have hfold (acc : Fields Value) :
      Fields.get? (ids.foldl (fun fs id => Fields.insertNew fs id Value.empty) acc) id =
        (Fields.get? acc id).or (if id ∈ ids then some .empty else none) := by
    induction ids generalizing acc with
    | nil => simp
    | cons x ids ih =>
      rw [List.foldl_cons, ih, Fields.get?_insertNew]
      by_cases hx : x = id
      · subst hx
        cases Fields.get? acc x <;> simp
      · simp [hx, Ne.symm hx]
  exact hfold []

theorem get?_sortFields {α : Type} {fs : Fields α} (h : fs.Distinct) (k : String) :
    Fields.get? (sortFields fs) k = Fields.get? fs k := by
  have hfold (acc : Fields α) :
      Fields.get? (fs.foldl (fun sorted m => Fields.insert sorted m.1 m.2) acc) k =
        (Fields.get? fs k).or (Fields.get? acc k) := by
    induction fs generalizing acc with
    | nil => rfl
    | cons m fs ih =>
      rw [List.foldl_cons, ih (List.nodup_cons.1 h).2, Fields.get?_cons]
      by_cases hm : m.1 = k
      · rw [if_pos hm, ← hm, h.get?_tail, Fields.get?_insert_self]
        rfl
      · rw [if_neg hm, Fields.get?_insert_of_ne _ _ hm]
  exact (hfold []).trans (Option.or_none ..)

theorem AreAccounts.get?_iff {accounts : Fields Value} (h : AreAccounts v accounts)
    (hv : v.WellFormed) {id : String} {info : Value} :
    Fields.get? accounts id = some info ↔ Declares v id info := by
  constructor
  · intro hget
    cases h with
    | list ids =>
      rw [get?_accountsOf] at hget
      split at hget
      · rename_i hid
        exact Option.some.inj hget ▸ .listed (List.mem_map_of_mem hid)
      · cases hget
    | mapping declared =>
      rw [get?_sortFields hv.1] at hget
      exact .described hget
  · intro hdeclares
    cases h with
    | list ids =>
      cases hdeclares with
      | listed hid =>
        obtain ⟨t, ht, heq⟩ := List.mem_map.1 hid
        obtain rfl := Value.string.inj heq
        rw [get?_accountsOf, if_pos ht]
    | mapping declared =>
      cases hdeclares with
      | described hget => rwa [get?_sortFields hv.1]

theorem Channel.WrittenAs.decodedFrom {c : Channel} (h : c.WrittenAs v) (hv : v.WellFormed) :
    Channel.DecodedFrom v c := by
  have hnothing (id info : _) : ¬ ∃ w ∈ some Value.null, Declares w id info := by
    rintro ⟨w, hw, hdeclares⟩
    obtain rfl := Option.some.inj hw
    cases hdeclares
  have hgiven {w : Value} {accounts : Fields Value} (haccounts : AreAccounts w accounts)
      (hw : w.WellFormed) (id info : _) : Fields.get? accounts id = some info ↔
        ∃ w' ∈ some w, Declares w' id info := by
    simpa using haccounts.get?_iff hw
  intro id info
  cases h with
  | null => exact iff_of_false nofun (hnothing id info)
  | list ids => exact hgiven (.list ids) hv id info
  | @mapping fs r haccounts =>
    have hmember : accounts? (.mapping fs) = Fields.get? fs "accounts" := rfl
    have hwell {w : Value} (hw : Fields.get? fs "accounts" = some w) : w.WellFormed :=
      Value.wellFormed_of_get? hv.2 hw
    rw [hmember]
    generalize Fields.get? fs "accounts" = v at haccounts hwell
    cases haccounts with
    | absent => exact iff_of_false nofun nofun
    | null => exact iff_of_false nofun (hnothing id info)
    | given haccounts => exact hgiven haccounts (hwell rfl) id info

theorem ChannelsWrittenAs.get? {found : Fields Channel} (h : ChannelsWrittenAs found fs)
    (name : String) :
    Option.Rel (fun v c => Channel.WrittenAs c v) (Fields.get? fs name)
      (Fields.get? found name) := by
  unfold ChannelsWrittenAs at h
  induction h with
  | nil => exact .none
  | @cons m n fs found hmn _ ih =>
    rw [Fields.get?_cons, Fields.get?_cons, ← hmn.1]
    split
    · exact .some hmn.2
    · exact ih

theorem ChannelsWrittenAs.keys {found : Fields Channel} (h : ChannelsWrittenAs found fs) :
    found.keys = fs.keys := by
  unfold ChannelsWrittenAs at h
  induction h with
  | nil => rfl
  | @cons m n fs found hmn _ ih =>
    rw [Fields.keys, Fields.keys, List.map_cons, List.map_cons, hmn.1]
    exact congrArg _ ih

theorem AreChannels.get? {cs : Fields Channel} (h : AreChannels (.mapping fs) cs)
    (hfs : fs.Distinct) (name : String) :
    Option.Rel (fun v c => Channel.WrittenAs c v) (Fields.get? fs name) (Fields.get? cs name) := by
  obtain ⟨_, found, heq, hfound, rfl⟩ := h
  obtain rfl := Value.mapping.inj heq
  have hdistinct : found.Distinct := by
    rw [Fields.Distinct, hfound.keys]
    exact hfs
  rw [get?_sortFields hdistinct]
  exact hfound.get? name

theorem runtime?_eq (fs : Fields Value) :
    runtime? (.mapping fs) = Fields.get? fs (runtimeKey ⟨fs, []⟩) := by
  have hold : runtime? (.mapping fs) =
      (Fields.get? fs "runtime").or (Fields.get? fs "openclaw") := rfl
  rw [hold, runtimeKey, Section.get?, Section.get?]
  cases hnew : Fields.get? fs "runtime" with
  | some v => simp [hnew]
  | none =>
    cases hlegacy : Fields.get? fs "openclaw" with
    | some v => simp [hlegacy]
    | none => simp [hnew]

/-- The mapping of channels, if there is one, names each of them once. -/
def ChannelsOnce (v : Value) : Prop :=
  ∀ fs, v.member? "channels" = some (.mapping fs) → Fields.Distinct fs

theorem channelsOnce_of_wellFormed (h : v.WellFormed) : ChannelsOnce v :=
  fun _ hfs => (h.member? hfs).1

theorem Instance.WrittenAs.channel_rel {i : Instance} (h : i.WrittenAs fs)
    (hfs : ChannelsOnce (.mapping fs)) (name : String) :
    Option.Rel (fun v c => Channel.WrittenAs c v) (channel? (.mapping fs) name)
      (Fields.get? i.channels name) := by
  obtain ⟨r, hr, hchannels⟩ := h.channels
  have hmember : channel? (.mapping fs) name =
      (Fields.get? fs "channels").bind (·.member? name) := rfl
  have honce (m : Fields Value) (hm : Fields.get? fs "channels" = some (.mapping m)) :
      Fields.Distinct m := hfs m hm
  rw [hmember, ← hchannels]
  generalize Fields.get? fs "channels" = v at hr honce
  cases hr with
  | absent | null => exact .none
  | @given v cs hcs =>
    obtain ⟨m, found, rfl, hfound⟩ := hcs
    exact AreChannels.get? ⟨m, found, rfl, hfound⟩ (honce m rfl) name

theorem AreInstances.entries {instances : List Instance} {v : Option Value}
    (h : AreInstances instances v) : List.Forall₂ IsInstance (entries v) instances := by
  cases h with
  | list hne hitems => exact hitems

theorem entries_of_agents {v : Option Value} {r : Option (List Agent)}
    (h : Optional AreAgents v r) : List.Forall₂ IsAgent (entries v) (r.getD []) := by
  cases h with
  | absent | null => exact .nil
  | given h =>
    obtain ⟨items, rfl, hitems⟩ := h
    exact hitems

theorem Instance.WrittenAs.decodedFrom {i : Instance} (h : i.WrittenAs fs)
    (hfs : (Value.mapping fs).WellFormed) : Instance.DecodedFrom (.mapping fs) i where
  id := get?_of_filled? h.id
  layers := by
    obtain ⟨m, hm, hruntime⟩ := h.runtime
    have hlayers : (Value.mapping m).member? "config_layers" =
        some (.ofStrings i.runtime.configLayers) := hruntime.layers
    rw [runtime?_eq, hm, Option.bind_some, hlayers]
    rfl
  agents := by
    obtain ⟨r, hr, hagents⟩ := h.agents
    refine (hagents ▸ entries_of_agents hr).imp ?_
    rintro v a ⟨gs, rfl, ha⟩
    exact ha.decodedFrom
  channels := by
    intro name
    have hrel := h.channel_rel (channelsOnce_of_wellFormed hfs) name
    have hwell : ∀ v ∈ channel? (.mapping fs) name, v.WellFormed := by
      intro v hv
      obtain ⟨w, hw, hmember⟩ := Option.bind_eq_some_iff.1 hv
      exact (hfs.member? hw).member? hmember
    generalize channel? (.mapping fs) name = v at hrel hwell
    generalize Fields.get? i.channels name = c at hrel
    cases hrel with
    | none => exact .none
    | some hc => exact .some (hc.decodedFrom (hwell _ rfl))

theorem Inventory.WrittenAs.decodedFrom {inv : Inventory} (h : inv.WrittenAs fs)
    (hfs : (Value.mapping fs).WellFormed) : Inventory.DecodedFrom (.mapping fs) inv where
  instances := by
    refine Outcome.forall₂_mono h.instances.entries ?_
    rintro v hv i ⟨gs, rfl, hi⟩
    exact hi.decodedFrom (hfs.of_mem_entries hv)

def groupExtra (f : Option Fragment) : String → Fields Value
  | "integrations" => ((f.bind (·.integrations)).map (·.extra)).getD []
  | "skills" => ((f.bind (·.skills)).map (·.extra)).getD []
  | "models" => ((f.bind (·.models)).map (·.extra)).getD []
  | _ => []

theorem rest_group? (fs : Fields Value) (k : String) (known : List String) :
    rest known (Fields.get? fs k) =
      ((Policy.group? fs k).map (Fields.without · known)).getD [] := by
  unfold Policy.group?
  split
  · rename_i ms hget
    rw [hget]
    rfl
  · rename_i hgroup
    unfold Value.rest
    split
    · rename_i ms hget
      exact absurd hget (hgroup ms)
    · rfl

theorem rest_of_ofFields? {f : Fragment} (h : Fragment.ofFields? fs = .ok f) :
    Fields.without fs Policy.groupKeys = f.extra ∧ ∀ k known, Policy.listKeys? k = some known →
      rest known (Fields.get? fs k) = groupExtra (some f) k := by
  unfold Fragment.ofFields? at h
  split at h
  · cases h
  · obtain rfl := Except.ok.inj h
    refine ⟨rfl, fun k known hk => ?_⟩
    rw [rest_group?]
    unfold Policy.listKeys? at hk
    split at hk
    case h_4 => cases hk
    -- the three groups are read and kept in one way
    all_goals
      obtain rfl := Option.some.inj hk
      simp only [groupExtra, Option.bind_some, Option.map_map]
      rfl

theorem rest_policy {f : Option Fragment} {v : Option Value} (h : Optional IsFragment v f) :
    rest Policy.groupKeys v = (f.map (·.extra)).getD [] ∧
      ∀ k known, Policy.listKeys? k = some known →
        rest known (v.bind (·.member? k)) = groupExtra f k := by
  have hnothing (k : String) : groupExtra none k = [] := by
    unfold groupExtra
    split <;> rfl
  cases h with
  | absent => exact ⟨rfl, fun k known _ => (hnothing k).symm⟩
  | null => exact ⟨rfl, fun k known _ => (hnothing k).symm⟩
  | @given v f h =>
    cases v with
    | mapping fs => exact rest_of_ofFields? h
    | null | bool _ | number _ | string _ | list _ => cases h

theorem SameRest.policy {f : Option Fragment} {v w : Option Value} (h : Optional IsFragment v f)
    (h' : Optional IsFragment w f) : SameRest.Policy v w where
  rest := (rest_policy h).1.trans (rest_policy h').1.symm
  groups := fun k known hk =>
    ((rest_policy h).2 k known hk).trans ((rest_policy h').2 k known hk).symm

theorem rest_member {k : String} {m : Fields Value} {known : List String}
    (h : Fields.get? fs k = some (.mapping m)) :
    rest known ((Value.mapping fs).member? k) = Fields.without m known := by
  change rest known (Fields.get? fs k) = _
  rw [h]
  rfl

theorem forall₂_of_common {α β : Type} {R : α → β → Prop} {S : α → α → Prop} {xs ys : List α}
    {bs : List β} (h : List.Forall₂ R xs bs) (h' : List.Forall₂ R ys bs)
    (hS : ∀ x y b, R x b → R y b → S x y) : List.Forall₂ S xs ys := by
  induction h generalizing ys with
  | nil =>
    cases h'
    exact .nil
  | cons hx _ ih =>
    cases h' with
    | cons hy hys => exact .cons (hS _ _ _ hx hy) (ih hys)

theorem SameRest.binding {b : Fleet.Binding} (h : b.WrittenAs v) (h' : b.WrittenAs w) :
    SameRest.Binding v w := by
  cases h with
  | @mapping fs route hroute hmatch hextra =>
    cases h' with
    | @mapping gs route' hroute' hmatch' hextra' =>
      refine ⟨hextra.symm.trans hextra', ?_⟩
      rw [rest_member hroute, rest_member hroute', ← hmatch.extra, ← hmatch'.extra]

theorem SameRest.agent {a : Fleet.Agent} (h : a.WrittenAs fs) (h' : a.WrittenAs gs) :
    SameRest.Agent (.mapping fs) (.mapping gs) where
  rest := h.extra.symm.trans h'.extra
  bindings := forall₂_of_common h.bindings.entries h'.bindings.entries
    fun _ _ _ => SameRest.binding
  policy := SameRest.policy h.policy h'.policy

theorem rest_channel {v : Option Value} {c : Option Channel}
    (h : Option.Rel (fun v c => Channel.WrittenAs c v) v c) :
    rest ["accounts"] v = (c.map (·.extra)).getD [] := by
  cases h with
  | none => rfl
  | some hc => cases hc <;> rfl

theorem SameRest.instance {i : Fleet.Instance} (h : i.WrittenAs fs) (h' : i.WrittenAs gs)
    (hfs : ChannelsOnce (.mapping fs)) (hgs : ChannelsOnce (.mapping gs)) :
    SameRest.Instance (.mapping fs) (.mapping gs) where
  rest := h.extra.symm.trans h'.extra
  host := by
    obtain ⟨m, hm, hhost⟩ := h.host
    obtain ⟨m', hm', hhost'⟩ := h'.host
    rw [rest_member hm, rest_member hm', ← hhost.extra, ← hhost'.extra]
  paths := by
    obtain ⟨m, hm, hpaths⟩ := h.paths
    obtain ⟨m', hm', hpaths'⟩ := h'.paths
    rw [rest_member hm, rest_member hm', ← hpaths.extra, ← hpaths'.extra]
  runtime := by
    obtain ⟨m, hm, hruntime⟩ := h.runtime
    obtain ⟨m', hm', hruntime'⟩ := h'.runtime
    rw [runtime?_eq, runtime?_eq, hm, hm']
    exact hruntime.extra.symm.trans hruntime'.extra
  agents := by
    obtain ⟨r, hr, hagents⟩ := h.agents
    obtain ⟨r', hr', hagents'⟩ := h'.agents
    refine forall₂_of_common (hagents ▸ entries_of_agents hr) (hagents' ▸ entries_of_agents hr') ?_
    rintro v w a ⟨m, rfl, ha⟩ ⟨m', rfl, ha'⟩
    exact SameRest.agent ha ha'
  channels := fun name =>
    (rest_channel (h.channel_rel hfs name)).trans (rest_channel (h'.channel_rel hgs name)).symm
  policy := SameRest.policy h.policy h'.policy

theorem SameRest.defaults {d : Defaults} {v w : Option Value}
    (h : ∃ r, Optional AreDefaults v r ∧ r.getD {} = d)
    (h' : ∃ r, Optional AreDefaults w r ∧ r.getD {} = d) :
    rest ["port_stride", "policy"] v = rest ["port_stride", "policy"] w ∧
      SameRest.Policy (v.bind (·.member? "policy")) (w.bind (·.member? "policy")) := by
  -- defaults that are not given hold what empty ones hold
  have hone {v : Option Value} (h : ∃ r, Optional AreDefaults v r ∧ r.getD {} = d) :
      rest ["port_stride", "policy"] v = d.extra ∧
        Optional IsFragment (v.bind (·.member? "policy")) d.policy := by
    obtain ⟨r, hr, rfl⟩ := h
    cases hr with
    | absent | null => exact ⟨rfl, .absent⟩
    | given hd =>
      obtain ⟨fs, rfl, hd⟩ := hd
      exact ⟨hd.extra.symm, hd.policy⟩
  exact ⟨(hone h).1.trans (hone h').1.symm, SameRest.policy (hone h).2 (hone h').2⟩

theorem channelsOnce_toValue {i : Fleet.Instance} (h : i.Canonical) :
    ChannelsOnce i.toValue := by
  intro fs hfs
  replace hfs : Fields.get? i.toFields "channels" = some (.mapping fs) := hfs
  rw [h.get?_channels] at hfs
  split at hfs
  · obtain rfl := Value.mapping.inj (Option.some.inj hfs)
    exact channelsToFields_distinct h.channels
  · cases hfs

theorem SameRest.inventory {inv : Fleet.Inventory} (h : inv.WrittenAs fs)
    (hfs : (Value.mapping fs).WellFormed) : SameRest.Inventory (.mapping fs) inv.toValue where
  rest := h.extra.symm.trans (h.canonical.writtenAs h.bound).extra
  defaults := (SameRest.defaults h.defaults (h.canonical.writtenAs h.bound).defaults).1
  defaultsPolicy := (SameRest.defaults h.defaults (h.canonical.writtenAs h.bound).defaults).2
  policy := SameRest.policy h.policy (h.canonical.writtenAs h.bound).policy
  instances := by
    have hwritten : (entries (inv.toValue.member? "instances")) =
        inv.instances.map Instance.toValue := by
      change entries (Fields.get? inv.toFields "instances") = _
      rw [inv.get?_instances]
      rfl
    have hraw : List.Forall₂ (fun v i => IsInstance v i ∧ ChannelsOnce v)
        (entries ((Value.mapping fs).member? "instances")) inv.instances :=
      Outcome.forall₂_mono h.instances.entries fun v hv i hi =>
        ⟨hi, channelsOnce_of_wellFormed (hfs.of_mem_entries hv)⟩
    have hagain : List.Forall₂ (fun v i => IsInstance v i ∧ ChannelsOnce v)
        (inv.instances.map Instance.toValue) inv.instances :=
      forall₂_map_left fun i hi => ⟨⟨_, rfl, (h.canonical.instances i hi).writtenAs (h.bound i hi)⟩,
        channelsOnce_toValue (h.canonical.instances i hi)⟩
    rw [hwritten]
    refine forall₂_of_common hraw hagain ?_
    rintro v w i ⟨⟨m, rfl, hi⟩, honce⟩ ⟨⟨m', rfl, hi'⟩, honce'⟩
    exact SameRest.instance hi hi' honce honce'

/-- Whatever an admitted document holds is found in the records that are decoded from it, or is
written again where it stood. -/
theorem decoding_retains {tree : Tree} {dir : Path} {inv : Fleet.Inventory}
    (h : Inventory.ofValue? tree dir v = .ok inv) (hv : v.WellFormed) :
    inv.DecodedFrom v ∧ SameRest.Inventory v inv.toValue := by
  obtain ⟨fs, rfl, hwritten, -, -⟩ := ofValue?_eq_ok_iff.1 h
  exact ⟨hwritten.decodedFrom hv, SameRest.inventory hwritten hv⟩

theorem wellFormed_pairDocument : pairDocument.WellFormed := by
  simp [pairDocument, pairPaths, RolePaths.toFields, RolePaths.get, PathRole.all, PathRole.key,
    Value.WellFormed, Value.WellFormedFields, Value.WellFormedItems, Value.ofStrings, Value.ofNat,
    Fields.Distinct, Fields.keys]

theorem decoding_retains_pair :
    Inventory.ofValue? pairTree pairDir pairDocument = .ok pairFleet ∧
      pairDocument.WellFormed ∧ pairFleet.DecodedFrom pairDocument ∧
      SameRest.Inventory pairDocument pairFleet.toValue :=
  ⟨ofValue?_pair, wellFormed_pairDocument,
    decoding_retains ofValue?_pair wellFormed_pairDocument⟩

end Fleet

end GatewayFleet
