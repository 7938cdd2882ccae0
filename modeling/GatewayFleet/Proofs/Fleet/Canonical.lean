import GatewayFleet.Fleet.Document
import GatewayFleet.Proofs.Sorting
import GatewayFleet.Proofs.Fleet.Admission
import GatewayFleet.Proofs.Policy.Declaration

/-! Canonical records: the texts that have to be filled are, members that are kept without being
interpreted have none of the interpreted names, and channels and accounts are in order. Reading only
gives canonical records, and what a canonical record writes is a written form of it. The one thing
that a canonical agent may lack is a binding, without which it cannot be read again. -/

namespace GatewayFleet.Fleet

open Fields (Free)

def Filled (t : String) : Prop := Text.isAllBlank t = false

theorem filled?_string {t : String} (h : Filled t) : Section.filled? (some (.string t)) = some t :=
  Section.filled?_eq_some_iff.2 ⟨rfl, h⟩

theorem filled_of_filled? {v : Option Value} {t : String} (h : Section.filled? v = some t) :
    Filled t := (Section.filled?_eq_some_iff.1 h).2

theorem Optional.forall_mem {α : Type} {R : Value → α → Prop} {v : Option Value} {a : Option α}
    {P : α → Prop} (h : Optional R v a) (hR : ∀ v x, R v x → P x) : ∀ x ∈ a, P x := by
  intro x hx
  cases h with
  | absent | null => cases hx
  | given h =>
    cases hx
    exact hR _ _ h

theorem Optional.getD_cases {α : Type} {R : Value → α → Prop} {v : Option Value} {a : Option α}
    (h : Optional R v a) (d : α) : a.getD d = d ∨ ∃ w, R w (a.getD d) := by
  cases h with
  | absent | null => exact .inl rfl
  | given h => exact .inr ⟨_, h⟩

theorem Optional.of_map {α : Type} {R : Value → α → Prop} {f : α → Value} {a : Option α}
    (h : ∀ x ∈ a, R (f x) x) : Optional R (a.map f) a := by
  cases a with
  | none => exact .absent
  | some x => exact .given (h x rfl)

structure Defaults.Canonical (d : Defaults) : Prop where
  stride : ∀ n ∈ d.portStride, 1 ≤ n ∧ n ≤ strideLimit
  policy : ∀ f ∈ d.policy, f.Canonical
  extra : Free d.extra ["port_stride", "policy"]

theorem Defaults.WrittenAs.canonical {d : Defaults} {fs : Fields Value} (h : d.WrittenAs fs) :
    d.Canonical where
  stride := h.stride.forall_mem fun _ n hn => by
    obtain ⟨m, -, hpos, rfl⟩ := hn
    simp only [strideLimit]
    omega
  policy := h.policy.forall_mem fun _ _ => Policy.Fragment.canonical_of_ofValue?
  extra := h.extra ▸ Fields.free_without _ _

theorem asUnsigned?_ofNat {n : Nat} (h : n ≤ strideLimit) :
    (Value.ofNat n).asUnsigned? = some n := by
  have hlt : n < 0x10000000000000000 := by
    simp only [strideLimit] at h
    omega
  simp only [Value.ofNat, Value.asUnsigned?]
  rw [if_pos ⟨by omega, by omega⟩]
  rfl

theorem isFragment_toValue {f : Policy.Fragment} (h : f.Canonical) : IsFragment f.toValue f :=
  h.ofValue?_toValue

theorem Defaults.Canonical.writtenAs {d : Defaults} (h : d.Canonical) : d.WrittenAs d.toFields := by
  constructor
  · have hget : Fields.get? d.toFields "port_stride" = d.portStride.map .ofNat := by
      simp (disch := decide) [toFields, Fields.get?_append, Policy.get?_optional, h.extra.get?]
    rw [hget]
    refine .of_map fun n hn => ⟨n, asUnsigned?_ofNat (h.stride n hn).2, (h.stride n hn).1, ?_⟩
    exact (Nat.min_eq_left (h.stride n hn).2).symm
  · have hget : Fields.get? d.toFields "policy" = d.policy.map (·.toValue) := by
      simp (disch := decide) [toFields, Fields.get?_append, Policy.get?_optional, h.extra.get?]
    rw [hget]
    exact .of_map fun f hf => isFragment_toValue (h.policy f hf)
  · simp (disch := decide) only [toFields, Fields.without_append, Policy.without_optional,
      h.extra.without, List.nil_append]

structure Host.Canonical (h : Host) : Prop where
  port : 1 ≤ h.gatewayPort ∧ h.gatewayPort ≤ maxPort
  bind : ∀ t ∈ h.bind, Filled t
  extra : Free h.extra ["gateway_port", "bind"]

theorem port?_eq_some_iff {v : Option Value} {p : Nat} :
    port? v = some p ↔ v.bind Value.asUnsigned? = some p ∧ 1 ≤ p ∧ p ≤ maxPort := by
  unfold port?
  split
  · rename_i q hq
    split
    · rename_i hrange
      simp only [hq, Option.some.injEq]
      constructor
      · rintro rfl
        exact ⟨rfl, hrange⟩
      · exact And.left
    · rename_i hrange
      simp only [reduceCtorEq, hq, Option.some.injEq, false_iff, not_and]
      rintro rfl
      simpa using hrange
  · rename_i hnone
    simp [hnone]

theorem Host.WrittenAs.canonical {h : Host} {fs : Fields Value} (hw : h.WrittenAs fs) :
    h.Canonical where
  port := (port?_eq_some_iff.1 hw.port).2
  bind := hw.bind.forall_mem fun _ _ => filled_of_filled?
  extra := hw.extra ▸ Fields.free_without _ _

theorem Host.Canonical.writtenAs {h : Host} (hc : h.Canonical) : h.WrittenAs h.toFields := by
  constructor
  · have hget : Fields.get? h.toFields "gateway_port" = some (.ofNat h.gatewayPort) := rfl
    rw [hget]
    refine port?_eq_some_iff.2 ⟨?_, hc.port⟩
    rw [Option.bind_some]
    apply asUnsigned?_ofNat
    have hmax := hc.port.2
    simp only [maxPort] at hmax
    simp only [strideLimit]
    omega
  · have hget : Fields.get? h.toFields "bind" = h.bind.map .string := by
      simp (disch := decide) [toFields, Fields.get?_cons, Fields.get?_append, Policy.get?_optional,
        hc.extra.get?]
    rw [hget]
    exact .of_map fun t ht => filled?_string (hc.bind t ht)
  · simp (disch := decide) only [toFields, Fields.without_cons, Fields.without_append,
      Policy.without_optional, hc.extra.without, List.nil_append, List.cons_append]
    simp

structure RolePaths.Canonical (p : RolePaths) : Prop where
  texts : ∀ role, Filled (p.get role)
  extra : Free p.extra (PathRole.all.map (·.key))

theorem RolePaths.WrittenAs.canonical {p : RolePaths} {fs : Fields Value} (h : p.WrittenAs fs) :
    p.Canonical where
  texts := fun role => filled_of_filled? (h.texts role)
  extra := h.extra ▸ Fields.free_without _ _

theorem RolePaths.Canonical.writtenAs {p : RolePaths} (h : p.Canonical) :
    p.WrittenAs p.toFields := by
  constructor
  · intro role
    have hget : Fields.get? p.toFields role.key = some (.string (p.get role)) := by
      cases role <;> rfl
    rw [hget]
    exact filled?_string (h.texts role)
  · simp only [toFields, Fields.without_append, h.extra.without]
    rfl

structure RuntimeBlock.Canonical (b : RuntimeBlock) : Prop where
  layers : b.configLayers ≠ []
  extra : Free b.extra ["config_layers"]

theorem RuntimeBlock.WrittenAs.canonical {b : RuntimeBlock} {fs : Fields Value}
    (h : b.WrittenAs fs) : b.Canonical where
  layers := h.layers_ne_nil
  extra := h.extra ▸ Fields.free_without _ _

theorem RuntimeBlock.Canonical.writtenAs {b : RuntimeBlock} (h : b.Canonical) :
    b.WrittenAs b.toFields where
  layers := rfl
  layers_ne_nil := h.layers
  extra := by
    simp only [toFields, Fields.without_cons, h.extra.without]
    simp

structure Match.Canonical (m : Match) : Prop where
  channel : Filled m.channel
  account : Filled m.accountId
  extra : Free m.extra matchKeys

structure Binding.Canonical (b : Binding) : Prop where
  route : b.route.Canonical
  extra : Free b.extra ["match"]

theorem Match.WrittenAs.canonical {m : Match} {fs : Fields Value} (h : m.WrittenAs fs) :
    m.Canonical where
  channel := filled_of_filled? h.channel
  account := by
    have haccount := h.account
    cases hnew : Section.filled? (Fields.get? fs "accountId") with
    | some t =>
      rw [hnew] at haccount
      obtain rfl : t = m.accountId := Option.some.inj haccount
      exact filled_of_filled? hnew
    | none =>
      rw [hnew] at haccount
      exact filled_of_filled? haccount
  extra := h.extra ▸ Fields.free_without _ _

theorem Match.Canonical.writtenAs {m : Match} (h : m.Canonical) : m.WrittenAs m.toFields where
  channel := filled?_string h.channel
  account := by
    have hget : Fields.get? m.toFields "accountId" = some (.string m.accountId) := rfl
    rw [hget, filled?_string h.account]
    rfl
  extra := by
    simp only [toFields, Fields.without_append, h.extra.without]
    rfl

theorem Binding.WrittenAs.canonical {b : Binding} {v : Value} (h : b.WrittenAs v) :
    b.Canonical := by
  cases h with
  | mapping hroute hmatch hextra => exact ⟨hmatch.canonical, hextra ▸ Fields.free_without _ _⟩

theorem Binding.Canonical.writtenAs {b : Binding} (h : b.Canonical) :
    b.WrittenAs (.mapping b.toFields) := by
  refine .mapping rfl h.route.writtenAs ?_
  simp only [toFields, Fields.without_cons, h.extra.without]
  simp

structure Agent.Canonical (a : Agent) : Prop where
  id : Filled a.id
  bindings : ∀ b ∈ a.bindings, b.Canonical
  workspace : ∀ t ∈ a.workspace, Filled t
  agentDir : ∀ t ∈ a.agentDir, Filled t
  model : ∀ t ∈ a.model, Filled t
  policy : ∀ f ∈ a.policy, f.Canonical
  extra : Free a.extra agentKeys

theorem exists_of_forall₂_right {α β : Type} {R : α → β → Prop} {xs : List α} {ys : List β}
    (h : List.Forall₂ R xs ys) : ∀ y ∈ ys, ∃ x ∈ xs, R x y := by
  induction h with
  | nil => exact List.forall_mem_nil _
  | cons hxy _ ih =>
    refine List.forall_mem_cons.2 ⟨⟨_, List.mem_cons_self, hxy⟩, fun y hy => ?_⟩
    obtain ⟨x, hx, hR⟩ := ih y hy
    exact ⟨x, List.mem_cons_of_mem _ hx, hR⟩

theorem forall₂_map_left {α β : Type} {R : β → α → Prop} {f : α → β} {xs : List α}
    (h : ∀ x ∈ xs, R (f x) x) : List.Forall₂ R (xs.map f) xs := by
  rw [List.forall₂_map_left_iff, List.forall₂_same]
  exact h

theorem AreBindings.forall_canonical {bs : List Binding} {v : Option Value}
    (h : AreBindings bs v) : ∀ b ∈ bs, b.Canonical := by
  cases h with
  | list hne hitems =>
    intro b hb
    obtain ⟨v, -, hv⟩ := exists_of_forall₂_right hitems b hb
    exact hv.canonical

theorem Agent.WrittenAs.canonical {a : Agent} {fs : Fields Value} (h : a.WrittenAs fs) :
    a.Canonical where
  id := filled_of_filled? h.id
  bindings := h.bindings.forall_canonical
  workspace := h.workspace.forall_mem fun _ _ => filled_of_filled?
  agentDir := h.agentDir.forall_mem fun _ _ => filled_of_filled?
  model := h.model.forall_mem fun _ _ => filled_of_filled?
  policy := h.policy.forall_mem fun _ _ => Policy.Fragment.canonical_of_ofValue?
  extra := h.extra ▸ Fields.free_without _ _

theorem Agent.WrittenAs.bindings_ne_nil {a : Agent} {fs : Fields Value} (h : a.WrittenAs fs) :
    a.bindings ≠ [] := by
  intro hnil
  have hbindings := h.bindings
  rw [hnil] at hbindings
  generalize Fields.get? fs "bindings" = v at hbindings
  cases hbindings with
  | list hne hitems => exact hne (List.forall₂_nil_right_iff.1 hitems)

theorem get?_listUnlessEmpty (k k' : String) (xs : List String) :
    Fields.get? (listUnlessEmpty k xs) k' =
      if k = k' ∧ xs ≠ [] then some (.ofStrings xs) else none := by
  cases xs with
  | nil => simp [listUnlessEmpty]
  | cons x xs =>
    simp [listUnlessEmpty, Fields.get?_cons]

theorem areTexts_unlessEmpty (xs : List String) :
    ∃ r, Optional IsTexts (if xs ≠ [] then some (.ofStrings xs) else none) r ∧ r.getD [] = xs := by
  cases xs with
  | nil => exact ⟨none, .absent, rfl⟩
  | cons x xs => exact ⟨some (x :: xs), .given rfl, rfl⟩

theorem without_listUnlessEmpty {k : String} {known : List String} (xs : List String)
    (h : k ∈ known) : Fields.without (listUnlessEmpty k xs) known = [] := by
  cases xs with
  | nil => rfl
  | cons x xs => simp [listUnlessEmpty, Fields.without_cons, h]

theorem Agent.Canonical.writtenAs {a : Agent} (h : a.Canonical) (hbound : a.bindings ≠ []) :
    a.WrittenAs a.toFields where
  id := filled?_string h.id
  role := ⟨some a.role, .given ⟨a.role.name, rfl, by cases a.role <;> rfl⟩, rfl⟩
  bindings := by
    have hget : Fields.get? a.toFields "bindings" =
        some (.list (a.bindings.map fun b => .mapping b.toFields)) := by
      simp [toFields, Fields.get?_append, Fields.get?_cons, Policy.get?_optional]
    rw [hget]
    exact .list (by simpa using hbound) (forall₂_map_left fun b hb => (h.bindings b hb).writtenAs)
  workspace := by
    have hget : Fields.get? a.toFields "workspace" = a.workspace.map .string := by
      simp (disch := decide) [toFields, Fields.get?_append, Fields.get?_cons, Policy.get?_optional,
        get?_listUnlessEmpty, h.extra.get?]
    rw [hget]
    exact .of_map fun t ht => filled?_string (h.workspace t ht)
  agentDir := by
    have hget : Fields.get? a.toFields "agent_dir" = a.agentDir.map .string := by
      simp (disch := decide) [toFields, Fields.get?_append, Fields.get?_cons, Policy.get?_optional,
        get?_listUnlessEmpty, h.extra.get?]
    rw [hget]
    exact .of_map fun t ht => filled?_string (h.agentDir t ht)
  integrations := by
    have hget : Fields.get? a.toFields "integrations" =
        if a.integrations ≠ [] then some (.ofStrings a.integrations) else none := by
      simp (disch := decide) [toFields, Fields.get?_append, Fields.get?_cons, Policy.get?_optional,
        get?_listUnlessEmpty, h.extra.get?]
    rw [hget]
    exact areTexts_unlessEmpty a.integrations
  skills := by
    have hget : Fields.get? a.toFields "skills" =
        if a.skills ≠ [] then some (.ofStrings a.skills) else none := by
      simp (disch := decide) [toFields, Fields.get?_append, Fields.get?_cons, Policy.get?_optional,
        get?_listUnlessEmpty, h.extra.get?]
    rw [hget]
    exact areTexts_unlessEmpty a.skills
  skillSources := by
    have hget : Fields.get? a.toFields "skill_sources" = a.skillSources.map .ofStrings := by
      simp (disch := decide) [toFields, Fields.get?_append, Fields.get?_cons, Policy.get?_optional,
        get?_listUnlessEmpty, h.extra.get?]
    rw [hget]
    exact .of_map fun xs _ => rfl
  model := by
    have hget : Fields.get? a.toFields "model" = a.model.map .string := by
      simp (disch := decide) [toFields, Fields.get?_append, Fields.get?_cons, Policy.get?_optional,
        get?_listUnlessEmpty, h.extra.get?]
    rw [hget]
    exact .of_map fun t ht => filled?_string (h.model t ht)
  policy := by
    have hget : Fields.get? a.toFields "policy" = a.policy.map (·.toValue) := by
      simp (disch := decide) [toFields, Fields.get?_append, Fields.get?_cons, Policy.get?_optional,
        get?_listUnlessEmpty, h.extra.get?]
    rw [hget]
    exact .of_map fun f hf => isFragment_toValue (h.policy f hf)
  extra := by
    simp (disch := decide) only [toFields, Fields.without_append, Policy.without_optional,
      without_listUnlessEmpty, h.extra.without, List.append_nil]
    rfl

structure Channel.Canonical (c : Channel) : Prop where
  accounts : c.accounts.Sorted
  extra : Free c.extra ["accounts"]

theorem sorted_accountsOf (ids : List String) : (accountsOf ids).Sorted := by
  have hfold (acc : Fields Value) (h : acc.Sorted) :
      (ids.foldl (fun fs id => Fields.insertNew fs id Value.empty) acc).Sorted := by
    induction ids generalizing acc with
    | nil => exact h
    | cons id ids ih => exact ih _ (Fields.sorted_insertNew h id Value.empty)
  exact hfold [] List.Pairwise.nil

theorem AreAccounts.sorted {v : Value} {accounts : Fields Value} (h : AreAccounts v accounts) :
    accounts.Sorted := by
  cases h with
  | list ids => exact sorted_accountsOf ids
  | mapping fs => exact sorted_sortFields fs

theorem Channel.WrittenAs.canonical {c : Channel} {v : Value} (h : c.WrittenAs v) :
    c.Canonical := by
  cases h with
  | null => exact ⟨List.Pairwise.nil, Fields.free_nil _⟩
  | list ids => exact ⟨sorted_accountsOf ids, Fields.free_nil _⟩
  | mapping haccounts =>
    refine ⟨?_, Fields.free_without _ _⟩
    rcases haccounts.getD_cases [] with hnil | ⟨w, hw⟩
    · simp only [hnil]
      exact List.Pairwise.nil
    · exact hw.sorted

theorem get?_mappingUnlessEmpty (k k' : String) (ms : Fields Value) :
    Fields.get? (mappingUnlessEmpty k ms) k' =
      if k = k' ∧ ms ≠ [] then some (.mapping ms) else none := by
  cases ms with
  | nil => simp [mappingUnlessEmpty]
  | cons m ms => simp [mappingUnlessEmpty, Fields.get?_cons]

theorem without_mappingUnlessEmpty {k : String} {known : List String} (ms : Fields Value)
    (h : k ∈ known) : Fields.without (mappingUnlessEmpty k ms) known = [] := by
  cases ms with
  | nil => rfl
  | cons m ms => simp [mappingUnlessEmpty, Fields.without_cons, h]

theorem Channel.Canonical.writtenAs {c : Channel} (h : c.Canonical) :
    c.WrittenAs (.mapping c.toFields) := by
  have hget : Fields.get? c.toFields "accounts" =
      if c.accounts ≠ [] then some (.mapping c.accounts) else none := by
    simp (disch := decide) [toFields, Fields.get?_append, get?_mappingUnlessEmpty, h.extra.get?]
  have hextra : Fields.without c.toFields ["accounts"] = c.extra := by
    simp (disch := decide) only [toFields, Fields.without_append, without_mappingUnlessEmpty,
      h.extra.without, List.nil_append]
  have haccounts : ∃ r, Optional AreAccounts (Fields.get? c.toFields "accounts") r ∧
      r.getD [] = c.accounts := by
    rw [hget]
    by_cases hne : c.accounts = []
    · rw [if_neg (not_not.2 hne)]
      exact ⟨none, .absent, hne.symm⟩
    · rw [if_pos hne]
      have hsorted := AreAccounts.mapping c.accounts
      rw [sortFields_of_sorted h.accounts] at hsorted
      exact ⟨some c.accounts, .given hsorted, rfl⟩
  obtain ⟨r, hr, hc⟩ := haccounts
  have hwritten := Channel.WrittenAs.mapping hr
  rw [hc, hextra] at hwritten
  exact hwritten

structure ChannelsCanonical (cs : Fields Channel) : Prop where
  sorted : cs.Sorted
  channels : ∀ m ∈ cs, m.2.Canonical

theorem channelsCanonical_nil : ChannelsCanonical [] := ⟨List.Pairwise.nil, List.forall_mem_nil _⟩

theorem AreChannels.canonical {v : Value} {cs : Fields Channel} (h : AreChannels v cs) :
    ChannelsCanonical cs := by
  obtain ⟨fs, found, -, hfound, rfl⟩ := h
  refine ⟨sorted_sortFields found, fun m hm => ?_⟩
  obtain ⟨n, -, -, hn⟩ := exists_of_forall₂_right hfound m (mem_sortFields hm)
  exact hn.canonical

theorem ChannelsCanonical.writtenAs {cs : Fields Channel} (h : ChannelsCanonical cs) :
    AreChannels (.mapping (channelsToFields cs)) cs :=
  ⟨_, cs, rfl, forall₂_map_left fun m hm => ⟨rfl, (h.channels m hm).writtenAs⟩,
    (sortFields_of_sorted h.sorted).symm⟩

theorem channelsToFields_distinct {cs : Fields Channel} (h : ChannelsCanonical cs) :
    (channelsToFields cs).Distinct := by
  have hkeys : (channelsToFields cs).keys = cs.keys := by
    simp [channelsToFields, Fields.keys, Function.comp_def]
  rw [Fields.Distinct, hkeys]
  exact h.sorted.distinct

structure Instance.Canonical (i : Instance) : Prop where
  id : Filled i.id
  host : i.host.Canonical
  paths : i.paths.Canonical
  runtime : i.runtime.Canonical
  agents : ∀ a ∈ i.agents, a.Canonical
  channels : ChannelsCanonical i.channels
  policy : ∀ f ∈ i.policy, f.Canonical
  extra : Free i.extra instanceKeys

def Instance.Bound (i : Instance) : Prop := ∀ a ∈ i.agents, a.bindings ≠ []

theorem Instance.WrittenAs.agents_forall {i : Instance} {fs : Fields Value} (h : i.WrittenAs fs) :
    ∀ a ∈ i.agents, ∃ gs, a.WrittenAs gs := by
  intro a ha
  obtain ⟨r, hr, heq⟩ := h.agents
  rcases hr.getD_cases [] with hnil | ⟨w, items, -, hitems⟩
  · rw [← heq, hnil] at ha
    cases ha
  · obtain ⟨v, -, gs, -, hgs⟩ := exists_of_forall₂_right hitems a (heq ▸ ha)
    exact ⟨gs, hgs⟩

theorem Instance.WrittenAs.canonical {i : Instance} {fs : Fields Value} (h : i.WrittenAs fs) :
    i.Canonical where
  id := filled_of_filled? h.id
  host := by
    obtain ⟨m, -, hm⟩ := h.host
    exact hm.canonical
  paths := by
    obtain ⟨m, -, hm⟩ := h.paths
    exact hm.canonical
  runtime := by
    obtain ⟨m, -, hm⟩ := h.runtime
    exact hm.canonical
  agents := fun a ha => by
    obtain ⟨gs, hgs⟩ := h.agents_forall a ha
    exact hgs.canonical
  channels := by
    obtain ⟨r, hr, heq⟩ := h.channels
    rcases hr.getD_cases [] with hnil | ⟨w, hw⟩
    · rw [← heq, hnil]
      exact channelsCanonical_nil
    · exact heq ▸ hw.canonical
  policy := h.policy.forall_mem fun _ _ => Policy.Fragment.canonical_of_ofValue?
  extra := h.extra ▸ Fields.free_without _ _

theorem Instance.WrittenAs.bound {i : Instance} {fs : Fields Value} (h : i.WrittenAs fs) :
    i.Bound := by
  intro a ha
  obtain ⟨gs, hgs⟩ := h.agents_forall a ha
  exact hgs.bindings_ne_nil

theorem Instance.Canonical.get?_channels {i : Instance} (h : i.Canonical) :
    Fields.get? i.toFields "channels" =
      if i.channels ≠ [] then some (.mapping (channelsToFields i.channels)) else none := by
  simp (disch := decide) [toFields, Fields.get?_append, Fields.get?_cons, Policy.get?_optional,
    get?_mappingUnlessEmpty, h.extra.get?, channelsToFields]

theorem Instance.Canonical.writtenAs {i : Instance} (h : i.Canonical) (hbound : i.Bound) :
    i.WrittenAs i.toFields where
  id := filled?_string h.id
  host := ⟨_, rfl, h.host.writtenAs⟩
  paths := ⟨_, rfl, h.paths.writtenAs⟩
  runtime := ⟨_, rfl, h.runtime.writtenAs⟩
  agents := ⟨some i.agents, .given ⟨_, rfl, forall₂_map_left fun a ha =>
    ⟨_, rfl, (h.agents a ha).writtenAs (hbound a ha)⟩⟩, rfl⟩
  channels := by
    rw [h.get?_channels]
    by_cases hne : i.channels = []
    · rw [if_neg (not_not.2 hne)]
      exact ⟨none, .absent, hne.symm⟩
    · rw [if_pos hne]
      exact ⟨some i.channels, .given h.channels.writtenAs, rfl⟩
  policy := by
    have hget : Fields.get? i.toFields "policy" = i.policy.map (·.toValue) := by
      simp (disch := decide) [toFields, Fields.get?_append, Fields.get?_cons, Policy.get?_optional,
        get?_mappingUnlessEmpty, h.extra.get?]
    rw [hget]
    exact .of_map fun f hf => isFragment_toValue (h.policy f hf)
  extra := by
    simp (disch := decide) only [toFields, Fields.without_append, Policy.without_optional,
      without_mappingUnlessEmpty, h.extra.without, List.append_nil]
    rfl

structure Inventory.Canonical (inv : Inventory) : Prop where
  version : inv.version = supportedVersion
  defaults : inv.defaults.Canonical
  policy : ∀ f ∈ inv.policy, f.Canonical
  instances_ne_nil : inv.instances ≠ []
  instances : ∀ i ∈ inv.instances, i.Canonical
  extra : Free inv.extra rootKeys

def Inventory.Bound (inv : Inventory) : Prop := ∀ i ∈ inv.instances, i.Bound

theorem AreInstances.exists_fields {instances : List Instance} {v : Option Value}
    (h : AreInstances instances v) :
    instances ≠ [] ∧ ∀ i ∈ instances, ∃ fs, i.WrittenAs fs := by
  cases h with
  | list hne hitems =>
    constructor
    · rintro rfl
      exact hne (List.forall₂_nil_right_iff.1 hitems)
    · intro i hi
      obtain ⟨v, -, fs, -, hfs⟩ := exists_of_forall₂_right hitems i hi
      exact ⟨fs, hfs⟩

theorem defaults_canonical_empty : Defaults.Canonical {} := ⟨by simp, by simp, Fields.free_nil _⟩

theorem Inventory.WrittenAs.canonical {inv : Inventory} {fs : Fields Value}
    (h : inv.WrittenAs fs) : inv.Canonical where
  version := h.version
  defaults := by
    obtain ⟨r, hr, heq⟩ := h.defaults
    rcases hr.getD_cases {} with hempty | ⟨w, gs, -, hgs⟩
    · rw [← heq, hempty]
      exact defaults_canonical_empty
    · exact heq ▸ hgs.canonical
  policy := h.policy.forall_mem fun _ _ => Policy.Fragment.canonical_of_ofValue?
  instances_ne_nil := h.instances.exists_fields.1
  instances := fun i hi => by
    obtain ⟨gs, hgs⟩ := h.instances.exists_fields.2 i hi
    exact hgs.canonical
  extra := h.extra ▸ Fields.free_without _ _

theorem Inventory.WrittenAs.bound {inv : Inventory} {fs : Fields Value} (h : inv.WrittenAs fs) :
    inv.Bound := by
  intro i hi
  obtain ⟨gs, hgs⟩ := h.instances.exists_fields.2 i hi
  exact hgs.bound

theorem Defaults.eq_empty_of_toFields {d : Defaults} (h : d.toFields = []) : d = {} := by
  cases d with
  | mk stride policy extra =>
    cases stride <;> cases policy <;> cases extra <;> simp_all [toFields, Policy.optional]

theorem Inventory.get?_instances (inv : Inventory) :
    Fields.get? inv.toFields "instances" = some (.list (inv.instances.map Instance.toValue)) := by
  simp [toFields, Fields.get?_append, Fields.get?_cons, Policy.get?_optional,
    get?_mappingUnlessEmpty]

/-- What a canonical inventory writes is a written form of it, if all its agents have bindings. -/
theorem Inventory.Canonical.writtenAs {inv : Inventory} (h : inv.Canonical) (hbound : inv.Bound) :
    inv.WrittenAs inv.toFields where
  supported := by
    have hget : Fields.get? inv.toFields "version" = some (.ofNat inv.version) := rfl
    rw [hget, h.version]
    rfl
  version := h.version
  defaults := by
    have hget : Fields.get? inv.toFields "defaults" =
        if inv.defaults.toFields ≠ [] then some (.mapping inv.defaults.toFields) else none := by
      simp (disch := decide) [toFields, Fields.get?_append, Fields.get?_cons, Policy.get?_optional,
        get?_mappingUnlessEmpty, h.extra.get?]
    rw [hget]
    by_cases hne : inv.defaults.toFields = []
    · rw [if_neg (not_not.2 hne)]
      exact ⟨none, .absent, (Defaults.eq_empty_of_toFields hne).symm⟩
    · rw [if_pos hne]
      exact ⟨some inv.defaults, .given ⟨_, rfl, h.defaults.writtenAs⟩, rfl⟩
  policy := by
    have hget : Fields.get? inv.toFields "policy" = inv.policy.map (·.toValue) := by
      simp (disch := decide) [toFields, Fields.get?_append, Fields.get?_cons, Policy.get?_optional,
        get?_mappingUnlessEmpty, h.extra.get?]
    rw [hget]
    exact .of_map fun f hf => isFragment_toValue (h.policy f hf)
  instances := by
    rw [inv.get?_instances]
    exact .list (by simpa using h.instances_ne_nil) (forall₂_map_left fun i hi =>
      ⟨_, rfl, (h.instances i hi).writtenAs (hbound i hi)⟩)
  extra := by
    simp (disch := decide) only [toFields, Fields.without_cons, Fields.without_append,
      Policy.without_optional, without_mappingUnlessEmpty, h.extra.without, List.nil_append,
      List.cons_append]
    simp [rootKeys]

end GatewayFleet.Fleet
