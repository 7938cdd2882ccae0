import GatewayFleet.Command.Run
import GatewayFleet.Proofs.Fleet.Loading
import GatewayFleet.Proofs.Outcome
import GatewayFleet.Proofs.Text.Trimming

/-! Inventories that are written and read again. Operations on the agents and accounts of instances
keep an inventory canonical, though they may leave an agent without bindings; what is read back from
the written form of a canonical inventory, if it is admitted at all, is that inventory. -/

namespace GatewayFleet.Fleet

open Relator (RightUnique)

section

variable {α : Type} {R : Value → α → Prop} {fs : Fields Value}

theorem Optional.rightUnique (hR : RightUnique R) (hnull : ∀ a, ¬ R .null a) :
    RightUnique (Optional R) := by
  intro v a b ha hb
  cases ha with
  | absent =>
    cases hb with
    | absent => rfl
  | null =>
    cases hb with
    | null => rfl
    | given h => exact absurd h (hnull _)
  | given h =>
    cases hb with
    | null => exact absurd h (hnull _)
    | given h' => rw [hR h h']

theorem Optional.getD_unique {v : Option Value} {d x y : α} (hR : RightUnique R)
    (hnull : ∀ a, ¬ R .null a) (hx : ∃ r, Optional R v r ∧ r.getD d = x)
    (hy : ∃ r, Optional R v r ∧ r.getD d = y) : x = y := by
  obtain ⟨r, hr, rfl⟩ := hx
  obtain ⟨r', hr', rfl⟩ := hy
  rw [Optional.rightUnique hR hnull hr hr']

/-- A relation to written mappings is as unique as the one to their members. -/
theorem rightUnique_mapping {S : α → Fields Value → Prop}
    (hS : ∀ {fs a b}, S a fs → S b fs → a = b) :
    RightUnique fun v a => ∃ fs, v = Value.mapping fs ∧ S a fs := by
  intro v a b ha hb
  obtain ⟨fs, rfl, ha⟩ := ha
  obtain ⟨gs, hgs, hb⟩ := hb
  cases hgs
  exact hS ha hb

theorem eq_of_eq_pure {x : Checked (Option α)} {a b : α} (ha : x = pure (some a))
    (hb : x = pure (some b)) : a = b :=
  Option.some.inj (Checked.pure_eq_pure_iff.1 (ha.symm.trans hb))

theorem rightUnique_isFragment : RightUnique IsFragment :=
  fun _ _ _ hf hg => Except.ok.inj (hf.symm.trans hg)

theorem not_isFragment_null (f : Policy.Fragment) : ¬ IsFragment .null f := by
  simp [IsFragment, Policy.Fragment.ofValue?]

theorem Defaults.WrittenAs.unique {d e : Defaults} (hd : d.WrittenAs fs) (he : e.WrittenAs fs) :
    d = e :=
  Checked.pure_eq_pure_iff.1 ((read_eq_pure_iff.2 (.inr ⟨fs, rfl, hd⟩)).symm.trans
    (read_eq_pure_iff.2 (.inr ⟨fs, rfl, he⟩)))

theorem Host.WrittenAs.unique {h h' : Host} (hh : h.WrittenAs fs) (hh' : h'.WrittenAs fs) :
    h = h' :=
  eq_of_eq_pure (x := Host.read ⟨fs, []⟩) (read_eq_pure_iff.2 ⟨h, rfl, hh⟩)
    (read_eq_pure_iff.2 ⟨h', rfl, hh'⟩)

theorem RolePaths.WrittenAs.unique {p q : RolePaths} (hp : p.WrittenAs fs) (hq : q.WrittenAs fs) :
    p = q :=
  eq_of_eq_pure (x := RolePaths.read ⟨fs, []⟩) (read_eq_pure_iff.2 ⟨p, rfl, hp⟩)
    (read_eq_pure_iff.2 ⟨q, rfl, hq⟩)

theorem RuntimeBlock.WrittenAs.unique {b c : RuntimeBlock} (hb : b.WrittenAs fs)
    (hc : c.WrittenAs fs) : b = c :=
  eq_of_eq_pure (x := RuntimeBlock.read ⟨[("runtime", .mapping fs)], []⟩)
    (read_eq_pure_iff.2 ⟨b, fs, rfl, rfl, hb⟩) (read_eq_pure_iff.2 ⟨c, fs, rfl, rfl, hc⟩)

theorem Agent.WrittenAs.unique {a b : Agent} (ha : a.WrittenAs fs) (hb : b.WrittenAs fs) :
    a = b :=
  eq_of_eq_pure (x := Agent.read ⟨fs, []⟩) (read_eq_pure_iff.2 ⟨a, rfl, ha⟩)
    (read_eq_pure_iff.2 ⟨b, rfl, hb⟩)

theorem Channel.WrittenAs.unique {c d : Channel} {v : Value} (hc : c.WrittenAs v)
    (hd : d.WrittenAs v) : c = d :=
  eq_of_eq_pure (x := Channel.read [] v) (read_eq_pure_iff.2 ⟨c, rfl, hc⟩)
    (read_eq_pure_iff.2 ⟨d, rfl, hd⟩)

theorem rightUnique_isAgent : RightUnique IsAgent :=
  rightUnique_mapping (S := Agent.WrittenAs) Agent.WrittenAs.unique

theorem rightUnique_areAgents : RightUnique AreAgents := by
  intro v as bs ha hb
  obtain ⟨items, rfl, ha⟩ := ha
  obtain ⟨items', hitems, hb⟩ := hb
  cases hitems
  exact List.right_unique_forall₂' rightUnique_isAgent ha hb

theorem rightUnique_areChannels : RightUnique AreChannels := by
  intro v cs ds hc hd
  obtain ⟨fs, found, rfl, hfound, rfl⟩ := hc
  obtain ⟨gs, found', hgs, hfound', rfl⟩ := hd
  cases hgs
  have hmember : RightUnique fun (m : String × Value) (n : String × Channel) =>
      m.1 = n.1 ∧ n.2.WrittenAs m.2 := by
    intro m n n' hn hn'
    exact Prod.ext (hn.1.symm.trans hn'.1) (hn.2.unique hn'.2)
  rw [List.right_unique_forall₂' hmember hfound hfound']

theorem Instance.WrittenAs.unique {i j : Instance} (hi : i.WrittenAs fs) (hj : j.WrittenAs fs) :
    i = j := by
  -- the reader of instances also looks at what others claim, so the members are compared here
  have hid : i.id = j.id := Option.some.inj (hi.id.symm.trans hj.id)
  have hhost : i.host = j.host := by
    obtain ⟨m, hm, hi⟩ := hi.host
    obtain ⟨n, hn, hj⟩ := hj.host
    cases hm.symm.trans hn
    exact hi.unique hj
  have hpaths : i.paths = j.paths := by
    obtain ⟨m, hm, hi⟩ := hi.paths
    obtain ⟨n, hn, hj⟩ := hj.paths
    cases hm.symm.trans hn
    exact hi.unique hj
  have hruntime : i.runtime = j.runtime := by
    obtain ⟨m, hm, hi⟩ := hi.runtime
    obtain ⟨n, hn, hj⟩ := hj.runtime
    cases hm.symm.trans hn
    exact hi.unique hj
  have hagents : i.agents = j.agents :=
    Optional.getD_unique rightUnique_areAgents (by simp [AreAgents]) hi.agents hj.agents
  have hchannels : i.channels = j.channels :=
    Optional.getD_unique rightUnique_areChannels (by simp [AreChannels]) hi.channels hj.channels
  have hpolicy : i.policy = j.policy :=
    Optional.rightUnique rightUnique_isFragment not_isFragment_null hi.policy hj.policy
  have hextra : i.extra = j.extra := hi.extra.trans hj.extra.symm
  cases i
  cases j
  simp_all

theorem rightUnique_isInstance : RightUnique IsInstance :=
  rightUnique_mapping (S := Instance.WrittenAs) Instance.WrittenAs.unique

theorem rightUnique_areDefaults : RightUnique AreDefaults :=
  rightUnique_mapping (S := Defaults.WrittenAs) Defaults.WrittenAs.unique

theorem Inventory.WrittenAs.unique {inv inv' : Inventory} (h : inv.WrittenAs fs)
    (h' : inv'.WrittenAs fs) : inv = inv' := by
  have hversion : inv.version = inv'.version := h.version.trans h'.version.symm
  have hdefaults : inv.defaults = inv'.defaults :=
    Optional.getD_unique rightUnique_areDefaults (by simp [AreDefaults]) h.defaults h'.defaults
  have hpolicy : inv.policy = inv'.policy :=
    Optional.rightUnique rightUnique_isFragment not_isFragment_null h.policy h'.policy
  have hinstances : inv.instances = inv'.instances := by
    have hitems := h.instances
    have hitems' := h'.instances
    generalize Fields.get? fs "instances" = v at hitems hitems'
    cases hitems with
    | list _ hitems =>
      cases hitems' with
      | list _ hitems' =>
        exact List.right_unique_forall₂' rightUnique_isInstance hitems hitems'
  have hextra : inv.extra = inv'.extra := h.extra.trans h'.extra.symm
  cases inv
  cases inv'
  simp_all

end

inductive Operation
  | add (spec : AgentSpec)
  | remove (id : String) (pruned : Bool)
  | register (channel account : String)
  | prune

def Operation.apply : Operation → Instance → Except Failure Instance
  | .add spec, i => i.addAgent spec
  | .remove id pruned, i => (i.removeAgent id pruned).map (·.2)
  | .register channel account, i => .ok (i.register channel account)
  | .prune, i => .ok i.prune

/-- The inventory after an operation on the instance of that identifier. An operation that fails, or
finds no instance, changes nothing. -/
def Inventory.after (inv : Inventory) (instanceId : String) (op : Operation) : Inventory :=
  match inv.find? instanceId with
  | none => inv
  | some i => match op.apply i with
    | .error _ => inv
    | .ok changed => inv.setInstance instanceId changed

def Inventory.afterAll (inv : Inventory) (ops : List (String × Operation)) : Inventory :=
  ops.foldl (fun inv op => inv.after op.1 op.2) inv

variable {i : Instance} {channel account : String}

theorem channelCanonical_get? {cs : Fields Channel} (h : ChannelsCanonical cs) (name : String) :
    ((Fields.get? cs name).getD {}).Canonical := by
  cases hget : Fields.get? cs name with
  | none => exact ⟨List.Pairwise.nil, Fields.free_nil _⟩
  | some c => exact h.channels _ (Fields.mem_of_get? hget)

theorem ChannelsCanonical.registerAccount {cs : Fields Channel} (h : ChannelsCanonical cs)
    (channel account : String) : ChannelsCanonical (registerAccount cs channel account) where
  sorted := Fields.sorted_insert h.sorted _ _
  channels := by
    intro m hm
    have hold := channelCanonical_get? h channel
    rcases Fields.mem_insert hm with rfl | hm
    · exact ⟨Fields.sorted_insertNew hold.accounts _ _, hold.extra⟩
    · exact h.channels m hm

theorem Channel.Canonical.keep {c : Channel} (h : c.Canonical) (used : List String)
    (name : String) : (c.keep used name).Canonical where
  accounts := List.Pairwise.sublist (List.filter_sublist.map _) h.accounts
  extra := h.extra

theorem Instance.Canonical.register (h : i.Canonical) (channel account : String) :
    (i.register channel account).Canonical :=
  { h with channels := h.channels.registerAccount channel account }

theorem Instance.Canonical.prune (h : i.Canonical) : i.prune.Canonical := by
  refine { h with channels := ⟨?_, ?_⟩ }
  · have hkeys : Fields.keys i.prune.channels = Fields.keys i.channels := by
      simp [Instance.prune, Fields.keys, Function.comp_def]
    rw [Fields.Sorted, hkeys]
    exact h.channels.sorted
  · intro m hm
    obtain ⟨n, hn, rfl⟩ := List.mem_map.1 hm
    exact (h.channels.channels n hn).keep _ _

theorem Filled.append_right {t : String} (h : Filled t) (s : String) : Filled (s ++ t) := by
  rw [Filled, Text.isAllBlank] at h ⊢
  rw [String.toList_append, List.all_append, h, Bool.and_false]

structure Account.Filled (a : Account) : Prop where
  channel : Fleet.Filled a.channel
  account : Fleet.Filled a.account

theorem Account.filled_of_parse {text : String} {a : Account} (h : Account.parse text = .ok a) :
    a.Filled := by
  unfold Account.parse at h
  split at h
  · cases h
  · simp only at h
    split at h
    · cases h
    · rename_i hne
      obtain rfl := Except.ok.inj h
      rw [not_or] at hne
      exact ⟨Text.isAllBlank_trim hne.1, Text.isAllBlank_trim hne.2⟩

theorem filled_of_modelOf {model : Option String} : ∀ t ∈ modelOf model, Filled t := by
  intro t ht
  unfold modelOf at ht
  split at ht
  · cases ht
  · cases ht
  · rename_i name hblank hname
    obtain rfl : name = t := Option.some.inj ht
    obtain ⟨text, -, rfl⟩ := Option.map_eq_some_iff.1 hname
    exact Text.isAllBlank_trim hblank

theorem AgentSpec.canonical_agent (spec : AgentSpec) {id : String} {accounts : List Account}
    (hid : Filled id) (haccounts : ∀ a ∈ accounts, a.Filled) :
    (spec.agent id accounts).Canonical where
  id := hid
  bindings := by
    intro b hb
    obtain ⟨a, ha, rfl⟩ := List.mem_map.1 hb
    exact ⟨⟨(haccounts a ha).channel, (haccounts a ha).account, Fields.free_nil _⟩,
      Fields.free_nil _⟩
  workspace := by
    intro t ht
    obtain rfl : id = t := Option.some.inj ht
    exact hid
  agentDir := by
    intro t ht
    obtain rfl : "agents/" ++ id = t := Option.some.inj ht
    exact hid.append_right _
  model := filled_of_modelOf
  policy := by simp [AgentSpec.agent]
  extra := Fields.free_nil _

theorem Instance.Canonical.registerAll (h : i.Canonical) (accounts : List Account) :
    (accounts.foldl (fun i a => i.register a.channel a.account) i).Canonical := by
  induction accounts generalizing i with
  | nil => exact h
  | cons a accounts ih => exact ih (h.register a.channel a.account)

theorem Instance.Canonical.addAgent (h : i.Canonical) {spec : AgentSpec} {changed : Instance}
    (hadd : i.addAgent spec = .ok changed) : changed.Canonical := by
  unfold Instance.addAgent at hadd
  simp only at hadd
  split at hadd
  · cases hadd
  · rename_i hid
    split at hadd
    · cases hadd
    · cases haccounts : spec.accounts.mapM Account.parse with
      | error e =>
        rw [haccounts] at hadd
        cases hadd
      | ok accounts =>
        rw [haccounts] at hadd
        obtain rfl := Except.ok.inj hadd
        have hparsed := exists_of_forall₂_right (Outcome.mapM_eq_ok_iff.1 haccounts)
        have hagent := spec.canonical_agent (Text.isAllBlank_trim hid) fun a ha => by
          obtain ⟨text, -, htext⟩ := hparsed a ha
          exact Account.filled_of_parse htext
        have hregistered := h.registerAll accounts
        refine { hregistered with agents := fun a ha => ?_ }
        rcases List.mem_append.1 ha with ha | ha
        · exact hregistered.agents a ha
        · rw [List.mem_singleton.1 ha]
          exact hagent

theorem Instance.Canonical.removeAgent (h : i.Canonical) {id : String} {pruned : Bool}
    {out : Agent × Instance} (hremove : i.removeAgent id pruned = .ok out) : out.2.Canonical := by
  unfold Instance.removeAgent at hremove
  split at hremove
  · cases hremove
  · obtain rfl := Except.ok.inj hremove
    have hleft : Instance.Canonical { i with agents := i.agents.eraseP (·.id = id) } :=
      { h with agents := fun a ha => h.agents a (List.mem_of_mem_eraseP ha) }
    cases pruned with
    | false => exact hleft
    | true => exact hleft.prune

theorem Instance.Canonical.apply (h : i.Canonical) {op : Operation} {changed : Instance}
    (hop : op.apply i = .ok changed) : changed.Canonical := by
  cases op with
  | add spec =>
    replace hop : i.addAgent spec = .ok changed := hop
    exact h.addAgent hop
  | remove id pruned =>
    obtain ⟨out, hout, rfl⟩ := Outcome.map_eq_ok hop
    exact h.removeAgent hout
  | register channel account =>
    obtain rfl := Except.ok.inj hop
    exact h.register channel account
  | prune =>
    obtain rfl := Except.ok.inj hop
    exact h.prune

theorem mem_replaceFirst {α : Type} {test : α → Bool} {x new : α} {xs : List α}
    (h : x ∈ replaceFirst test new xs) : x = new ∨ x ∈ xs := by
  induction xs with
  | nil => exact absurd h List.not_mem_nil
  | cons y ys ih =>
    unfold replaceFirst at h
    split at h
    · exact (List.mem_cons.1 h).imp id (List.mem_cons_of_mem _)
    · rcases List.mem_cons.1 h with rfl | h
      · exact .inr List.mem_cons_self
      · exact (ih h).imp id (List.mem_cons_of_mem _)

theorem replaceFirst_ne_nil {α : Type} {test : α → Bool} {new : α} {xs : List α} (h : xs ≠ []) :
    replaceFirst test new xs ≠ [] := by
  cases xs with
  | nil => exact absurd rfl h
  | cons y ys =>
    unfold replaceFirst
    split <;> exact List.cons_ne_nil _ _

variable {inv : Inventory}

theorem Inventory.Canonical.setInstance (h : inv.Canonical) (hi : i.Canonical) (id : String) :
    (inv.setInstance id i).Canonical :=
  { h with
    instances_ne_nil := replaceFirst_ne_nil h.instances_ne_nil
    instances := fun j hj => by
      rcases mem_replaceFirst hj with rfl | hj
      · exact hi
      · exact h.instances j hj }

theorem Inventory.Canonical.after (h : inv.Canonical) (instanceId : String) (op : Operation) :
    (inv.after instanceId op).Canonical := by
  unfold Inventory.after
  split
  · exact h
  · rename_i i hfind
    split
    · exact h
    · rename_i changed hop
      have hi := h.instances i (List.mem_of_find?_eq_some hfind)
      exact h.setInstance (hi.apply hop) instanceId

theorem Inventory.Canonical.afterAll (h : inv.Canonical) (ops : List (String × Operation)) :
    (inv.afterAll ops).Canonical := by
  induction ops generalizing inv with
  | nil => exact h
  | cons op ops ih => exact ih (h.after op.1 op.2)

theorem Agent.bound_of_writtenAs {a found : Agent} (h : found.WrittenAs a.toFields) :
    a.bindings ≠ [] := by
  have hget : Fields.get? a.toFields "bindings" =
      some (.list (a.bindings.map fun b => .mapping b.toFields)) := by
    simp [toFields, Fields.get?_append, Fields.get?_cons, Policy.get?_optional]
  have hbindings := h.bindings
  rw [hget] at hbindings
  cases hbindings with
  | list hne _ => simpa using hne

theorem forall_of_forall₂_map {α β γ : Type} {R : β → γ → Prop} {f : α → β} {xs : List α}
    {ys : List γ} (h : List.Forall₂ R (xs.map f) ys) : ∀ x ∈ xs, ∃ y, R (f x) y := by
  intro x hx
  rw [List.forall₂_map_left_iff] at h
  obtain ⟨y, -, hy⟩ := exists_of_forall₂_right h.flip x hx
  exact ⟨y, hy⟩

theorem Instance.bound_of_writtenAs {found : Instance} (h : found.WrittenAs i.toFields) :
    i.Bound := by
  intro a ha
  have hget : Fields.get? i.toFields "agents" = some (.list (i.agents.map Agent.toValue)) := rfl
  obtain ⟨r, hr, -⟩ := h.agents
  rw [hget] at hr
  cases hr with
  | given hr =>
    obtain ⟨items, hitems, hall⟩ := hr
    cases hitems
    obtain ⟨b, fs, hfs, hb⟩ := forall_of_forall₂_map hall a ha
    cases hfs
    exact Agent.bound_of_writtenAs hb

theorem Inventory.bound_of_writtenAs {found : Inventory} (h : found.WrittenAs inv.toFields) :
    inv.Bound := by
  intro i hi
  have hget : Fields.get? inv.toFields "instances" =
      some (.list (inv.instances.map Instance.toValue)) := by
    simp [toFields, Fields.get?_append, Fields.get?_cons, Policy.get?_optional,
      get?_mappingUnlessEmpty]
  have hinstances := h.instances
  rw [hget] at hinstances
  cases hinstances with
  | list _ hall =>
    obtain ⟨j, fs, hfs, hj⟩ := forall_of_forall₂_map hall i hi
    cases hfs
    exact Instance.bound_of_writtenAs hj

variable {tree : Tree} {dir : Path}

theorem Inventory.Canonical.eq_of_ofValue? (h : inv.Canonical) {found : Inventory}
    (hfound : Inventory.ofValue? tree dir inv.toValue = .ok found) : found = inv := by
  obtain ⟨fs, hfs, hwritten, -, -⟩ := ofValue?_eq_ok_iff.1 hfound
  cases hfs
  -- an agent without bindings is written like any other, but then nothing would have been found
  exact hwritten.unique (h.writtenAs (inv.bound_of_writtenAs hwritten))

theorem exists_of_load {p : Path} (h : load tree p = .ok inv) :
    ∃ v, Inventory.ofValue? tree p.directory v = .ok inv := by
  obtain ⟨v, -, hv⟩ := Outcome.bind_eq_ok h
  exact ⟨v, Outcome.mapError_eq_ok hv⟩

theorem changed_eq_ok_iff {p : Path} {instanceId : String}
    {change : Instance → Except Failure Instance} {again : Inventory} :
    Command.changed tree p instanceId change = .ok again ↔
      ∃ inv i j, load tree p = .ok inv ∧ inv.find? instanceId = some i ∧ change i = .ok j ∧
        Inventory.ofValue? tree p.directory (inv.setInstance instanceId j).toValue = .ok again ∧
        again.comply = .ok () := by
  constructor
  · intro h
    obtain ⟨inv, hload, h⟩ := Outcome.bind_eq_ok h
    obtain ⟨i, hfind, h⟩ := Outcome.bind_eq_ok h
    obtain ⟨j, hchange, h⟩ := Outcome.bind_eq_ok h
    obtain ⟨found, haccept, h⟩ := Outcome.bind_eq_ok h
    obtain ⟨_, hcomply, h⟩ := Outcome.bind_eq_ok h
    obtain rfl := Except.ok.inj h
    exact ⟨inv, i, j, hload, Inventory.instance?_eq_ok_iff.1 hfind, hchange,
      Outcome.mapError_eq_ok haccept, hcomply⟩
  · rintro ⟨inv, i, j, hload, hfind, hchange, hagain, hcomply⟩
    have haccept : accept tree p.directory (inv.setInstance instanceId j).toValue = .ok again := by
      rw [accept, hagain]
      rfl
    rw [Command.changed, Outcome.bind_of_ok hload,
      Outcome.bind_of_ok (Inventory.instance?_eq_ok_iff.2 hfind), Outcome.bind_of_ok hchange,
      Outcome.bind_of_ok haccept, Outcome.bind_of_ok hcomply]
    rfl

theorem eq_setInstance_of_changed {p : Path} {instanceId : String} {op : Operation}
    {again : Inventory} (h : Command.changed tree p instanceId op.apply = .ok again) :
    ∃ inv i changed, load tree p = .ok inv ∧ inv.find? instanceId = some i ∧
      op.apply i = .ok changed ∧ again = inv.setInstance instanceId changed := by
  obtain ⟨inv, i, changed, hload, hfind, hop, hagain, -⟩ := changed_eq_ok_iff.1 h
  obtain ⟨v, hv⟩ := exists_of_load hload
  obtain ⟨fs, -, hwritten, -, -⟩ := ofValue?_eq_ok_iff.1 hv
  have hi := hwritten.canonical.instances i (List.mem_of_find?_eq_some hfind)
  have hset := hwritten.canonical.setInstance (hi.apply hop) instanceId
  exact ⟨inv, i, changed, hload, hfind, hop, hset.eq_of_ofValue? hagain⟩

/-- Whatever operations an admitted inventory goes through, what is read from its written form is
the inventory, and without any it is read. So a change to a file comes to the changed inventory. -/
theorem eq_of_ofValue?_toValue {v : Value} (h : Inventory.ofValue? tree dir v = .ok inv) :
    (∀ ops found, Inventory.ofValue? tree dir (inv.afterAll ops).toValue = .ok found →
      found = inv.afterAll ops) ∧
    Inventory.ofValue? tree dir inv.toValue = .ok inv ∧
    ∀ (t : Tree) p instanceId (op : Operation) again,
      Command.changed t p instanceId op.apply = .ok again →
      ∃ inv i changed, load t p = .ok inv ∧ inv.find? instanceId = some i ∧
        op.apply i = .ok changed ∧ again = inv.setInstance instanceId changed := by
  obtain ⟨fs, -, hwritten, hlayers, hfree⟩ := ofValue?_eq_ok_iff.1 h
  have hcanonical := hwritten.canonical
  refine ⟨fun ops found => (hcanonical.afterAll ops).eq_of_ofValue?, ?_, ?_⟩
  · exact ofValue?_eq_ok_iff.2 ⟨_, rfl, hcanonical.writtenAs hwritten.bound, hlayers, hfree⟩
  · exact fun t p instanceId op again => eq_setInstance_of_changed

def pairOperations : List (String × Operation) :=
  [("east", .add ⟨" eve ", .human, ["slack: e1"], [], ["faq"], some " acme/two "⟩),
    ("east", .remove "ada" true), ("west", .register "irc" "late")]

theorem eq_of_ofValue?_toValue_pair :
    Inventory.ofValue? pairTree pairDir (pairFleet.afterAll pairOperations).toValue =
      .ok (pairFleet.afterAll pairOperations) ∧
    Inventory.ofValue? pairTree pairDir pairFleet.toValue = .ok pairFleet := by
  obtain ⟨hagain, hsame, -⟩ := eq_of_ofValue?_toValue ofValue?_pair
  obtain ⟨found, hfound⟩ : ∃ found, Inventory.ofValue? pairTree pairDir
      (pairFleet.afterAll pairOperations).toValue = .ok found := ⟨_, rfl⟩
  rw [hagain pairOperations found hfound] at hfound
  exact ⟨hfound, hsame⟩

end GatewayFleet.Fleet
