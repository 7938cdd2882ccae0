import GatewayFleet.Proofs.Fleet.Alteration
import GatewayFleet.Proofs.Fleet.Dismissal
import GatewayFleet.Proofs.Policy.Compliance

/-! Instances that are left with some of their agents. Agents that are told apart stay so when there
are fewer of them, and nothing asks for there being any; an agent is judged by itself. So the fleet
stays admitted, down to instances without agents, and the violations of those who go are all that
goes from its report. -/

namespace GatewayFleet.Fleet

open Policy (Violation)

variable {tree : Tree} {dir : Path} {stride : Nat} {v : Value}
variable {inv : Inventory} {i j k : Instance} {ids : List String}

/-- The instance with some of its agents, in their order, and perhaps other accounts. -/
structure Instance.Shrinks (i j : Instance) : Prop where
  tended : i.Tended j
  agents : j.agents.Sublist i.agents

theorem Instance.shrinks_without (i : Instance) (ids : List String) : i.Shrinks (i.without ids) :=
  ⟨i.tended_of_agents _, List.filter_sublist⟩

theorem Instance.Shrinks.prune (h : i.Shrinks j) : i.Shrinks j.prune :=
  ⟨h.tended.trans j.tended_prune, h.agents⟩

theorem Instance.CollisionFree.shrink (h : i.CollisionFree) (hshrinks : i.Shrinks j) :
    j.CollisionFree where
  agents := h.agents.sublist hshrinks.agents
  bindings := fun a ha => h.bindings a (hshrinks.agents.subset ha)

theorem Instance.Bound.shrink (h : i.Bound) (hshrinks : i.Shrinks j) : j.Bound :=
  fun a ha => h a (hshrinks.agents.subset ha)

theorem Instance.LayersPresent.tend (h : i.LayersPresent tree dir) (htended : i.Tended j) :
    j.LayersPresent tree dir := by
  rw [← htended.rest] at h
  exact h

theorem Instance.Apart.tend_left (h : i.Apart dir stride k) (htended : i.Tended j) :
    j.Apart dir stride k := by
  rw [← htended.rest] at h
  exact ⟨h.ids, h.ports, h.paths⟩

theorem Instance.Apart.tend_right (h : k.Apart dir stride i) (htended : i.Tended j) :
    k.Apart dir stride j := by
  rw [← htended.rest] at h
  exact ⟨h.ids, h.ports, h.paths⟩

theorem Inventory.exists_setInstance (hids : (inv.instances.map (·.id)).Nodup)
    (hi : i ∈ inv.instances) : ∃ before after, inv.instances = before ++ i :: after ∧
      (∀ k ∈ before ++ after, k.id ≠ i.id) ∧
      ∀ j, inv.setInstance i.id j = { inv with instances := before ++ j :: after } := by
  obtain ⟨before, after, hsplit⟩ := List.append_of_mem hi
  have hothers : ∀ k ∈ before ++ after, k.id ≠ i.id := by
    rw [hsplit, (List.perm_middle.map _).nodup_iff, List.map_cons, List.nodup_cons] at hids
    exact fun k hk heq => hids.1 (heq ▸ List.mem_map_of_mem hk)
  refine ⟨before, after, hsplit, hothers, fun j => ?_⟩
  have hbefore : ∀ k ∈ before, (!decide (k.id = i.id)) = true := fun k hk => by
    simpa using hothers k (List.mem_append_left _ hk)
  rw [setInstance, hsplit, replaceFirst_append_cons hbefore (by simp)]

theorem Inventory.forall_setInstance {P : Instance → Prop} (h : ∀ k ∈ inv.instances, P k) (hj : P j)
    (id : String) : ∀ k ∈ (inv.setInstance id j).instances, P k := by
  intro k hk
  rcases mem_replaceFirst hk with rfl | hk
  · exact hj
  · exact h k hk

theorem Inventory.CollisionFree.shrink (h : inv.CollisionFree dir) (hi : i ∈ inv.instances)
    (hshrinks : i.Shrinks j) : (inv.setInstance i.id j).CollisionFree dir := by
  obtain ⟨before, after, hsplit, -, hset⟩ := Inventory.exists_setInstance h.nodup_ids hi
  have hapart := h.instances
  rw [hsplit, List.pairwise_append, List.pairwise_cons] at hapart
  obtain ⟨hbefore, ⟨hfirst, hafter⟩, hacross⟩ := hapart
  refine ⟨?_, ?_⟩
  · rw [hset, List.pairwise_append, List.pairwise_cons]
    refine ⟨hbefore, ⟨fun k hk => (hfirst k hk).tend_left hshrinks.tended, hafter⟩, ?_⟩
    intro k hk l hl
    rcases List.mem_cons.1 hl with rfl | hl
    · exact (hacross k hk i List.mem_cons_self).tend_right hshrinks.tended
    · exact hacross k hk l (List.mem_cons_of_mem _ hl)
  · exact Inventory.forall_setInstance h.agents ((h.agents i hi).shrink hshrinks) i.id

theorem ofValue?_setInstance (h : Inventory.ofValue? tree dir v = .ok inv) (hi : i ∈ inv.instances)
    (hshrinks : i.Shrinks j) (hj : j.Canonical) :
    Inventory.ofValue? tree dir (inv.setInstance i.id j).toValue =
      .ok (inv.setInstance i.id j) := by
  obtain ⟨fs, -, hwritten, hlayers, hfree⟩ := ofValue?_eq_ok_iff.1 h
  have hbound := Inventory.forall_setInstance hwritten.bound
    (Instance.Bound.shrink (hwritten.bound i hi) hshrinks) i.id
  have hpresent := Inventory.forall_setInstance hlayers
    (Instance.LayersPresent.tend (hlayers i hi) hshrinks.tended) i.id
  exact ofValue?_eq_ok_iff.2 ⟨_, rfl, (hwritten.canonical.setInstance hj i.id).writtenAs hbound,
    hpresent, hfree.shrink hi hshrinks⟩

theorem filter_flatMap_of_forall {α β : Type} {p : α → Bool} {q : β → Bool} {f : α → List β}
    {xs : List α} (h : ∀ x ∈ xs, ∀ y ∈ f x, q y = p x) :
    (xs.flatMap f).filter q = (xs.filter p).flatMap f := by
  induction xs with
  | nil => rfl
  | cons x xs ih =>
    obtain ⟨hx, hrest⟩ := List.forall_mem_cons.1 h
    rw [List.flatMap_cons, List.filter_append, ih hrest]
    cases hp : p x with
    | true =>
      rw [List.filter_cons_of_pos hp, List.flatMap_cons,
        List.filter_eq_self.2 fun y hy => (hx y hy).trans hp]
    | false =>
      rw [List.filter_cons_of_neg (by rw [hp]; exact Bool.false_ne_true),
        List.filter_eq_nil_iff.2 fun y hy hq => Bool.false_ne_true (hp ▸ hx y hy ▸ hq),
        List.nil_append]

def Instance.Charged (i : Instance) (ids : List String) (v : Violation) : Prop :=
  v.instanceId = i.id ∧ v.agentId ∈ ids

instance (i : Instance) (ids : List String) : DecidablePred (i.Charged ids) :=
  fun v => inferInstanceAs (Decidable (v.instanceId = i.id ∧ v.agentId ∈ ids))

def Instance.keepsSeat (i : Instance) (ids : List String) (seat : Instance × Agent) : Bool :=
  ¬ (seat.1.id = i.id ∧ seat.2.id ∈ ids)

theorem Inventory.charged_iff {seat : Instance × Agent} {v : Violation}
    (h : v ∈ inv.chargesOf seat) (i : Instance) (ids : List String) :
    i.Charged ids v ↔ seat.1.id = i.id ∧ seat.2.id ∈ ids := by
  obtain ⟨o, -, rfl⟩ := List.mem_map.1 h
  exact Iff.rfl

theorem Inventory.chargesOf_setInstance (htended : i.Tended j) (inv : Inventory) (id : String)
    (a : Agent) : (inv.setInstance id j).chargesOf (j, a) = inv.chargesOf (i, a) := by
  rw [← htended.rest]
  rfl

theorem Inventory.filter_seats {before after : List Instance}
    (hsplit : inv.instances = before ++ i :: after) (hothers : ∀ k ∈ before ++ after, k.id ≠ i.id)
    (ids : List String) : inv.seats.filter (i.keepsSeat ids) =
      before.flatMap (fun k => k.agents.map (k, ·)) ++
        (i.without ids).agents.map (i, ·) ++ after.flatMap (fun k => k.agents.map (k, ·)) := by
  have hkept : ∀ ks ⊆ before ++ after,
      (ks.flatMap fun k => k.agents.map (k, ·)).filter (i.keepsSeat ids) =
        ks.flatMap fun k => k.agents.map (k, ·) := by
    intro ks hks
    refine List.filter_eq_self.2 fun seat hseat => ?_
    obtain ⟨k, hk, hseat⟩ := List.mem_flatMap.1 hseat
    obtain ⟨a, -, rfl⟩ := List.mem_map.1 hseat
    exact decide_eq_true fun h => hothers k (hks hk) h.1
  have hown : (i.agents.map (i, ·)).filter (i.keepsSeat ids) =
      (i.without ids).agents.map (i, ·) := by
    rw [List.filter_map, Instance.without]
    refine congrArg _ (List.filter_congr fun a _ => ?_)
    simp [Instance.keepsSeat]
  rw [seats, hsplit, List.flatMap_append, List.flatMap_cons, List.filter_append,
    List.filter_append, hown, hkept _ (List.subset_append_left ..),
    hkept _ (List.subset_append_right ..), List.append_assoc]

/-- What is reported on fewer agents is what was reported before, without what those who are gone
were reported for. -/
theorem Inventory.Canonical.violations?_setInstance (h : inv.Canonical)
    (hids : (inv.instances.map (·.id)).Nodup) (hi : i ∈ inv.instances) (htended : i.Tended j)
    (hj : j.Canonical) (hagents : j.agents = (i.without ids).agents) :
    ∃ vs, inv.violations? = .ok vs ∧
      (inv.setInstance i.id j).violations? = .ok (vs.filter fun v => ¬ i.Charged ids v) := by
  refine ⟨_, h.violations?_eq, ?_⟩
  obtain ⟨before, after, hsplit, hothers, hset⟩ := Inventory.exists_setInstance hids hi
  have hfiltered : (inv.seats.flatMap inv.chargesOf).filter (fun v => ¬ i.Charged ids v) =
      (inv.seats.filter (i.keepsSeat ids)).flatMap inv.chargesOf :=
    filter_flatMap_of_forall fun seat _ v hv =>
      decide_eq_decide.2 (not_congr (Inventory.charged_iff hv i ids))
  have hown : (j.agents.map (j, ·)).flatMap (inv.setInstance i.id j).chargesOf =
      ((i.without ids).agents.map (i, ·)).flatMap inv.chargesOf := by
    rw [List.flatMap_map, List.flatMap_map, ← hagents]
    exact List.flatMap_congr fun a _ => Inventory.chargesOf_setInstance htended inv i.id a
  have hseats : (inv.setInstance i.id j).seats = before.flatMap (fun k => k.agents.map (k, ·)) ++
      j.agents.map (j, ·) ++ after.flatMap (fun k => k.agents.map (k, ·)) := by
    rw [hset, seats, List.flatMap_append, List.flatMap_cons, List.append_assoc]
  rw [(h.setInstance hj i.id).violations?_eq, hfiltered, filter_seats hsplit hothers, hseats]
  simp only [List.flatMap_append, hown]
  rfl

theorem Instance.Canonical.without (h : i.Canonical) (ids : List String) :
    (i.without ids).Canonical :=
  { h with agents := fun a ha => h.agents a (List.mem_of_mem_filter ha) }

theorem Instance.Employs.exists_removeEach (h : i.Employs ids) (hi : i.Canonical) (pruned : Bool) :
    ∃ j, i.removeEach pruned ids = .ok j ∧ i.Shrinks j ∧ j.Canonical ∧
      j.agents = (i.without ids).agents := by
  have hleft := i.shrinks_without ids
  cases pruned with
  | false => exact ⟨_, h.removeEach, hleft, hi.without ids, rfl⟩
  | true =>
    cases ids with
    | nil =>
      rw [Instance.without_nil] at hleft ⊢
      exact ⟨i, rfl, hleft, hi, rfl⟩
    | cons id ids =>
      have hremoved := h.removeEach_true (List.cons_ne_nil id ids)
      exact ⟨_, hremoved, hleft.prune, (hi.without _).prune, rfl⟩

/-- The fleet is admitted as it is left without some agents of the instance, and the violations of
these agents are all that is missing from its report. -/
structure Inventory.Loses (tree : Tree) (dir : Path) (inv : Inventory) (i : Instance)
    (ids : List String) (left : Inventory) : Prop where
  admitted : Inventory.ofValue? tree dir left.toValue = .ok left
  report : ∃ vs, inv.violations? = .ok vs ∧
    left.violations? = .ok (vs.filter fun v => ¬ i.Charged ids v)

theorem Instance.Employs.loses (h : Inventory.ofValue? tree dir v = .ok inv)
    (hi : i ∈ inv.instances) (hemploys : i.Employs ids) (pruned : Bool) :
    ∃ j, i.removeEach pruned ids = .ok j ∧ inv.Loses tree dir i ids (inv.setInstance i.id j) := by
  obtain ⟨fs, -, hwritten, -, hfree⟩ := ofValue?_eq_ok_iff.1 h
  have hcanonical := hwritten.canonical
  obtain ⟨j, hremoved, hshrinks, hj, hagents⟩ :=
    hemploys.exists_removeEach (hcanonical.instances i hi) pruned
  exact ⟨j, hremoved, ofValue?_setInstance h hi hshrinks hj,
    hcanonical.violations?_setInstance hfree.nodup_ids hi hshrinks.tended hj hagents⟩

theorem loses_removeAgent {a : Agent} (h : Inventory.ofValue? tree dir v = .ok inv)
    (hi : i ∈ inv.instances) (ha : a ∈ i.agents) (pruned : Bool) :
    ∃ j, i.removeAgent a.id pruned = .ok (a, j) ∧
      inv.Loses tree dir i [a.id] (inv.setInstance i.id j) := by
  obtain ⟨fs, -, -, -, hfree⟩ := ofValue?_eq_ok_iff.1 h
  have hids := (hfree.agents i hi).nodup_ids
  have hemploys : i.Employs [a.id] := ⟨hids, List.nodup_singleton _, by simpa using ⟨a, ha, rfl⟩⟩
  obtain ⟨j, hremoved, hloses⟩ := hemploys.loses h hi pruned
  have hone := Instance.removeAgent_eq (Instance.find?_of_mem hids ha) pruned
  have heach := Instance.removeEach_cons (congrArg (Except.map (·.2)) hone) []
  obtain rfl := Except.ok.inj (heach.symm.trans hremoved)
  exact ⟨_, hone, hloses⟩

end GatewayFleet.Fleet
