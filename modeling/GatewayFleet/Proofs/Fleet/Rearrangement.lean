import GatewayFleet.Proofs.Fleet.Rereading
import GatewayFleet.Proofs.Fleet.Sharing

/-! Documents whose instances, and the agents of whose instances, stand in another order. The pass
tests every record against what the records before it have taken, but being told apart is symmetric;
so such a document is admitted exactly when the one it was made of is, as an inventory whose
instances and agents are in the same other order. -/

namespace GatewayFleet.Fleet

open Relator (RightUnique)

section

variable {α β : Type} {R : α → β → Prop} {order : List Nat} {xs : List α} {ys zs : List β}

/-- The items at the positions, in the order in which the positions are given. -/
def pick (order : List Nat) (xs : List α) : List α := order.filterMap fun n => xs[n]?

theorem pick_range (xs : List α) : pick (List.range xs.length) xs = xs := by
  have hsome : (List.range xs.length).map (fun n => xs[n]?) = xs.map some := by
    refine List.ext_getElem (by simp) fun n hn hn' => ?_
    simp
  have hid := congrArg (List.filterMap id) hsome
  rw [List.filterMap_map, List.filterMap_map] at hid
  exact hid.trans (List.filterMap_some)

theorem perm_pick (h : order.Perm (List.range xs.length)) : (pick order xs).Perm xs := by
  have hpicked : (pick order xs).Perm (pick (List.range xs.length) xs) := h.filterMap _
  rwa [pick_range] at hpicked

theorem forall₂_pick (h : List.Forall₂ R xs ys) (order : List Nat) :
    List.Forall₂ R (pick order xs) (pick order ys) := by
  obtain ⟨hlength, hall⟩ := List.forall₂_iff_get.1 h
  induction order with
  | nil => exact .nil
  | cons n order ih =>
    unfold pick at ih ⊢
    by_cases hn : n < xs.length
    · have hn' : n < ys.length := hlength ▸ hn
      rw [List.filterMap_cons_some (List.getElem?_eq_getElem hn),
        List.filterMap_cons_some (List.getElem?_eq_getElem hn')]
      exact .cons (hall n hn hn') ih
    · have hn' : ¬ n < ys.length := hlength ▸ hn
      rw [List.filterMap_cons_none (List.getElem?_eq_none (Nat.le_of_not_lt hn)),
        List.filterMap_cons_none (List.getElem?_eq_none (Nat.le_of_not_lt hn'))]
      exact ih

theorem exists_forall₂ (h : ∀ x ∈ xs, ∃ y, R x y) : ∃ ys, List.Forall₂ R xs ys := by
  induction xs with
  | nil => exact ⟨[], .nil⟩
  | cons x xs ih =>
    obtain ⟨⟨y, hy⟩, hrest⟩ := List.forall_mem_cons.1 h
    obtain ⟨ys, hys⟩ := ih hrest
    exact ⟨y :: ys, .cons hy hys⟩

theorem forall₂_pick_iff (hR : RightUnique R) (h : order.Perm (List.range xs.length)) :
    List.Forall₂ R (pick order xs) zs ↔ ∃ ys, List.Forall₂ R xs ys ∧ zs = pick order ys := by
  constructor
  · intro hpicked
    have hall : ∀ x ∈ xs, ∃ y, R x y := by
      intro x hx
      obtain ⟨n, hn, rfl⟩ := List.getElem_of_mem ((perm_pick h).mem_iff.2 hx)
      obtain ⟨hlength, hget⟩ := List.forall₂_iff_get.1 hpicked
      exact ⟨_, hget n hn (hlength ▸ hn)⟩
    obtain ⟨ys, hys⟩ := exists_forall₂ hall
    exact ⟨ys, hys, List.right_unique_forall₂' hR hpicked (forall₂_pick hys order)⟩
  · rintro ⟨ys, hys, rfl⟩
    exact forall₂_pick hys order

theorem forall₂_mapIdx_iff {f : Nat → α → α} {g : Nat → β → β}
    (h : ∀ n x, xs[n]? = some x → ∀ z, R (f n x) z ↔ ∃ y, R x y ∧ z = g n y) :
    List.Forall₂ R (xs.mapIdx f) zs ↔ ∃ ys, List.Forall₂ R xs ys ∧ zs = ys.mapIdx g := by
  induction xs generalizing f g zs with
  | nil => simp
  | cons x xs ih =>
    have hhead := h 0 x rfl
    have htail (zs : List β) : List.Forall₂ R (xs.mapIdx fun n => f (n + 1)) zs ↔ _ :=
      ih fun n y hy => h (n + 1) y hy
    rw [List.mapIdx_cons]
    simp only [List.forall₂_cons_left_iff, hhead, htail]
    constructor
    · rintro ⟨z, zs, ⟨y, hy, rfl⟩, ⟨ys, hys, rfl⟩, rfl⟩
      exact ⟨y :: ys, ⟨y, ys, hy, hys, rfl⟩, by rw [List.mapIdx_cons]⟩
    · rintro ⟨_, ⟨y, ys, hy, hys, rfl⟩, rfl⟩
      exact ⟨_, _, ⟨y, hy, rfl⟩, ⟨ys, hys, rfl⟩, by rw [List.mapIdx_cons]⟩

end

/-- An order for the instances and one for the agents of every instance. Everything goes by the
positions that instances and agents have before. -/
structure Order where
  instances : List Nat
  agents : Nat → List Nat

def changeEntries (k : String) (f : List Value → List Value) : Value → Value
  | .mapping fs => match Fields.get? fs k with
    | some (.list items) => .mapping (Fields.put fs k (.list (f items)))
    | _ => .mapping fs
  | v => v

namespace Order

def entry (o : Order) (n : Nat) (v : Value) : Value := changeEntries "agents" (pick (o.agents n)) v

def document (o : Order) (doc : Value) : Value :=
  changeEntries "instances" (fun items => pick o.instances (items.mapIdx o.entry)) doc

def resident (o : Order) (n : Nat) (i : Instance) : Instance :=
  { i with agents := pick (o.agents n) i.agents }

def inventory (o : Order) (inv : Inventory) : Inventory :=
  { inv with instances := pick o.instances (inv.instances.mapIdx o.resident) }

/-- Every instance of the document, and every agent of each of them, gets exactly one place. -/
structure Permutes (o : Order) (doc : Value) : Prop where
  instances : o.instances.Perm (List.range (entries doc "instances").length)
  agents : ∀ n v, (entries doc "instances")[n]? = some v →
    (o.agents n).Perm (List.range (entries v "agents").length)

end Order

section

variable {fs gs : Fields Value} {k : String} {items : List Value} {o : Order} {n : Nat} {v : Value}

theorem changeEntries_of_get? {f : List Value → List Value}
    (h : Fields.get? fs k = some (.list items)) :
    changeEntries k f (.mapping fs) = .mapping (Fields.put fs k (.list (f items))) := by
  simp only [changeEntries, h]

theorem changeEntries_of_ne {f : List Value → List Value}
    (h : ∀ items, Fields.get? fs k ≠ some (.list items)) :
    changeEntries k f (.mapping fs) = .mapping fs := by
  simp only [changeEntries]

theorem without_put {known : List String} (hk : k ∈ known) (w : Value) :
    Fields.without (Fields.put fs k w) known = Fields.without fs known := by
  induction fs with
  | nil => simp [Fields.put, Fields.without_cons, hk]
  | cons m fs ih =>
    by_cases hm : m.1 = k
    · simp [Fields.put, Fields.without_cons, hm, hk]
    · simp [Fields.put, Fields.without_cons, hm, ih]

theorem put_of_get? {w : Value} (h : Fields.get? fs k = some w) (u : Value) :
    Fields.put (Fields.put fs k u) k w = fs := by
  induction fs with
  | nil => cases h
  | cons m fs ih =>
    rw [Fields.get?_cons] at h
    by_cases hm : m.1 = k
    · rw [if_pos hm, Option.some.injEq] at h
      rw [Fields.put, if_pos hm, Fields.put, if_pos hm, ← h]
    · rw [if_neg hm] at h
      simp [Fields.put, hm, ih h]

theorem Instance.WrittenAs.of_agents {i : Instance} {w : Value} {agents : List Agent}
    (h : i.WrittenAs fs) (hagents : AreAgents w agents) :
    { i with agents := agents }.WrittenAs (Fields.put fs "agents" w) := by
  have hget {k : String} (hk : "agents" ≠ k) :
      Fields.get? (Fields.put fs "agents" w) k = Fields.get? fs k := Fields.get?_put_of_ne fs w hk
  constructor
  · rw [hget (by decide)]
    exact h.id
  · rw [hget (by decide)]
    exact h.host
  · rw [hget (by decide)]
    exact h.paths
  · rw [runtimeKey_put, hget (agents_ne_runtimeKey _)]
    exact h.runtime
  · rw [Fields.get?_put_self]
    exact ⟨some agents, .given hagents, rfl⟩
  · rw [hget (by decide)]
    exact h.channels
  · rw [hget (by decide)]
    exact h.policy
  · rw [without_put (by decide)]
    exact h.extra

theorem areAgents_list_iff {agents : List Agent} :
    AreAgents (.list items) agents ↔ List.Forall₂ IsAgent items agents := by
  simp [AreAgents]

theorem Instance.WrittenAs.agents_list {i : Instance} (h : i.WrittenAs fs)
    (hget : Fields.get? fs "agents" = some (.list items)) : AreAgents (.list items) i.agents := by
  obtain ⟨r, hr, hagents⟩ := h.agents
  rw [hget] at hr
  cases hr with
  | given hr => rwa [← hagents]

theorem Instance.writtenAs_pick_iff {order : List Nat} {i' : Instance}
    (hget : Fields.get? fs "agents" = some (.list items))
    (horder : order.Perm (List.range items.length)) :
    i'.WrittenAs (Fields.put fs "agents" (.list (pick order items))) ↔
      ∃ i : Instance, i.WrittenAs fs ∧ i' = { i with agents := pick order i.agents } := by
  constructor
  · intro h
    have hpicked := areAgents_list_iff.1 (h.agents_list (Fields.get?_put_self ..))
    obtain ⟨agents, hagents, heq⟩ := (forall₂_pick_iff rightUnique_isAgent horder).1 hpicked
    have hback := h.of_agents (areAgents_list_iff.2 hagents)
    rw [put_of_get? hget] at hback
    exact ⟨_, hback, by rw [← heq]⟩
  · rintro ⟨i, h, rfl⟩
    have hagents := areAgents_list_iff.1 (h.agents_list hget)
    exact h.of_agents (areAgents_list_iff.2 (forall₂_pick hagents order))

theorem Instance.WrittenAs.agents_nil {i : Instance} (h : i.WrittenAs fs)
    (hget : ∀ items, Fields.get? fs "agents" ≠ some (.list items)) : i.agents = [] := by
  obtain ⟨r, hr, hagents⟩ := h.agents
  rw [← hagents]
  generalize Fields.get? fs "agents" = m at hr hget
  cases hr with
  | absent | null => rfl
  | given hr =>
    obtain ⟨items, rfl, -⟩ := hr
    exact absurd rfl (hget items)

theorem Order.isInstance_entry_iff {i' : Instance}
    (ho : (o.agents n).Perm (List.range (entries v "agents").length)) :
    IsInstance (o.entry n v) i' ↔ ∃ i, IsInstance v i ∧ i' = o.resident n i := by
  cases v with
  | mapping fs =>
    have hmapping (gs : Fields Value) (i : Instance) :
        IsInstance (.mapping gs) i ↔ i.WrittenAs gs := by
      simp [IsInstance]
    simp only [hmapping]
    by_cases hlist : ∃ items, Fields.get? fs "agents" = some (.list items)
    · obtain ⟨items, hget⟩ := hlist
      rw [entries_of_get? hget] at ho
      rw [Order.entry, changeEntries_of_get? hget, hmapping, Instance.writtenAs_pick_iff hget ho]
      rfl
    · have hnone : ∀ items, Fields.get? fs "agents" ≠ some (.list items) := not_exists.1 hlist
      have hsame {i : Instance} (hi : i.WrittenAs fs) : o.resident n i = i := by
        have hpicked : pick (o.agents n) i.agents = i.agents := by simp [hi.agents_nil hnone, pick]
        rw [Order.resident, hpicked]
      rw [Order.entry, changeEntries_of_ne hnone, hmapping]
      constructor
      · exact fun hi => ⟨i', hi, (hsame hi).symm⟩
      · rintro ⟨i, hi, rfl⟩
        rwa [hsame hi]
  | null | bool _ | number _ | string _ | list _ => simp [Order.entry, changeEntries, IsInstance]

theorem Inventory.WrittenAs.of_instances {inv : Inventory} {w : Value} {instances : List Instance}
    (h : inv.WrittenAs fs) (hinstances : AreInstances instances (some w)) :
    { inv with instances := instances }.WrittenAs (Fields.put fs "instances" w) := by
  have hget {k : String} (hk : "instances" ≠ k) :
      Fields.get? (Fields.put fs "instances" w) k = Fields.get? fs k :=
    Fields.get?_put_of_ne fs w hk
  constructor
  · rw [hget (by decide)]
    exact h.supported
  · exact h.version
  · rw [hget (by decide)]
    exact h.defaults
  · rw [hget (by decide)]
    exact h.policy
  · rw [Fields.get?_put_self]
    exact hinstances
  · rw [without_put (by decide)]
    exact h.extra

theorem Inventory.WrittenAs.instances_list {inv : Inventory} (h : inv.WrittenAs fs)
    (hget : Fields.get? fs "instances" = some (.list items)) :
    items ≠ [] ∧ List.Forall₂ IsInstance items inv.instances := by
  have hinstances := h.instances
  rw [hget] at hinstances
  cases hinstances with
  | list hne hitems => exact ⟨hne, hitems⟩

theorem Inventory.WrittenAs.exists_list {inv : Inventory} (h : inv.WrittenAs fs) :
    ∃ items, Fields.get? fs "instances" = some (.list items) := by
  have hinstances := h.instances
  generalize Fields.get? fs "instances" = m at hinstances
  cases hinstances with
  | list _ _ => exact ⟨_, rfl⟩

theorem Order.forall₂_entry_iff {instances : List Instance} (ho : o.Permutes (.mapping fs))
    (hget : Fields.get? fs "instances" = some (.list items)) :
    List.Forall₂ IsInstance (pick o.instances (items.mapIdx o.entry)) instances ↔
      ∃ before, List.Forall₂ IsInstance items before ∧
        instances = pick o.instances (before.mapIdx o.resident) := by
  have hentries := entries_of_get? hget
  have hplaces := ho.instances
  have hagents := ho.agents
  rw [hentries] at hplaces hagents
  have hlength : (items.mapIdx o.entry).length = items.length := List.length_mapIdx
  rw [forall₂_pick_iff rightUnique_isInstance (hlength ▸ hplaces)]
  have heach (changed : List Instance) : List.Forall₂ IsInstance (items.mapIdx o.entry) changed ↔
      ∃ before, List.Forall₂ IsInstance items before ∧ changed = before.mapIdx o.resident :=
    forall₂_mapIdx_iff fun n v hv _ => isInstance_entry_iff (hagents n v hv)
  simp only [heach]
  constructor
  · rintro ⟨_, ⟨before, hbefore, rfl⟩, rfl⟩
    exact ⟨before, hbefore, rfl⟩
  · rintro ⟨before, hbefore, rfl⟩
    exact ⟨_, ⟨before, hbefore, rfl⟩, rfl⟩

theorem pick_ne_nil {α : Type} {order : List Nat} {xs : List α}
    (h : order.Perm (List.range xs.length)) (hxs : xs ≠ []) : pick order xs ≠ [] :=
  fun hnil => hxs (List.nil_perm.1 (hnil ▸ perm_pick h))

theorem Inventory.writtenAs_order_iff {inv' : Inventory} (ho : o.Permutes (.mapping fs))
    (hget : Fields.get? fs "instances" = some (.list items)) :
    inv'.WrittenAs (Fields.put fs "instances" (.list (pick o.instances (items.mapIdx o.entry)))) ↔
      ∃ inv : Inventory, inv.WrittenAs fs ∧ inv' = o.inventory inv := by
  have hplaces := ho.instances
  rw [entries_of_get? hget] at hplaces
  have hlength : (items.mapIdx o.entry).length = items.length := List.length_mapIdx
  constructor
  · intro h
    obtain ⟨hne, hchanged⟩ := h.instances_list (Fields.get?_put_self ..)
    obtain ⟨before, hbefore, heq⟩ := (Order.forall₂_entry_iff ho hget).1 hchanged
    have hitems : items ≠ [] := by
      rintro rfl
      exact hne (List.nil_perm.1 (perm_pick hplaces).symm)
    have hback := h.of_instances (.list hitems hbefore)
    rw [put_of_get? hget] at hback
    refine ⟨_, hback, ?_⟩
    rw [Order.inventory, ← heq]
  · rintro ⟨inv, h, rfl⟩
    obtain ⟨hne, hitems⟩ := h.instances_list hget
    refine h.of_instances (.list (pick_ne_nil (hlength ▸ hplaces) ?_) ?_)
    · exact fun hnil => hne (List.mapIdx_eq_nil_iff.1 hnil)
    · exact (Order.forall₂_entry_iff ho hget).2 ⟨_, hitems, rfl⟩

end

theorem Agent.Apart.symm {a b : Agent} (h : a.Apart b) : b.Apart a :=
  ⟨h.ids.symm, h.workspaces.symm, h.agentDirs.symm, fun _ hb ha => h.bindings ha hb⟩

theorem Instance.Apart.symm {dir : Path} {stride : Nat} {i j : Instance}
    (h : i.Apart dir stride j) : j.Apart dir stride i :=
  ⟨h.ids.symm, fun hmeets => h.ports ⟨hmeets.2, hmeets.1⟩, fun role => (h.paths role).symm⟩

section

variable {tree : Tree} {dir : Path} {stride : Nat} {o : Order} {inv : Inventory}

theorem Order.collisionFree_resident_iff {n : Nat} {i : Instance}
    (ho : (o.agents n).Perm (List.range i.agents.length)) :
    (o.resident n i).CollisionFree ↔ i.CollisionFree := by
  have hperm : (o.resident n i).agents.Perm i.agents := perm_pick ho
  have hpairwise := hperm.pairwise_iff fun {a b} => Agent.Apart.symm (a := a) (b := b)
  constructor
  · exact fun h => ⟨hpairwise.1 h.agents, fun a ha => h.bindings a (hperm.mem_iff.2 ha)⟩
  · exact fun h => ⟨hpairwise.2 h.agents, fun a ha => h.bindings a (hperm.mem_iff.1 ha)⟩

theorem Order.pairwise_resident_iff {xs : List Instance} :
    (xs.mapIdx o.resident).Pairwise (Instance.Apart dir stride) ↔
      xs.Pairwise (Instance.Apart dir stride) := by
  have hbare (ys : List Instance) : ys.Pairwise (Instance.Apart dir stride) ↔
      (ys.map fun i => { i with agents := [] }).Pairwise (Instance.Apart dir stride) := by
    rw [List.pairwise_map]
    exact ⟨.imp fun h => ⟨h.ids, h.ports, h.paths⟩, .imp fun h => ⟨h.ids, h.ports, h.paths⟩⟩
  have hsame : (xs.mapIdx o.resident).map (fun i => { i with agents := [] }) =
      xs.map fun i => { i with agents := [] } :=
    List.ext_getElem (by simp) fun n _ _ => by simp [resident]
  rw [hbare, hsame, ← hbare]

structure Order.Arranges (o : Order) (inv : Inventory) : Prop where
  instances : o.instances.Perm (List.range inv.instances.length)
  agents : ∀ n i, inv.instances[n]? = some i → (o.agents n).Perm (List.range i.agents.length)

theorem Order.Permutes.arranges {fs : Fields Value} (h : o.Permutes (.mapping fs))
    (hinv : inv.WrittenAs fs) : o.Arranges inv := by
  have hitems : List.Forall₂ IsInstance (entries (.mapping fs) "instances") inv.instances :=
    itemsOf_of_areInstances hinv.instances
  obtain ⟨hlength, hall⟩ := List.forall₂_iff_get.1 hitems
  refine ⟨hlength ▸ h.instances, fun n i hi => ?_⟩
  obtain ⟨hn, rfl⟩ := List.getElem?_eq_some_iff.1 hi
  have hn' : n < (entries (.mapping fs) "instances").length := hlength ▸ hn
  have hagents := (hall n hn' hn).entries_agents.length_eq
  exact hagents ▸ h.agents n _ (List.getElem?_eq_getElem hn')

theorem Order.Arranges.perm (h : o.Arranges inv) :
    (o.inventory inv).instances.Perm (inv.instances.mapIdx o.resident) :=
  perm_pick (by simpa using h.instances)

theorem Order.Arranges.forall_iff (h : o.Arranges inv) {P : Instance → Prop}
    (hP : ∀ n i, inv.instances[n]? = some i → (P (o.resident n i) ↔ P i)) :
    (∀ i ∈ (o.inventory inv).instances, P i) ↔ ∀ i ∈ inv.instances, P i := by
  simp only [h.perm.mem_iff, List.mem_mapIdx]
  constructor
  · intro hall i hi
    obtain ⟨n, hn, rfl⟩ := List.getElem_of_mem hi
    exact (hP n _ (List.getElem?_eq_getElem hn)).1 (hall _ ⟨n, hn, rfl⟩)
  · rintro hall _ ⟨n, hn, rfl⟩
    exact (hP n _ (List.getElem?_eq_getElem hn)).2 (hall _ (List.getElem_mem hn))

theorem Order.Arranges.layersPresent_iff (h : o.Arranges inv) :
    (o.inventory inv).LayersPresent tree dir ↔ inv.LayersPresent tree dir :=
  h.forall_iff fun _ _ _ => Iff.rfl

theorem Order.Arranges.collisionFree_iff (h : o.Arranges inv) :
    (o.inventory inv).CollisionFree dir ↔ inv.CollisionFree dir := by
  have hinstances : (o.inventory inv).instances.Pairwise (Instance.Apart dir inv.defaults.stride) ↔
      inv.instances.Pairwise (Instance.Apart dir inv.defaults.stride) := by
    rw [h.perm.pairwise_iff Instance.Apart.symm, pairwise_resident_iff]
  have hagents : (∀ i ∈ (o.inventory inv).instances, i.CollisionFree) ↔
      ∀ i ∈ inv.instances, i.CollisionFree :=
    h.forall_iff fun n i hi => collisionFree_resident_iff (h.agents n i hi)
  constructor
  · exact fun hfree => ⟨hinstances.1 hfree.instances, hagents.1 hfree.agents⟩
  · exact fun hfree => ⟨hinstances.2 hfree.instances, hagents.2 hfree.agents⟩

/-- The order in which a document has its instances, and each of them its agents, decides neither
whether it is admitted nor what it is admitted as, apart from the order. -/
theorem ofValue?_in_any_order {doc : Value} (ho : o.Permutes doc) (inv' : Inventory) :
    Inventory.ofValue? tree dir (o.document doc) = .ok inv' ↔
      ∃ inv, Inventory.ofValue? tree dir doc = .ok inv ∧ inv' = o.inventory inv := by
  cases doc with
  | mapping fs =>
    by_cases hlist : ∃ items, Fields.get? fs "instances" = some (.list items)
    · obtain ⟨items, hget⟩ := hlist
      have hwritten (inv : Inventory) : inv.WrittenAs _ ↔ _ :=
        Inventory.writtenAs_order_iff ho hget
      simp only [ofValue?_eq_ok_iff, Order.document, changeEntries_of_get? hget,
        Value.mapping.injEq, exists_eq_left', hwritten]
      constructor
      · rintro ⟨⟨inv, hinv, rfl⟩, hlayers, hfree⟩
        have harranges := ho.arranges hinv
        exact ⟨inv, ⟨hinv, harranges.layersPresent_iff.1 hlayers,
          harranges.collisionFree_iff.1 hfree⟩, rfl⟩
      · rintro ⟨inv, ⟨hinv, hlayers, hfree⟩, rfl⟩
        have harranges := ho.arranges hinv
        exact ⟨⟨inv, hinv, rfl⟩, harranges.layersPresent_iff.2 hlayers,
          harranges.collisionFree_iff.2 hfree⟩
    · have hrejected (inv : Inventory) :
          Inventory.ofValue? tree dir (.mapping fs) ≠ .ok inv := by
        intro haccepted
        obtain ⟨gs, hgs, hinv, -⟩ := ofValue?_eq_ok_iff.1 haccepted
        cases hgs
        exact hlist hinv.exists_list
      rw [Order.document, changeEntries_of_ne (not_exists.1 hlist)]
      exact ⟨fun h => absurd h (hrejected inv'), fun ⟨inv, h, _⟩ => absurd h (hrejected inv)⟩
  | null | bool _ | number _ | string _ | list _ =>
    simp [Order.document, changeEntries, ofValue?_eq_ok_iff]

def turned : Order := ⟨[1, 0], fun n => if n = 0 then [1, 0] else []⟩

theorem permutes_turned : turned.Permutes pairDocument where
  instances := by decide
  agents := by
    intro n v hv
    match n with
    | 0 | 1 =>
      cases hv
      decide
    | n + 2 => cases hv

theorem ofValue?_in_any_order_pair :
    Inventory.ofValue? pairTree pairDir (turned.document pairDocument) =
      .ok { pairFleet with
        instances := [pairWest, { pairEast with agents := [pairBob, pairAda] }] } :=
  (ofValue?_in_any_order permutes_turned _).2 ⟨pairFleet, ofValue?_pair, rfl⟩

end

end GatewayFleet.Fleet
