import GatewayFleet.Proofs.Fleet.Editing
import GatewayFleet.Proofs.Fleet.Soundness

/-! Agents that are removed one after the other. An account that is pruned on the way is bound by
none of the agents that are left, and whatever a later removal leaves unbound is pruned then; so
what is left in the end depends on which agents are removed, but not on their order. -/

namespace GatewayFleet.Fleet

variable {i : Instance} {a : Agent} {id : String} {ids : List String}

/-- The instance with the agents alone that have none of the identifiers, in the order they have. -/
def Instance.without (i : Instance) (ids : List String) : Instance :=
  { i with agents := i.agents.filter fun a => a.id ∉ ids }

def Instance.removeEach (i : Instance) (pruned : Bool) (ids : List String) :
    Except Failure Instance :=
  ids.foldlM (fun i id => (i.removeAgent id pruned).map (·.2)) i

structure Instance.Employs (i : Instance) (ids : List String) : Prop where
  agent_ids : (i.agents.map (·.id)).Nodup
  distinct : ids.Nodup
  present : ∀ id ∈ ids, ∃ a ∈ i.agents, a.id = id

theorem eraseP_eq_filter {α : Type} {f : α → String} {xs : List α} (h : (xs.map f).Nodup)
    (k : String) : xs.eraseP (fun x => f x = k) = xs.filter fun x => f x ∉ [k] := by
  induction xs with
  | nil => rfl
  | cons x xs ih =>
    obtain ⟨hx, hxs⟩ := List.nodup_cons.1 h
    by_cases hk : f x = k
    · have hrest : xs.filter (fun y => f y ∉ [k]) = xs := by
        refine List.filter_eq_self.2 fun y hy => ?_
        have hne : f y ≠ k := fun heq => hx (hk ▸ heq ▸ List.mem_map_of_mem hy)
        simpa using hne
      rw [List.eraseP_cons_of_pos (by simpa using hk), List.filter_cons_of_neg (by simpa using hk),
        hrest]
    · rw [List.eraseP_cons_of_neg (by simpa using hk), List.filter_cons_of_pos (by simpa using hk),
        ih hxs]

theorem Instance.dismiss_eq_without (h : (i.agents.map (·.id)).Nodup) (id : String) :
    i.dismiss id = i.without [id] := by
  rw [dismiss, without, eraseP_eq_filter h]

theorem Instance.removeAgent_eq (hfind : i.find? id = some a) (pruned : Bool) :
    i.removeAgent id pruned =
      .ok (a, if pruned then (i.dismiss id).prune else i.dismiss id) := by
  simp only [removeAgent, hfind, dismiss]

theorem Instance.find?_of_mem (h : (i.agents.map (·.id)).Nodup) (ha : a ∈ i.agents) :
    i.find? a.id = some a := by
  obtain ⟨b, hb⟩ : ∃ b, i.find? a.id = some b := by
    rw [← Option.isSome_iff_exists, find?, List.find?_isSome]
    exact ⟨a, ha, by simp⟩
  have hid : b.id = a.id := by simpa using List.find?_some hb
  rw [hb, List.inj_on_of_nodup_map h (List.mem_of_find?_eq_some hb) ha hid]

theorem Instance.without_without (i : Instance) (ids ids' : List String) :
    (i.without ids).without ids' = i.without (ids ++ ids') := by
  simp only [without, List.filter_filter, List.mem_append, not_or, Bool.decide_and, Bool.and_comm]

theorem Instance.Employs.rest (h : i.Employs (id :: ids)) : (i.without [id]).Employs ids where
  agent_ids := h.agent_ids.sublist (List.filter_sublist.map _)
  distinct := (List.nodup_cons.1 h.distinct).2
  present := by
    intro id' hid'
    obtain ⟨a, ha, rfl⟩ := h.present id' (List.mem_cons_of_mem _ hid')
    have hne : a.id ≠ id := fun heq => (List.nodup_cons.1 h.distinct).1 (heq ▸ hid')
    exact ⟨a, List.mem_filter.2 ⟨ha, by simpa using hne⟩, rfl⟩

theorem Instance.Employs.removeAgent (h : i.Employs (id :: ids)) (pruned : Bool) :
    (i.removeAgent id pruned).map (·.2) =
      .ok (if pruned then (i.without [id]).prune else i.without [id]) := by
  obtain ⟨a, ha, rfl⟩ := h.present _ List.mem_cons_self
  rw [removeAgent_eq (find?_of_mem h.agent_ids ha), dismiss_eq_without h.agent_ids]
  rfl

/-- What is pruned while there are more agents would be pruned when there are fewer. -/
theorem Instance.prune_without_prune (i : Instance) (ids : List String) :
    (i.prune.without ids).prune = (i.without ids).prune := by
  have hbound : ∀ key, key ∈ (i.without ids).boundKeys → key ∈ i.boundKeys := by
    intro key hkey
    obtain ⟨b, hb, rfl⟩ := List.mem_map.1 hkey
    obtain ⟨a, ha, hb⟩ := List.mem_flatMap.1 hb
    exact mem_boundKeys (List.mem_of_mem_filter ha) hb
  have hkeep (name : String) (c : Channel) :
      (c.keep i.boundKeys name).keep (i.without ids).boundKeys name =
        c.keep (i.without ids).boundKeys name := by
    simp only [Channel.keep, List.filter_filter]
    congr 1
    refine List.filter_congr fun m _ => ?_
    cases hm : (i.without ids).boundKeys.contains (accountKey name m.1) with
    | false => rfl
    | true => simpa using hbound _ (List.contains_iff_mem.1 hm)
  have hchannels : (i.prune.without ids).prune.channels = (i.without ids).prune.channels := by
    change (i.channels.map fun m => (m.1, m.2.keep i.boundKeys m.1)).map
        (fun m => (m.1, m.2.keep (i.without ids).boundKeys m.1)) =
      i.channels.map fun m => (m.1, m.2.keep (i.without ids).boundKeys m.1)
    rw [List.map_map]
    exact List.map_congr_left fun m _ => Prod.ext rfl (hkeep m.1 m.2)
  exact congrArg (fun channels => { i.without ids with channels := channels }) hchannels

theorem Instance.removeEach_cons {j : Instance} {pruned : Bool}
    (h : (i.removeAgent id pruned).map (·.2) = .ok j) (ids : List String) :
    i.removeEach pruned (id :: ids) = j.removeEach pruned ids := by
  rw [removeEach, List.foldlM_cons, h]
  rfl

theorem Instance.without_nil (i : Instance) : i.without [] = i := by
  simp [without]

theorem Instance.Employs.removeEach (h : i.Employs ids) :
    i.removeEach false ids = .ok (i.without ids) := by
  induction ids generalizing i with
  | nil => rw [without_nil]; rfl
  | cons id ids ih =>
    rw [removeEach_cons (h.removeAgent false), if_neg Bool.false_ne_true, ih h.rest,
      without_without]
    rfl

theorem Instance.Employs.removeEach_prune (h : i.Employs ids) :
    i.prune.removeEach true ids = .ok (i.without ids).prune := by
  induction ids generalizing i with
  | nil => rw [without_nil]; rfl
  | cons id ids ih =>
    have hprune : i.prune.Employs (id :: ids) := ⟨h.agent_ids, h.distinct, h.present⟩
    have hstep := hprune.removeAgent true
    rw [if_pos rfl, prune_without_prune] at hstep
    rw [removeEach_cons hstep, ih h.rest, without_without]
    rfl

theorem Instance.Employs.removeEach_true (h : i.Employs ids) (hne : ids ≠ []) :
    i.removeEach true ids = .ok (i.without ids).prune := by
  cases ids with
  | nil => exact absurd rfl hne
  | cons id ids =>
    rw [removeEach_cons (h.removeAgent true), if_pos rfl, h.rest.removeEach_prune, without_without]
    rfl

theorem Instance.without_perm {order : List String} (h : order.Perm ids) (i : Instance) :
    i.without order = i.without ids := by
  simp only [without, h.mem_iff]

theorem Instance.Employs.perm {order : List String} (h : i.Employs ids) (horder : order.Perm ids) :
    i.Employs order where
  agent_ids := h.agent_ids
  distinct := horder.nodup_iff.2 h.distinct
  present := fun id hid => h.present id (horder.mem_iff.1 hid)

/-- Whichever agents of an admitted instance are removed with pruning, in whatever order, the same
is left: the other agents in their order, with the accounts they are bound to. Removing the agents
first and pruning once comes to the same. -/
theorem removal_in_any_order {tree : Tree} {dir : Path} {v : Value} {inv : Inventory}
    (h : Inventory.ofValue? tree dir v = .ok inv) (hi : i ∈ inv.instances) (hne : ids ≠ [])
    (hids : ids.Nodup) (hpresent : ∀ id ∈ ids, ∃ a ∈ i.agents, a.id = id) :
    ∃ left : Instance, left = { i with
        agents := i.agents.filter (fun a => a.id ∉ ids), channels := left.channels } ∧
      ∀ order : List String, order.Perm ids →
        i.removeEach true order = .ok left ∧
          (i.removeEach false order).map Instance.prune = .ok left := by
  obtain ⟨fs, -, -, -, hfree⟩ := ofValue?_eq_ok_iff.1 h
  have hemploys : i.Employs ids := ⟨(hfree.agents i hi).nodup_ids, hids, hpresent⟩
  refine ⟨(i.without ids).prune, rfl, fun order horder => ?_⟩
  have horderNe : order ≠ [] := fun hnil => hne (List.nil_perm.1 (hnil ▸ horder))
  rw [← i.without_perm horder]
  constructor
  · exact (hemploys.perm horder).removeEach_true horderNe
  · rw [(hemploys.perm horder).removeEach]
    rfl

def pairCyd : Agent where
  id := "cyd"
  role := .human
  bindings := [Binding.of "irc" "cyd", Binding.of "sms" "1"]

def pairTrio : Instance where
  id := "east"
  host := { gatewayPort := 4000 }
  paths := pairPaths "east"
  runtime := { configLayers := ["base"] }
  agents := [pairAda, pairBob, pairCyd]
  channels := [
    ("irc", { accounts := [("bob", .empty), ("cyd", .empty), ("ops", .empty), ("spare", .empty)] }),
    ("sms", { accounts := [("1", .empty)], extra := [("mode", .null)] })]

theorem ofValue?_trio : Inventory.ofValue? pairTree pairDir
    { pairFleet with instances := [pairTrio] }.toValue =
      .ok { pairFleet with instances := [pairTrio] } := by
  rfl

def pairRemnant : Instance :=
  { pairTrio with
    agents := [pairBob]
    channels := [
      ("irc", { accounts := [("bob", .empty)] }),
      ("sms", { extra := [("mode", .null)] })] }

theorem removal_in_any_order_trio :
    pairTrio.removeEach true ["ada", "cyd"] = .ok pairRemnant ∧
      pairTrio.removeEach true ["cyd", "ada"] = .ok pairRemnant ∧
      (pairTrio.removeEach false ["cyd", "ada"]).map Instance.prune = .ok pairRemnant := by
  have hpresent : ∀ id ∈ ["ada", "cyd"], ∃ a ∈ pairTrio.agents, a.id = id := by decide
  obtain ⟨left, -, horders⟩ :=
    removal_in_any_order ofValue?_trio (.head _) (List.cons_ne_nil _ _) (by decide) hpresent
  obtain ⟨hsame, -⟩ := horders _ (List.Perm.refl _)
  obtain ⟨hturned, hlater⟩ := horders ["cyd", "ada"] (List.Perm.swap ..)
  obtain rfl : pairRemnant = left := Except.ok.inj hsame
  exact ⟨hsame, hturned, hlater⟩

end GatewayFleet.Fleet
