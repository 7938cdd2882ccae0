import GatewayFleet.Proofs.Command.Succession
import GatewayFleet.Proofs.Fleet.Bookkeeping

/-! The agent that a change of agents is recorded about. A removal looks for the identifier as it is
given, and that is what it records and answers. An addition leaves out the blank characters around
the identifier before it makes the agent, but records and answers the identifier as it was given. -/

namespace GatewayFleet

namespace Fleet

variable {i j : Instance} {inv : Inventory} {spec : AgentSpec} {id name : String}

def Instance.Gains (i j : Instance) (id : String) : Prop :=
  id ∈ j.agents.map (·.id) ∧ id ∉ i.agents.map (·.id)

instance (i j : Instance) (id : String) : Decidable (i.Gains j id) :=
  inferInstanceAs (Decidable (_ ∧ _))

theorem Operation.Effect.gains_add (h : (Operation.add spec).Effect i j) :
    i.Gains j id ↔ id = Text.trim spec.id := by
  cases h with
  | add hid hfree haccounts =>
    have hnew := find?_eq_none_iff.1 hfree
    rw [Instance.Gains, Instance.agents_appoint, i.agents_registerAll, List.map_append,
      List.mem_append]
    constructor
    · rintro ⟨hold | hadded, habsent⟩
      · exact absurd hold habsent
      · exact List.mem_singleton.1 hadded
    · rintro rfl
      exact ⟨.inr (List.mem_singleton_self _), hnew⟩

theorem ids_eraseP (agents : List Agent) (name : String) :
    (agents.eraseP (·.id = name)).map (·.id) = (agents.map (·.id)).erase name := by
  have htest : (fun a : Agent => decide (a.id = name)) = (· == name) ∘ (·.id) := by
    funext a
    exact (Bool.beq_eq_decide_eq a.id name).symm
  rw [List.erase_eq_eraseP', List.eraseP_map, htest]

theorem Operation.Effect.gains_remove {pruned : Bool}
    (h : (Operation.remove name pruned).Effect i j) (hi : (i.agents.map (·.id)).Nodup) :
    j.Gains i id ↔ id = name := by
  cases h with
  | @remove _ a hfind =>
    have hname : name ∈ i.agents.map (·.id) := by
      have ha := List.find?_some hfind
      exact List.mem_map.2 ⟨a, List.mem_of_find?_eq_some hfind, of_decide_eq_true ha⟩
    rw [Instance.Gains, Instance.agents_dismissed, ids_eraseP, hi.mem_erase_iff]
    constructor
    · rintro ⟨hmem, hgone⟩
      by_contra hne
      exact hgone ⟨hne, hmem⟩
    · rintro rfl
      exact ⟨hname, fun hleft => hleft.1 rfl⟩

theorem Instance.Tended.id_eq (h : i.Tended j) : j.id = i.id := by
  have hrest := congrArg Instance.id h.rest
  exact hrest

theorem Inventory.id_of_find? (hfind : inv.find? name = some i) : i.id = name := by
  have hid := List.find?_some hfind
  exact of_decide_eq_true hid

theorem Inventory.find?_setInstance (hfind : inv.find? name = some i) (hj : j.id = name) :
    (inv.setInstance name j).find? name = some j := by
  obtain ⟨hid, before, after, hinstances, hbefore⟩ := List.find?_eq_some_iff_append.1 hfind
  refine List.find?_eq_some_iff_append.2 ⟨decide_eq_true hj, before, after, ?_, hbefore⟩
  rw [setInstance, hinstances, replaceFirst_append_cons hbefore hid]

end Fleet

namespace Command

open Fleet (Instance Inventory)

variable {t t' : Tree} {p : Path} {instanceId id : String} {c : AgentChange} {i j : Instance}

namespace AgentChange

def agentId : AgentChange → String
  | .add spec => spec.id
  | .remove agentId _ => agentId

/-- No blank characters surround the identifier of an agent that is to be added. -/
def Tidy : AgentChange → Prop
  | .add spec => Text.trim spec.id = spec.id
  | .remove _ _ => True

def answer (p : Path) (instanceId : String) : AgentChange → Value
  | .add spec => mutation "added" instanceId spec.id p
  | .remove agentId _ => mutation "removed" instanceId agentId p

/-- The agent of that identifier came to the instance with an addition, or left it with a
removal. -/
def Concerns (c : AgentChange) (i j : Instance) (id : String) : Prop :=
  match c with
  | .add _ => i.Gains j id
  | .remove _ _ => j.Gains i id

theorem command_eq (c : AgentChange) (s : Surroundings) (p : Path) (instanceId : String) :
    Command.run s p (c.command instanceId) =
      runChange p instanceId c.operation.apply (c.event s.stamp instanceId)
        (c.answer p instanceId) := by
  cases c <;> rfl

theorem recorded_agent (c : AgentChange) (stamp : Audit.Stamp) (instanceId : String) :
    (c.event stamp instanceId).details.member? "agent" = some (.string c.agentId) := by
  cases c <;> rfl

theorem answered_agent (c : AgentChange) (p : Path) (instanceId : String) :
    (c.answer p instanceId).member? "agent" = some (.string c.agentId) := by
  cases c <;> rfl

theorem named_agentId_iff (c : AgentChange) : c.operation.named = some c.agentId ↔ c.Tidy := by
  cases c with
  | add spec => exact Option.some_inj
  | remove agentId prune => exact ⟨fun _ => trivial, fun _ => rfl⟩

theorem concerns_iff (h : c.operation.Effect i j) (hi : (i.agents.map (·.id)).Nodup) :
    c.Concerns i j id ↔ c.operation.named = some id := by
  cases c with
  | add spec => exact h.gains_add.trans (eq_comm.trans Option.some_inj.symm)
  | remove agentId prune => exact (h.gains_remove hi).trans (eq_comm.trans Option.some_inj.symm)

end AgentChange

theorem eq_of_run_runChange {change : Instance → Except Failure Instance} {e : Audit.Event}
    {answer printed : Value}
    (h : Disk.run (runChange p instanceId change e answer) t = (.ok printed, t')) :
    printed = answer := by
  obtain ⟨_, _, -, h⟩ := Disk.run_bind_eq_ok h
  obtain ⟨_, _, -, h⟩ := Disk.run_bind_eq_ok h
  exact (Except.ok.inj (congrArg Prod.fst h)).symm

/-- A change of agents that gets through brings or takes away the agent that it names, and no other
one. What it records and what it answers is the identifier as it was given: after a removal, that of
the agent that is gone, but after an addition that of the agent that is there now only if no blank
characters surround it. -/
theorem change_attributed (s : Surroundings) {t t' : Tree} (text instanceId : String)
    (c : AgentChange) {answer : Value}
    (h : Disk.run (Command.run s (.ofString text) (c.command instanceId)) t = (.ok answer, t')) :
    ∃ inv again i j, Fleet.load t (.ofString text) = .ok inv ∧ inv.find? instanceId = some i ∧
      Fleet.accept t (Path.ofString text).directory again.toValue = .ok again ∧
      again.find? instanceId = some j ∧
      Persisted (.ofString text) again (c.event s.stamp instanceId) t t' ∧
      (c.event s.stamp instanceId).details.member? "agent" = some (.string c.agentId) ∧
      answer.member? "agent" = some (.string c.agentId) ∧
      (∀ id, c.Concerns i j id ↔ c.operation.named = some id) ∧
      (c.Concerns i j c.agentId ↔ c.Tidy) := by
  obtain ⟨_, hleads, hpersisted⟩ := exists_persisted_of_run s text h
  obtain ⟨inv, i, j, hload, hfind, hop, rfl⟩ := hleads.changed
  have heffect := Fleet.Operation.apply_eq_ok_iff.1 hop
  obtain ⟨v, hv⟩ := Fleet.exists_of_load hload
  obtain ⟨fs, -, -, -, hfree⟩ := Fleet.ofValue?_eq_ok_iff.1 hv
  have hi := (hfree.agents i (List.mem_of_find?_eq_some hfind)).nodup_ids
  have hid : j.id = instanceId :=
    (AgentChange.adjusts heffect).tended.id_eq.trans (Inventory.id_of_find? hfind)
  rw [c.command_eq] at h
  obtain rfl := eq_of_run_runChange h
  exact ⟨inv, inv.setInstance instanceId j, i, j, hload, hfind, hleads.accepted,
    Inventory.find?_setInstance hfind hid, hpersisted, c.recorded_agent s.stamp instanceId,
    c.answered_agent _ instanceId, fun _ => AgentChange.concerns_iff heffect hi,
    (AgentChange.concerns_iff heffect hi).trans c.named_agentId_iff⟩

theorem change_attributed_twin : ∃ (answer : Value) (t' : Tree) (i j : Instance),
    Disk.run (Command.run twinRequest.surroundings twinPath (twinChange.command "b")) twinTree =
      (.ok answer, t') ∧
    answer.member? "agent" = some (.string "n") ∧ i.Gains j "n" := by
  obtain ⟨answer, t', hrun⟩ := exists_run_of_apply_twin twinRequest.surroundings apply_twin
  obtain ⟨_, _, i, j, -, -, -, -, -, -, hanswer, -, hconcerns⟩ :=
    change_attributed twinRequest.surroundings "/fleet" "b" twinChange hrun
  have htidy : twinChange.Tidy := by rfl
  exact ⟨answer, t', i, j, hrun, hanswer, hconcerns.2 htidy⟩

def paddedChange : AgentChange := .add ⟨" n ", .human, ["chat:me"], [], [], none⟩

theorem apply_padded : paddedChange.operation.apply twinB = .ok twinStaffed := by
  rfl

theorem misattributed_padded : ∃ answer t',
    Fleet.load twinTree twinPath = .ok twinFleet ∧ twinFleet.find? "b" = some twinB ∧
    Disk.run (Command.run twinRequest.surroundings twinPath (paddedChange.command "b")) twinTree =
      (.ok answer, t') ∧
    Persisted twinPath twinGrown (paddedChange.event twinRequest.surroundings.stamp "b")
      twinTree t' ∧
    twinGrown.find? "b" = some twinStaffed ∧
    twinB.Gains twinStaffed "n" ∧ ¬ twinB.Gains twinStaffed " n " ∧
    (paddedChange.event twinRequest.surroundings.stamp "b").details.member? "agent" =
      some (.string " n ") ∧
    answer.member? "agent" = some (.string " n ") := by
  obtain ⟨answer, t', hrun⟩ := exists_run_of_apply_twin twinRequest.surroundings apply_padded
  obtain ⟨_, hleads, hpersisted⟩ :=
    exists_persisted_of_run twinRequest.surroundings "/fleet" hrun
  obtain ⟨inv, i, j, hload, hfind, hop, rfl⟩ := hleads.changed
  obtain rfl := Except.ok.inj (load_twin.symm.trans hload)
  obtain rfl : twinB = i := Option.some.inj hfind
  obtain rfl := Except.ok.inj (apply_padded.symm.trans hop)
  have hanswer : answer = paddedChange.answer twinPath "b" :=
    eq_of_run_runChange ((congrArg (Disk.run · twinTree)
      (paddedChange.command_eq twinRequest.surroundings twinPath "b")).symm.trans hrun)
  exact ⟨answer, t', load_twin, rfl, hrun, hpersisted, rfl, by decide, by decide, rfl,
    hanswer ▸ rfl⟩

end Command

end GatewayFleet
