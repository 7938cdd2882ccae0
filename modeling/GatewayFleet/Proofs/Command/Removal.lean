import GatewayFleet.Proofs.Command.Succession

/-! Removing agents from a file. What is left of a compliant fleet is admitted and complies, so the
change gets as far as the disk; only the system can stand in its way. -/

namespace GatewayFleet.Command

open Fleet (Agent Instance Inventory)

variable {tree t t' : Tree} {p dir : Path} {instanceId : String}
variable {inv : Inventory} {i j : Instance} {a : Agent}

theorem io_of_changed {c : AgentChange} {again : Inventory} {s : Surroundings} {text : String}
    {failure : Failure}
    (hchanged : changed t (.ofString text) instanceId c.operation.apply = .ok again)
    (hrun : Disk.run (Command.run s (.ofString text) (c.command instanceId)) t =
      (.error failure, t')) : failure.category = .io := by
  obtain ⟨_, _, _, hsits, hname, -⟩ := exists_sits_of_changed hchanged
  obtain ⟨answer, hcommand⟩ := c.exists_runChange s (.ofString text) instanceId
  rw [hcommand] at hrun
  rcases Disk.run_bind_eq_error hrun with hmutate | ⟨_, u, -, hrest⟩
  · rw [run_mutate hchanged] at hmutate
    exact (Disk.replaceFile_eq_error hsits.ends hname hmutate).1
  · rcases Disk.run_bind_eq_error hrest with hrecord | ⟨_, _, -, hanswer⟩
    · exact (Audit.confined_record _ _).io u failure (congrArg Prod.fst hrecord)
    · cases hanswer

/-- Removing an agent never gets stuck. The agent is handed back, and the fleet stays admitted and
loses that agent's violations alone; the same goes for as many agents as there are, one after the
other, down to the last one. So the agent of a compliant fleet in a file can be removed unless the
system fails. -/
theorem removal_never_stuck {v : Value} (h : Inventory.ofValue? tree dir v = .ok inv)
    (hi : i ∈ inv.instances) (ha : a ∈ i.agents) (pruned : Bool) :
    (∃ j, i.removeAgent a.id pruned = .ok (a, j) ∧
      inv.Loses tree dir i [a.id] (inv.setInstance i.id j)) ∧
    (∀ ids : List String, ids.Nodup → ids ⊆ i.agents.map (·.id) →
      ∃ j, i.removeEach pruned ids = .ok j ∧
        inv.Loses tree dir i ids (inv.setInstance i.id j)) ∧
    ∀ (s : Surroundings) (t : Tree) (text : String),
      Fleet.loadCompliant t (.ofString text) = .ok inv →
        (∃ again, LeadsTo t (.ofString text) i.id (.remove a.id pruned) again) ∧
        ∀ failure t', Disk.run (Command.run s (.ofString text)
          (.agentRemove i.id a.id pruned)) t = (.error failure, t') → failure.category = .io := by
  refine ⟨Fleet.loses_removeAgent h hi ha pruned, fun ids hids hmem => ?_, fun s t text hload => ?_⟩
  · obtain ⟨fs, -, -, -, hfree⟩ := Fleet.ofValue?_eq_ok_iff.1 h
    have hpresent : ∀ id ∈ ids, ∃ a ∈ i.agents, a.id = id := fun id hid =>
      List.mem_map.1 (hmem hid)
    exact Instance.Employs.loses h hi ⟨(hfree.agents i hi).nodup_ids, hids, hpresent⟩ pruned
  · obtain ⟨left, hchanged⟩ := exists_changed_remove hload hi ha pruned
    exact ⟨⟨left, leadsTo_of_changed hchanged⟩, fun failure t' => io_of_changed hchanged⟩

theorem exists_loadCompliant_twin : ∃ t, Fleet.loadCompliant t twinPath = .ok twinGrown := by
  obtain ⟨answer, t, hrun⟩ := exists_run_twin
  exact ⟨t, (persisted_of_run_twin hrun).1⟩

theorem removal_never_stuck_pair :
    (∃ j, Fleet.pairEast.removeAgent "ada" true = .ok (Fleet.pairAda, j) ∧
      (Fleet.pairFleet.setInstance "east" j).violations? =
        .ok [⟨"east", "bob", ⟨.provider "other/two", "other", .notAllowed⟩⟩]) ∧
    ∃ t, Fleet.loadCompliant t twinPath = .ok twinGrown ∧
      (∃ again, LeadsTo t twinPath "b" (.remove "n" false) again) ∧
      ∀ (s : Surroundings) failure t', Disk.run (Command.run s twinPath
        (.agentRemove "b" "n" false)) t = (.error failure, t') → failure.category = .io := by
  constructor
  · obtain ⟨⟨j, hremoved, hloses⟩, -⟩ := removal_never_stuck Fleet.ofValue?_pair
      (i := Fleet.pairEast) (a := Fleet.pairAda) (.head _) (.head _) true
    obtain ⟨vs, hvs, hleft⟩ := hloses.report
    obtain rfl := Except.ok.inj (hvs.symm.trans rfl)
    exact ⟨j, hremoved, hleft⟩
  · obtain ⟨t, hcompliant⟩ := exists_loadCompliant_twin
    obtain ⟨v, hv⟩ := Fleet.exists_of_load (Fleet.loadCompliant_eq_ok_iff.1 hcompliant).1
    have hi : twinStaffed ∈ twinGrown.instances := .tail _ (.head _)
    obtain ⟨-, -, hcommand⟩ := removal_never_stuck hv hi (.head _) false
    refine ⟨t, hcompliant, ?_, fun s => ?_⟩
    · exact (hcommand twinRequest.surroundings t "/fleet" hcompliant).1
    · exact (hcommand s t "/fleet" hcompliant).2

end GatewayFleet.Command
