import GatewayFleet.Command.Run
import GatewayFleet.Proofs.Audit.Recording
import GatewayFleet.Proofs.Command.Isolation
import GatewayFleet.Proofs.Disk.Replacement
import GatewayFleet.Proofs.Fleet.Loading
import GatewayFleet.Proofs.Fleet.Rereading
import GatewayFleet.Proofs.Fleet.Shrinking

/-! Changing the agents of an instance. The change is worked out and judged before anything is
written; then the inventory is replaced as a whole and one line goes to the log. So a change that
is refused leaves no trace, and the inventory is never half written. -/

namespace GatewayFleet.Command

open Audit (Event Recorded Stamp)
open Fleet (AgentSpec Instance Inventory Operation)
open GatewayFleet.Tree (Keeps Opens Replaced)

variable {t t' : Tree} {p : Path} {instanceId : String}

inductive AgentChange
  | add (spec : AgentSpec)
  | remove (agentId : String) (prune : Bool)

namespace AgentChange

def command (instanceId : String) : AgentChange → Command
  | .add spec => .agentAdd instanceId spec
  | .remove agentId prune => .agentRemove instanceId agentId prune

def operation : AgentChange → Operation
  | .add spec => .add spec
  | .remove agentId prune => .remove agentId prune

def event (stamp : Stamp) (instanceId : String) : AgentChange → Event
  | .add spec => stamp.event .agentAdd instanceId
    [("agent", .string spec.id), ("role", .string spec.role.name)]
  | .remove agentId prune => stamp.event .agentRemove instanceId
    [("agent", .string agentId), ("pruned_accounts", .bool prune)]

theorem exists_runChange (c : AgentChange) (s : Surroundings) (p : Path) (instanceId : String) :
    ∃ answer, Command.run s p (c.command instanceId) =
      runChange p instanceId c.operation.apply (c.event s.stamp instanceId) answer := by
  cases c with
  | add spec => exact ⟨mutation "added" instanceId spec.id p, rfl⟩
  | remove agentId prune => exact ⟨mutation "removed" instanceId agentId p, rfl⟩

end AgentChange

/-- The inventory that a change leads to: read again from its written form, and compliant. -/
structure LeadsTo (t : Tree) (p : Path) (instanceId : String) (c : AgentChange)
    (again : Inventory) : Prop where
  changed : ∃ inv i new, Fleet.load t p = .ok inv ∧ inv.find? instanceId = some i ∧
    c.operation.apply i = .ok new ∧ again = inv.setInstance instanceId new
  accepted : Fleet.accept t p.directory again.toValue = .ok again
  complies : again.comply = .ok ()

theorem changed_congr {inv : Inventory} {i : Instance}
    {change change' : Instance → Except Failure Instance}
    (hload : Fleet.load t p = .ok inv) (hfind : inv.find? instanceId = some i)
    (h : change i = change' i) :
    changed t p instanceId change = changed t p instanceId change' := by
  have hinstance := Inventory.instance?_eq_ok_iff.2 hfind
  rw [changed, changed, Outcome.bind_of_ok hload, Outcome.bind_of_ok hload,
    Outcome.bind_of_ok hinstance, Outcome.bind_of_ok hinstance, h]

theorem comply_eq_ok_iff {inv : Inventory} : inv.comply = .ok () ↔ inv.violations? = .ok [] := by
  unfold Inventory.comply
  split <;> simp_all

theorem comply_of_loses {inv left : Inventory} {i : Instance} {tree : Tree} {dir : Path}
    {ids : List String} (h : inv.Loses tree dir i ids left)
    (hcomply : inv.comply = .ok ()) : left.comply = .ok () := by
  obtain ⟨vs, hvs, hleft⟩ := h.report
  obtain rfl : vs = [] := Except.ok.inj (hvs.symm.trans (comply_eq_ok_iff.1 hcomply))
  exact comply_eq_ok_iff.2 hleft

theorem exists_changed_remove {inv : Inventory} {i : Instance} {a : Fleet.Agent}
    (h : Fleet.loadCompliant t p = .ok inv) (hi : i ∈ inv.instances)
    (ha : a ∈ i.agents) (pruned : Bool) :
    ∃ left, changed t p i.id (AgentChange.remove a.id pruned).operation.apply = .ok left := by
  obtain ⟨hload, hcomply⟩ := Fleet.loadCompliant_eq_ok_iff.1 h
  obtain ⟨v, hv⟩ := Fleet.exists_of_load hload
  obtain ⟨j, hremoved, hloses⟩ := Fleet.loses_removeAgent hv hi ha pruned
  obtain ⟨fs, -, -, -, hfree⟩ := Fleet.ofValue?_eq_ok_iff.1 hv
  have hfind := find?_of_mem hfree.nodup_ids hi
  have happly : (AgentChange.remove a.id pruned).operation.apply i = .ok j :=
    (congrArg (Except.map Prod.snd) hremoved).trans rfl
  exact ⟨_, Fleet.changed_eq_ok_iff.2 ⟨inv, i, j, hload, hfind, happly, hloses.admitted,
    comply_of_loses hloses hcomply⟩⟩

theorem leadsTo_of_changed {c : AgentChange} {again : Inventory}
    (h : changed t p instanceId c.operation.apply = .ok again) :
    LeadsTo t p instanceId c again := by
  obtain ⟨_, _, _, -, -, -, hv, hcomply⟩ := Fleet.changed_eq_ok_iff.1 h
  obtain ⟨fs, -, hwritten, hlayers, hfree⟩ := Fleet.ofValue?_eq_ok_iff.1 hv
  have hagain : Inventory.ofValue? t p.directory again.toValue = .ok again :=
    Fleet.ofValue?_eq_ok_iff.2
      ⟨_, rfl, hwritten.canonical.writtenAs hwritten.bound, hlayers, hfree⟩
  exact ⟨Fleet.eq_setInstance_of_changed h, by rw [Fleet.accept, hagain]; rfl, hcomply⟩

theorem exists_sits_of_changed {change : Instance → Except Failure Instance} {again : Inventory}
    {text : String} (h : changed t (.ofString text) instanceId change = .ok again) :
    ∃ dir s old, (Path.ofString text).Sits dir s ∧ '/' ∉ s.toList ∧
      t.stat (.ofString text) = .ok (.file old) := by
  obtain ⟨_, _, _, hload, -⟩ := Fleet.changed_eq_ok_iff.1 h
  obtain ⟨old, hold⟩ := Fleet.exists_stat_of_load hload
  obtain ⟨dir, s, hsits, hmem⟩ := Tree.exists_sits_of_stat hold
  exact ⟨dir, s, old, hsits, Path.not_mem_segments_ofString hmem, hold⟩

def inventoryBytes (again : Inventory) : ByteArray := (Yaml.write again.toValue).toUTF8

/-- The new inventory is in place, its event ends the log, and nothing else has changed. -/
structure Persisted (p : Path) (again : Inventory) (e : Event) (t t' : Tree) : Prop where
  inventory : t'.stat p = .ok (.file (inventoryBytes again))
  recorded : t'.content? (Audit.logFor p.directory).locate =
    some ((t.content? (Audit.logFor p.directory).locate).getD ByteArray.empty ++
      (e.line ++ "\n").toUTF8)
  oneLine : Json.OneLine e.line
  logDirectory : t'.get? (Audit.logFor p.directory).locate.directory = some .directory
  logDirectoryBefore : t.get? (Audit.logFor p.directory).locate.directory = some .directory ∨
    t.get? (Audit.logFor p.directory).locate.directory = none
  temporary : t'.get? p.locate.sibling = none
  temporaryBefore : t.get? p.locate.sibling ≠ some .directory
  others : ∀ l, l ≠ p.locate → l ≠ p.locate.sibling → l ≠ (Audit.logFor p.directory).locate →
    l ≠ (Audit.logFor p.directory).locate.directory → t'.get? l = t.get? l

theorem stat_of_replaced {bytes old : ByteArray} (hold : t.stat p = .ok (.file old))
    (h : Replaced p.locate p.locate.sibling bytes t t') : t'.stat p = .ok (.file bytes) := by
  obtain ⟨hne, l, hwalk, -⟩ := Tree.stat_eq_ok.1 hold
  obtain rfl := Tree.eq_locate_of_walk hwalk
  exact Tree.stat_eq_ok.2 ⟨hne, p.locate, h.keeps.wider.walk hwalk, h.content⟩

theorem persisted_of_recorded {u : Tree} {dir : Path} {s : String} {old : ByteArray}
    {again : Inventory} {e : Event} (hsits : p.Sits dir s) (hold : t.stat p = .ok (.file old))
    (hreplaced : Replaced p.locate p.locate.sibling (inventoryBytes again) t u)
    (hrecorded : Recorded (dir.locate.child ".fleetconf") (Audit.logFor dir).locate
      (e.line ++ "\n").toUTF8 u t')
    (hkeeps : Keeps [(Audit.logFor dir).locate] u t') : Persisted p again e t t' := by
  have hdir := hsits.directory_eq
  have hsibling : p.locate.sibling = dir.locate.child (Path.siblingName s) := by
    rw [hsits.names.locate, Location.sibling_child]
  have hlogDirectory : (Audit.logFor dir).locate.directory = dir.locate.child ".fleetconf" := by
    rw [Audit.locate_logFor, Location.directory_child]
  have hlogInventory := Audit.logFor_ne_inventory hsits
  have hlogSibling := Audit.logFor_ne_sibling hsits
  have hhomeSibling : dir.locate.child ".fleetconf" ≠ p.locate.sibling := by
    rw [hsibling]
    exact Location.child_ne (Ne.symm (Audit.siblingName_ne_logDirectory s))
  -- the directory of the log is not the inventory, which is a file by now
  have hhomeInventory : dir.locate.child ".fleetconf" ≠ p.locate := by
    intro h
    have hhome := hrecorded.home
    rw [h, hreplaced.content] at hhome
    rcases hhome with hnone | hdirectory
    · cases hnone
    · cases hdirectory
  have hlogBefore := hreplaced.others _ hlogInventory hlogSibling
  have hhomeBefore := hreplaced.others _ hhomeInventory hhomeSibling
  constructor
  · refine hkeeps.stat_file ?_ (stat_of_replaced hold hreplaced)
    rw [List.mem_singleton]
    exact Ne.symm hlogInventory
  · rw [hdir, ← Tree.content?_congr hlogBefore]
    exact Tree.content?_eq_some_iff.2 hrecorded.content
  · exact e.oneLine
  · rw [hdir, hlogDirectory]
    exact hrecorded.directory
  · rw [hdir, hlogDirectory, ← hhomeBefore]
    exact hrecorded.home.symm
  · rw [hrecorded.others _ (Ne.symm hhomeSibling) (Ne.symm hlogSibling)]
    exact hreplaced.cleared
  · exact hreplaced.temporaryFree
  · intro l hinventory htemporary hlog hhome
    rw [hdir] at hlog hhome
    rw [hlogDirectory] at hhome
    rw [hrecorded.others l hhome hlog, hreplaced.others l hinventory htemporary]

def AgentChange.AllOrNothing (c : AgentChange) (p : Path) (instanceId : String) (e : Event)
    (t : Tree) : Except Failure Value × Tree → Prop
  | (.ok _, t') => ∃ again, LeadsTo t p instanceId c again ∧ Persisted p again e t t'
  | (.error failure, t') =>
    (failure.category ≠ .io → t' = t) ∧
      (t'.stat p = t.stat p ∨ ∃ again, LeadsTo t p instanceId c again ∧
        t'.stat p = .ok (.file (inventoryBytes again)))

theorem run_mutate {change : Instance → Except Failure Instance} {again : Inventory}
    (h : changed t p instanceId change = .ok again) :
    Disk.run (mutate p instanceId change) t =
      Disk.run (Disk.replaceFile p (inventoryBytes again)) t := by
  unfold mutate
  rw [Disk.run_bind, Disk.run_ask, h]
  rfl

theorem run_runChange_error {change : Instance → Except Failure Instance} {failure : Failure}
    (h : changed t p instanceId change = .error failure) (e : Event) (answer : Value) :
    Disk.run (runChange p instanceId change e answer) t = (.error failure, t) := by
  refine Disk.run_bind_of_error ?_
  unfold mutate
  rw [Disk.run_bind, Disk.run_ask, h]

/-- No directory stands in the way of a change, and the log has its own. -/
structure Unobstructed (t : Tree) (p : Path) : Prop where
  inventory : t.get? p.locate ≠ some .directory
  temporary : t.get? p.locate.sibling ≠ some .directory
  logDirectory : t.get? (Audit.logFor p.directory).locate.directory = some .directory
  log : t.get? (Audit.logFor p.directory).locate ≠ some .directory

theorem Persisted.unobstructed {again : Inventory} {e : Event} (h : Persisted p again e t t') :
    Unobstructed t' p where
  inventory := by
    obtain ⟨-, l, hwalk, hget⟩ := Tree.stat_eq_ok.1 h.inventory
    obtain rfl := Tree.eq_locate_of_walk hwalk
    rw [hget]
    nofun
  temporary := by
    rw [h.temporary]
    nofun
  logDirectory := h.logDirectory
  log := by
    rw [Tree.content?_eq_some_iff.1 h.recorded]
    nofun

theorem exists_run_runChange {change : Instance → Except Failure Instance} {again : Inventory}
    {dir : Path} {s : String} {d : Location}
    (hchanged : changed t p instanceId change = .ok again) (hsits : p.Sits dir s)
    (hs : Path.Plain s) (hdir : Opens t dir d) (hclear : Unobstructed t p) (e : Event)
    (answer : Value) :
    ∃ t', Disk.run (runChange p instanceId change e answer) t = (.ok answer, t') := by
  obtain ⟨hfree, htemporary, hhome, hlog⟩ := hclear
  have hlocate : p.locate = d.child s := by rw [hdir.eq_locate, hsits.names.locate]
  rw [hlocate] at hfree
  rw [hlocate, Location.sibling_child] at htemporary
  rw [hsits.directory_eq] at hlog
  rw [hsits.directory_eq, Audit.locate_logFor, Location.directory_child] at hhome
  obtain ⟨u, hreplace⟩ := Disk.exists_run_replaceFile hsits hs.slash hdir (hs.entry d)
    (hs.entry_sibling d) hfree htemporary (inventoryBytes again)
  have hreplaced := Disk.replaced_of_opens hsits.ends hs.slash hdir hreplace
  have hsame := hreplaced.directory_iff
  obtain ⟨t', hrecord⟩ := Audit.exists_run_record (hdir.wider hreplaced.keeps.wider)
    ((hsame _).2 hhome) (fun hdirectory => hlog ((hsame _).1 hdirectory)) e
  refine ⟨t', ?_⟩
  have hmutate := (run_mutate hchanged).trans hreplace
  rw [runChange, Disk.run_bind_of_ok hmutate, hsits.directory_eq, Disk.run_bind_of_ok hrecord]
  rfl

theorem allOrNothing_of_changed {dir : Path} {s : String} {old : ByteArray} {c : AgentChange}
    {again : Inventory} {e : Event} {answer : Value}
    (hchanged : changed t p instanceId c.operation.apply = .ok again) (hsits : p.Sits dir s)
    (hs : '/' ∉ s.toList) (hold : t.stat p = .ok (.file old)) :
    c.AllOrNothing p instanceId e t
      (Disk.run (runChange p instanceId c.operation.apply e answer) t) := by
  have hleads := leadsTo_of_changed hchanged
  obtain ⟨-, l, hwalk, -⟩ := Tree.stat_eq_ok.1 hold
  obtain ⟨d, hopens, -⟩ := Tree.exists_opens_of_walk hsits.names hwalk
  unfold runChange
  rw [Disk.run_bind, run_mutate hchanged]
  rcases hreplace : Disk.run (Disk.replaceFile p (inventoryBytes again)) t with ⟨outcome, u⟩
  cases outcome with
  | error failure =>
    -- the inventory is not replaced
    obtain ⟨hio, hkeeps⟩ := Disk.replaceFile_eq_error hsits.ends hs hreplace
    refine ⟨fun hlogical => absurd hio hlogical, .inl ?_⟩
    rw [hold]
    refine hkeeps.stat_file ?_ hold
    rw [List.mem_singleton]
    exact Ne.symm p.locate.sibling_ne
  | ok _ =>
    have hreplaced := Disk.replaced_of_opens hsits.ends hs hopens hreplace
    have hinventory := stat_of_replaced hold hreplaced
    have hlog := Audit.confined_record p.directory e
    rw [hsits.directory_eq] at hlog ⊢
    dsimp only
    rw [Disk.run_bind]
    rcases hrecord : Disk.run (Audit.record dir e) u with ⟨outcome, t'⟩
    have hkeeps := hlog.keeps u
    rw [hrecord] at hkeeps
    cases outcome with
    | error failure =>
      -- the new inventory is in place, but its event is not recorded
      have hio := hlog.io u failure (congrArg Prod.fst hrecord)
      refine ⟨fun hlogical => absurd hio hlogical, .inr ⟨again, hleads, ?_⟩⟩
      refine hkeeps.stat_file ?_ hinventory
      rw [List.mem_singleton]
      exact Ne.symm (Audit.logFor_ne_inventory hsits)
    | ok _ =>
      have hrecorded := Audit.record_eq_ok (hopens.wider hreplaced.keeps.wider) hrecord
      exact ⟨again, hleads, persisted_of_recorded hsits hold hreplaced hrecorded hkeeps⟩

theorem run_change_cases (s : Surroundings) (t : Tree) (text instanceId : String)
    (c : AgentChange) :
    (∃ failure, Disk.run (Command.run s (.ofString text) (c.command instanceId)) t =
      (.error failure, t)) ∨
    (∃ again, LeadsTo t (.ofString text) instanceId c again) ∧
      c.AllOrNothing (.ofString text) instanceId (c.event s.stamp instanceId) t
        (Disk.run (Command.run s (.ofString text) (c.command instanceId)) t) := by
  obtain ⟨answer, hcommand⟩ := c.exists_runChange s (.ofString text) instanceId
  rw [hcommand]
  cases hchanged : changed t (.ofString text) instanceId c.operation.apply with
  | error failure => exact .inl ⟨failure, run_runChange_error hchanged _ answer⟩
  | ok again =>
    obtain ⟨dir, name, old, hsits, hname, hold⟩ := exists_sits_of_changed hchanged
    exact .inr ⟨⟨again, leadsTo_of_changed hchanged⟩,
      allOrNothing_of_changed hchanged hsits hname hold⟩

theorem exists_persisted_of_run (s : Surroundings) (text : String) {c : AgentChange}
    {answer : Value}
    (h : Disk.run (Command.run s (.ofString text) (c.command instanceId)) t = (.ok answer, t')) :
    ∃ again, LeadsTo t (.ofString text) instanceId c again ∧
      Persisted (.ofString text) again (c.event s.stamp instanceId) t t' := by
  rcases run_change_cases s t text instanceId c with ⟨failure, herror⟩ | ⟨-, hwhole⟩
  · cases herror.symm.trans h
  · rwa [h] at hwhole

/-- A change of agents that is refused leaves every entry as it was. One that succeeds replaces the
inventory by the whole new one and adds one line to the log. When the system fails, the inventory is
still the old one or the whole new one. -/
theorem agentChange_allOrNothing (s : Surroundings) (t : Tree) (text instanceId : String)
    (c : AgentChange) :
    c.AllOrNothing (.ofString text) instanceId (c.event s.stamp instanceId) t
      (Disk.run (Command.run s (.ofString text) (c.command instanceId)) t) := by
  rcases run_change_cases s t text instanceId c with ⟨failure, herror⟩ | ⟨-, hwhole⟩
  · rw [herror]
    exact ⟨fun _ => rfl, .inl rfl⟩
  · exact hwhole

def twinChange : AgentChange := .add ⟨"n", .human, ["chat:me"], [], [], none⟩

theorem exists_changed_twin :
    ∃ again, changed twinTree twinPath "b" twinChange.operation.apply = .ok again := by
  apply Outcome.exists_eq_ok_of_isOk
  unfold changed
  rw [load_twin]
  rfl

theorem unobstructed_twin : Unobstructed twinTree twinPath :=
  ⟨by decide, by decide, by decide, by decide⟩

theorem exists_run_change_twin {c : AgentChange} {again : Inventory}
    (hclear : Unobstructed t twinPath)
    (hchanged : changed t twinPath "b" c.operation.apply = .ok again) (s : Surroundings) :
    ∃ answer t', Disk.run (Command.run s twinPath (c.command "b")) t = (.ok answer, t') := by
  have hname : Path.Plain "fleet" :=
    ⟨⟨by decide, by decide⟩, by decide, by decide, by decide⟩
  have hsits : twinPath.Sits ⟨["", ""]⟩ "fleet" :=
    (Path.Neat.root rfl).sits_join hname.name
  obtain ⟨answer, hcommand⟩ := c.exists_runChange s twinPath "b"
  obtain ⟨t', hrun⟩ := exists_run_runChange (d := ⟨true, []⟩) hchanged hsits hname ⟨rfl, rfl⟩
    hclear (c.event s.stamp "b") answer
  exact ⟨answer, t', (congrArg (Disk.run · t) hcommand).trans hrun⟩

theorem agentChange_allOrNothing_twin : ∀ s : Surroundings, ∃ again t',
    LeadsTo twinTree twinPath "b" twinChange again ∧
      Persisted twinPath again (twinChange.event s.stamp "b") twinTree t' := by
  intro s
  obtain ⟨again, hchanged⟩ := exists_changed_twin
  obtain ⟨answer, t', hrun⟩ := exists_run_change_twin unobstructed_twin hchanged s
  -- stated for any tree, so that the command is not run on this one
  have hall : ∀ t u,
      Disk.run (Command.run s twinPath (twinChange.command "b")) t = (.ok answer, u) →
      ∃ again, LeadsTo t twinPath "b" twinChange again ∧
        Persisted twinPath again (twinChange.event s.stamp "b") t u := by
    intro t u h
    have hwhole := agentChange_allOrNothing s t "/fleet" "b" twinChange
    have htext : Path.ofString "/fleet" = twinPath := rfl
    rw [htext, h] at hwhole
    exact hwhole
  obtain ⟨found, hleads, hpersisted⟩ := hall twinTree t' hrun
  exact ⟨found, t', hleads, hpersisted⟩

end GatewayFleet.Command
