import GatewayFleet.Audit.Event
import GatewayFleet.Proofs.Disk.Replacement
import GatewayFleet.Proofs.Json.SingleLine

/-! Recording an event. The log grows by one line, and its directory is created when it is
missing; nothing else changes. -/

namespace GatewayFleet.Audit

open GatewayFleet.Tree (Keeps Opens Wider)
open Disk (Confined run)

variable {t t' u : Tree} {dir : Path} {d log home : Location} {line : ByteArray} {e : Event}

theorem Event.oneLine (e : Event) : Json.OneLine e.line := Json.oneLine_compact _

def logDirectory (dir : Path) : Path := dir.join ⟨[".fleetconf"]⟩

theorem plain_logDirectory : Path.Plain ".fleetconf" :=
  ⟨⟨by decide, by decide⟩, by decide, by decide, by decide⟩

theorem plain_log : Path.Plain "events.ndjson" :=
  ⟨⟨by decide, by decide⟩, by decide, by decide, by decide⟩

theorem names_logDirectory (dir : Path) : (logDirectory dir).Names dir ".fleetconf" :=
  Path.names_join dir plain_logDirectory.name

theorem logFor_eq (dir : Path) : logFor dir = (logDirectory dir).join ⟨["events.ndjson"]⟩ := by
  unfold logFor logDirectory
  rw [Path.ofString_of_not_mem (by decide), Path.ofString_of_not_mem (by decide)]

theorem sits_logFor (dir : Path) :
    (logFor dir).Sits (logDirectory dir) "events.ndjson" := by
  rw [logFor_eq]
  exact (Path.neat_join dir plain_logDirectory.name).sits_join plain_log.name

theorem locate_logDirectory (dir : Path) :
    (logDirectory dir).locate = dir.locate.child ".fleetconf" :=
  (names_logDirectory dir).locate

theorem locate_logFor (dir : Path) :
    (logFor dir).locate = (dir.locate.child ".fleetconf").child "events.ndjson" := by
  rw [(sits_logFor dir).names.locate, locate_logDirectory]

theorem siblingName_ne_logDirectory (s : String) : Path.siblingName s ≠ ".fleetconf" := by
  intro h
  have hlast := congrArg (fun x : String => x.toList.getLast?) h
  simp only [Path.toList_siblingName, ← List.cons_append, List.getLast?_append] at hlast
  simp at hlast

theorem logFor_ne_child (dir : Path) (s : String) :
    (logFor dir).locate ≠ dir.locate.child s := by
  rw [locate_logFor]
  intro h
  exact Location.child_ne_self _ _ (Location.child_inj h).1.symm

theorem logFor_ne_inventory {p : Path} {s : String} (h : p.Sits dir s) :
    (logFor dir).locate ≠ p.locate := by
  rw [h.names.locate]
  exact logFor_ne_child dir s

theorem logFor_ne_sibling {p : Path} {s : String} (h : p.Sits dir s) :
    (logFor dir).locate ≠ p.locate.sibling := by
  rw [h.names.locate, Location.sibling_child]
  exact logFor_ne_child dir _

theorem record_eq (dir : Path) (e : Event) :
    record dir e =
      (do Disk.requireDirectory .createLogDirectory (logDirectory dir)
          Disk.change .openLog (logFor dir)
            (·.append (logFor dir) (e.line ++ "\n").toUTF8)) := by
  have hdirectory := (sits_logFor dir).directory_eq
  simp only [record, hdirectory]

/-- The log at `log`, in the directory `home`, has grown at its end. -/
structure Recorded (home log : Location) (bytes : ByteArray) (t t' : Tree) : Prop where
  content : t'.get? log = some (.file ((t.content? log).getD ByteArray.empty ++ bytes))
  directory : t'.get? home = some .directory
  others : ∀ l, l ≠ home → l ≠ log → t'.get? l = t.get? l
  home : t.get? home = none ∨ t.get? home = some .directory
  free : t.get? log ≠ some .directory

theorem Recorded.wider {bytes : ByteArray} (h : Recorded home log bytes t t') : Wider t t' := by
  intro l hl
  by_cases hhome : l = home
  · rw [hhome]
    exact h.directory
  · by_cases hlog : l = log
    · subst hlog
      exact absurd hl h.free
    · rw [h.others l hhome hlog]
      exact hl

theorem record_eq_ok (hdir : Opens t dir d) (hrun : run (record dir e) t = (.ok (), t')) :
    Recorded (dir.locate.child ".fleetconf") (logFor dir).locate (e.line ++ "\n").toUTF8 t t' := by
  rw [record_eq] at hrun
  obtain ⟨_, u, hmade, hrun⟩ := Disk.run_bind_eq_ok hrun
  have hne : dir.locate.child ".fleetconf" ≠ (logFor dir).locate := by
    rw [locate_logFor]
    exact Location.child_ne_self _ _
  -- the directory of the log is new, or it was there
  have hcreated : u = t ∨ t.get? (dir.locate.child ".fleetconf") = none ∧
      u = t.set (dir.locate.child ".fleetconf") .directory := by
    rw [Disk.run_requireDirectory] at hmade
    split at hmade
    · exact .inl (Prod.mk.inj hmade).2.symm
    · rw [Disk.run_makeDirectories] at hmade
      obtain ⟨-, rfl⟩ := Prod.mk.inj hmade
      rw [← locate_logDirectory]
      exact Tree.mkdirs_of_names (names_logDirectory dir) hdir
  rw [Disk.run_change] at hrun
  split at hrun
  · rename_i happended
    obtain ⟨-, rfl⟩ := Prod.mk.inj hrun
    obtain ⟨hopen, rfl⟩ := Tree.append_eq_ok happended
    obtain ⟨-, -, hfree⟩ := Tree.openAt_eq_ok hopen
    obtain ⟨h, hhome⟩ := Tree.exists_opens_of_openAt (sits_logFor dir).names hopen
    have hdirectory : u.get? (dir.locate.child ".fleetconf") = some .directory := by
      rw [← locate_logDirectory, ← hhome.eq_locate]
      exact hhome.directory
    have hlog : u.get? (logFor dir).locate = t.get? (logFor dir).locate := by
      rcases hcreated with rfl | ⟨-, rfl⟩
      · rfl
      · exact Tree.get?_set_of_ne t _ hne
    refine ⟨?_, ?_, ?_, ?_, hlog ▸ hfree⟩
    · rw [← Tree.content?_congr hlog]
      exact Tree.get?_set_self u _ (Tree.isTop_of_get? hfree)
    · rw [Tree.get?_set_of_ne u _ (Ne.symm hne)]
      exact hdirectory
    · intro l hhomeNe hlogNe
      rw [Tree.get?_set_of_ne u _ (Ne.symm hlogNe)]
      rcases hcreated with rfl | ⟨-, rfl⟩
      · rfl
      · exact Tree.get?_set_of_ne t _ (Ne.symm hhomeNe)
    · rcases hcreated with rfl | ⟨hnone, -⟩
      · exact .inr hdirectory
      · exact .inl hnone
  · cases hrun

theorem confined_record (dir : Path) (e : Event) :
    Confined [(logFor dir).locate] (record dir e) := by
  rw [record_eq]
  refine ((Disk.confined_requireDirectory _ _).mono (List.nil_subset _)).bind fun _ => ?_
  apply Confined.of_run
  intro t outcome u hrun
  rw [Disk.run_change] at hrun
  split at hrun
  · rename_i happended
    obtain ⟨rfl, rfl⟩ := Prod.mk.inj hrun
    obtain ⟨hopen, rfl⟩ := Tree.append_eq_ok happended
    obtain ⟨-, -, hfree⟩ := Tree.openAt_eq_ok hopen
    exact ⟨Tree.keeps_set (List.mem_singleton_self _) hfree _, nofun⟩
  · obtain ⟨rfl, rfl⟩ := Prod.mk.inj hrun
    refine ⟨.refl _ _, fun e he => ?_⟩
    rw [← Except.error.inj he]
    rfl

theorem record_eq_error {failure : Failure} (hrun : run (record dir e) t = (.error failure, t')) :
    Keeps [] t t' := by
  rw [record_eq] at hrun
  have hhome := Disk.confined_requireDirectory .createLogDirectory (logDirectory dir)
  rcases Disk.run_bind_eq_error hrun with hmade | ⟨_, u, hmade, hchange⟩
  · have hkeeps := hhome.keeps t
    rwa [hmade] at hkeeps
  · have hkeeps := hhome.keeps t
    rw [hmade] at hkeeps
    rw [Disk.run_change] at hchange
    split at hchange
    · cases hchange
    · obtain ⟨-, rfl⟩ := Prod.mk.inj hchange
      exact hkeeps

theorem exists_run_record (hdir : Opens t dir d)
    (hhome : t.get? (dir.locate.child ".fleetconf") = some .directory)
    (hlog : t.get? (logFor dir).locate ≠ some .directory) (e : Event) :
    ∃ t', run (record dir e) t = (.ok (), t') := by
  obtain rfl := hdir.eq_locate
  have hopens : Opens t (logDirectory dir) (dir.locate.child ".fleetconf") :=
    ⟨(Tree.walk_of_names (names_logDirectory dir) hdir).trans (plain_logDirectory.entry _), hhome⟩
  rw [locate_logFor] at hlog
  have hopen := Tree.openAt_of_names (sits_logFor dir).names hopens (plain_log.entry _) hlog
  rw [record_eq, Disk.run_bind_of_ok (Disk.requireDirectory_of_opens hopens), Disk.run_change,
    Tree.append, hopen]
  exact ⟨_, rfl⟩

variable {α β : Type} {bytes : ByteArray} {ls : List Location}

/-- The log has grown by the bytes, or it is as it was because the steps have failed. -/
def Logged (log : Location) (bytes : ByteArray) (t : Tree) : Except Failure α × Tree → Prop
  | (.ok _, t') => t'.content? log = some ((t.content? log).getD ByteArray.empty ++ bytes)
  | (.error _, t') => t'.content? log = t.content? log

theorem logged_record (hdir : Opens t dir d) (e : Event) :
    Logged (logFor dir).locate (e.line ++ "\n").toUTF8 t (run (record dir e) t) := by
  rcases hrun : run (record dir e) t with ⟨outcome, t'⟩
  cases outcome with
  | ok _ => exact Tree.content?_eq_some_iff.2 (record_eq_ok hdir hrun).content
  | error failure => exact (record_eq_error hrun).content? List.not_mem_nil

theorem logged_bind {before : Disk α} {after : α → Disk β} (hkeeps : Keeps ls t (run before t).2)
    (hlog : log ∉ ls)
    (h : ∀ a u, run before t = (.ok a, u) → Logged log bytes u (run (after a) u)) :
    Logged log bytes t (run (before >>= after) t) := by
  rcases hbefore : run before t with ⟨outcome, u⟩
  rw [hbefore] at hkeeps
  have hsame : u.content? log = t.content? log := hkeeps.content? hlog
  cases outcome with
  | error failure =>
    rw [Disk.run_bind_of_error hbefore]
    exact hsame
  | ok a =>
    have hafter := h a u hbefore
    rw [Disk.run_bind_of_ok hbefore]
    rcases hrun : run (after a) u with ⟨outcome, t'⟩
    rw [hrun] at hafter
    cases outcome with
    | ok _ =>
      rw [Logged, ← hsame]
      exact hafter
    | error failure => exact Eq.trans hafter hsame

theorem Logged.pure {d : Disk α} (h : Logged log bytes t (run d t)) (b : β) :
    Logged log bytes t (run (d >>= fun _ => Pure.pure b) t) := by
  rw [Disk.run_bind]
  rcases hrun : run d t with ⟨outcome, t'⟩
  rw [hrun] at h
  cases outcome with
  | ok _ => exact h
  | error failure => exact h

end GatewayFleet.Audit
