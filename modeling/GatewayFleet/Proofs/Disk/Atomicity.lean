import GatewayFleet.Proofs.Disk.Replacement

/-! A file is replaced as a whole or not at all. When it is replaced, it holds the new content and
its temporary sibling is gone; when it is not, all that stood in the tree still stands there, but
for an old temporary file that was in the way. In both cases directories that were missing on the
way to the file may have appeared, and there is nothing else. -/

namespace GatewayFleet

def Path.Passes (p : Path) (l : Location) : Prop :=
  ∃ dir q, p.parent? = some dir ∧ dir.Above q ∧ l = q.locate

namespace Tree

variable {t t' u : Tree} {p dir : Path} {s : String} {d : Location} {bytes : ByteArray}

structure Rewritten (p : Path) (bytes : ByteArray) (t t' : Tree) : Prop where
  content : t'.stat p = .ok (.file bytes)
  cleared : t'.get? p.locate.sibling = none
  kept : ∀ l e, l ≠ p.locate → l ≠ p.locate.sibling → t.get? l = some e → t'.get? l = some e
  made : ∀ l e, l ≠ p.locate → t.get? l = none → t'.get? l = some e →
    e = .directory ∧ p.Passes l

/-- All is as it was but for missing directories. An old temporary file may be gone, which only
stands beside a path that ends in a name. -/
structure Spared (p : Path) (t t' : Tree) : Prop where
  kept : ∀ l e, (p.fileName? ≠ none → l = p.locate.sibling → e = .directory) →
    t.get? l = some e → t'.get? l = some e
  made : ∀ l e, t.get? l = none → t'.get? l = some e → e = .directory ∧ p.Passes l
  leftover : ∀ old, t'.get? p.locate.sibling = some (.file old) →
    t.get? p.locate.sibling = some (.file old)

/-- The system takes the name of a file and that of its temporary sibling in the directory, and no
directory stands at either place. -/
structure Takes (t : Tree) (d : Location) (s : String) : Prop where
  name : entry d s = .ok (d.child s)
  sibling : entry d (Path.siblingName s) = .ok (d.child (Path.siblingName s))
  free : t.get? (d.child s) ≠ some .directory
  siblingFree : t.get? (d.child (Path.siblingName s)) ≠ some .directory

theorem Grows.kept (h : Grows dir t u) {l : Location} {e : Entry} (hget : t.get? l = some e) :
    u.get? l = some e := by
  rcases h l with heq | ⟨hnone, -, -⟩
  · exact heq.trans hget
  · rw [hget] at hnone
    cases hnone

theorem Grows.made (h : Grows dir t u) (hparent : p.parent? = some dir) {l : Location} {e : Entry}
    (hnone : t.get? l = none) (hget : u.get? l = some e) : e = .directory ∧ p.Passes l := by
  rcases h l with heq | ⟨-, hnew, q, hq, hl⟩
  · rw [heq, hnone] at hget
    cases hget
  · exact ⟨Option.some.inj (hget.symm.trans hnew), dir, q, hparent, hq, hl⟩

theorem Spared.refl (p : Path) (t : Tree) : Spared p t t where
  kept _ _ _ hget := hget
  made _ _ hnone hget := absurd (hnone.symm.trans hget) nofun
  leftover _ hget := hget

theorem Spared.stat {q : Path} {e : Entry} (h : Spared p t t')
    (hq : p.fileName? ≠ none → q.locate = p.locate.sibling → e = .directory)
    (hstat : t.stat q = .ok e) : t'.stat q = .ok e := by
  have hwider : Wider t t' := fun l hl => h.kept l .directory (fun _ _ => rfl) hl
  obtain ⟨hne, l, hwalk, hget⟩ := stat_eq_ok.1 hstat
  obtain rfl := eq_locate_of_walk hwalk
  exact stat_eq_ok.2 ⟨hne, q.locate, hwider.walk hwalk, h.kept _ e hq hget⟩

theorem spared_of_grows (hparent : p.parent? = some dir) (h : Grows dir t u) : Spared p t u where
  kept _ _ _ hget := h.kept hget
  made _ _ hnone hget := h.made hparent hnone hget
  leftover old hget := by
    rcases h p.locate.sibling with heq | ⟨-, hnew, -⟩
    · exact heq.symm.trans hget
    · rw [hnew] at hget
      cases hget

theorem Spared.erase_set (h : Spared p t u) (hname : p.fileName? ≠ none)
    (hfree : u.get? p.locate.sibling ≠ some .directory) (bytes : ByteArray) :
    Spared p t ((u.set p.locate.sibling (.file bytes)).erase p.locate.sibling) := by
  have hgone := get?_erase_self (t := u.set p.locate.sibling (.file bytes)) (isTop_of_get? hfree)
  have hother (l : Location) (hl : l ≠ p.locate.sibling) :
      ((u.set p.locate.sibling (.file bytes)).erase p.locate.sibling).get? l = u.get? l := by
    rw [get?_erase_of_ne hl, get?_set_of_ne _ _ (Ne.symm hl)]
  constructor
  · intro l e hl hget
    have hkept := h.kept l e hl hget
    by_cases hsibling : l = p.locate.sibling
    · rw [hsibling, hl hname hsibling] at hkept
      exact absurd hkept hfree
    · exact (hother l hsibling).trans hkept
  · intro l e hnone hget
    by_cases hsibling : l = p.locate.sibling
    · rw [hsibling, hgone] at hget
      cases hget
    · exact h.made l e hnone ((hother l hsibling).symm.trans hget)
  · intro old hget
    rw [hgone] at hget
    cases hget

theorem rewritten_of_replaced (hsits : p.Sits dir s) (hgrows : Grows dir t u)
    (hdir : Opens u dir d) (htakes : Takes u d s)
    (h : Replaced p.locate p.locate.sibling bytes u t') : Rewritten p bytes t t' where
  content := by
    have hlocate : p.locate = d.child s := by rw [hdir.eq_locate, hsits.ends.locate]
    exact stat_of_names hsits.names (hdir.wider h.keeps.wider) htakes.name (hlocate ▸ h.content)
  cleared := h.cleared
  kept l e htarget hsibling hget := by
    rw [h.others l htarget hsibling]
    exact hgrows.kept hget
  made l e htarget hnone hget := by
    by_cases hsibling : l = p.locate.sibling
    · rw [hsibling, h.cleared] at hget
      cases hget
    · rw [h.others l htarget hsibling] at hget
      exact hgrows.made hsits.parent hnone hget

end Tree

namespace Disk

open GatewayFleet.Tree (Grows Opens Replaced Rewritten Spared Takes)

variable {t t' u v : Tree} {p dir : Path} {s : String} {d : Location} {bytes : ByteArray}

theorem takes_of_stage (h : p.Ends dir s) (hs : '/' ∉ s.toList)
    (hcreate : u.create (temporaryFor p s) bytes = .ok v)
    (hrename : v.rename (temporaryFor p s) p = .ok t') :
    ∃ d, p.Sits dir s ∧ Opens u dir d ∧ Takes u d s := by
  have hreplaced := replaced_of_rename h hs hcreate hrename
  have hnames := names_temporaryFor h hs
  obtain ⟨d, hdir, hsibling⟩ := Tree.entry_of_openAt hnames (Tree.create_eq_ok hcreate).1
  -- the name behind which the file stands is the one that the path ends in
  obtain ⟨dir', s', d', hsits, hdir', hname⟩ := Tree.exists_sits_of_rename hrename
  obtain rfl := Option.some.inj (hsits.parent.symm.trans h.parent)
  obtain rfl := Option.some.inj (hsits.fileName.symm.trans h.fileName)
  obtain rfl := hdir.eq_locate
  obtain rfl := hdir'.eq_locate
  rw [h.locate] at hname
  rw [hnames.locate] at hsibling
  have hfree := hreplaced.free
  have hsiblingFree := hreplaced.temporaryFree
  rw [h.locate] at hfree
  rw [h.locate, Location.sibling_child] at hsiblingFree
  exact ⟨_, hsits, hdir, hname, hsibling, hfree, hsiblingFree⟩

theorem exists_takes_of_replaceFile (h : p.Ends dir s) (hs : '/' ∉ s.toList)
    (hrun : run (replaceFile p bytes) t = (.ok (), t')) :
    ∃ u d, p.Sits dir s ∧ run (requireDirectory .createParent dir) t = (.ok (), u) ∧
      Opens u dir d ∧ Takes u d s ∧ Replaced p.locate p.locate.sibling bytes u t' := by
  obtain ⟨u, v, hparent, hcreated, hrenamed⟩ := steps_of_replaceFile h hrun
  obtain ⟨d, hsits, hdir, htakes⟩ := takes_of_stage h hs hcreated hrenamed
  exact ⟨u, d, hsits, hparent, hdir, htakes, replaced_of_rename h hs hcreated hrenamed⟩

theorem grows_of_requireDirectory {outcome : Except Failure Unit} {action : Action}
    (h : run (requireDirectory action dir) t = (outcome, u)) : Grows dir t u := by
  have hgrows := grows_requireDirectory action dir t
  rwa [h] at hgrows

theorem spared_of_replaceFile {e : Failure} (h : p.Ends dir s) (hs : '/' ∉ s.toList)
    (hrun : run (replaceFile p bytes) t = (.error e, t')) : Spared p t t' := by
  rcases stuck_of_replaceFile h hrun with hmade | ⟨-, u, hmade, hrest⟩
  · exact Tree.spared_of_grows h.parent (grows_of_requireDirectory hmade)
  · have hspared := Tree.spared_of_grows h.parent (grows_of_requireDirectory hmade)
    rcases hrest with rfl | ⟨v, hcreated, rfl⟩
    · exact hspared
    · -- the temporary file was created where no directory stood, and is taken away again
      rw [remove_of_create h hs hcreated]
      obtain ⟨hopen, rfl⟩ := Tree.create_eq_ok hcreated
      obtain ⟨-, -, hfree⟩ := Tree.openAt_eq_ok hopen
      rw [locate_temporaryFor h hs] at hfree ⊢
      have hname : p.fileName? ≠ none := by
        rw [h.fileName]
        exact Option.some_ne_none s
      exact hspared.erase_set hname hfree bytes

theorem spared_of_nameless {outcome : Except Failure Unit} (h : p.fileName? = none)
    (hrun : run (replaceFile p bytes) t = (outcome, t')) :
    outcome ≠ .ok () ∧ Spared p t t' := by
  unfold replaceFile at hrun
  rw [h] at hrun
  cases hparent : p.parent? with
  | none =>
    rw [hparent] at hrun
    obtain ⟨rfl, rfl⟩ := Prod.mk.inj hrun
    exact ⟨nofun, .refl p t⟩
  | some dir =>
    rw [hparent] at hrun
    rcases hmade : run (requireDirectory .createParent dir) t with ⟨made, u⟩
    have hspared := Tree.spared_of_grows hparent (grows_of_requireDirectory hmade)
    cases made with
    | error e =>
      rw [run_bind_of_error hmade] at hrun
      obtain ⟨rfl, rfl⟩ := Prod.mk.inj hrun
      exact ⟨nofun, hspared⟩
    | ok _ =>
      rw [run_bind_of_ok hmade] at hrun
      obtain ⟨rfl, rfl⟩ := Prod.mk.inj hrun
      exact ⟨nofun, hspared⟩

theorem exists_run_of_takes (hsits : p.Sits dir s) (hs : '/' ∉ s.toList)
    (hmade : run (requireDirectory .createParent dir) t = (.ok (), u)) (hdir : Opens u dir d)
    (htakes : Takes u d s) (bytes : ByteArray) :
    ∃ t', run (replaceFile p bytes) t = (.ok (), t') := by
  rw [replaceFile_eq hsits.ends, run_bind_of_ok hmade]
  exact exists_run_stage hsits hs hdir htakes.name htakes.sibling htakes.free htakes.siblingFree
    bytes

theorem exists_ends_of_run {text : String}
    (hrun : run (replaceFile (.ofString text) bytes) t = (.ok (), t')) :
    ∃ dir s, (Path.ofString text).Ends dir s ∧ '/' ∉ s.toList := by
  cases hname : (Path.ofString text).fileName? with
  | none => exact absurd rfl (spared_of_nameless hname hrun).1
  | some s =>
    obtain ⟨hmem, dir, hends⟩ := Path.exists_ends_of_fileName hname
    exact ⟨dir, s, hends, Path.not_mem_segments_ofString hmem⟩

/-- Whatever stands in the tree and however the path is spelled, a file is replaced as a whole or
all is spared. It is replaced if the path ends in a name, the parent can be made a directory, and
that directory takes the file and its temporary sibling; it is spared in any other case. -/
theorem replaceFile_atomic (t : Tree) (text : String) (bytes : ByteArray) :
    (∀ t', run (replaceFile (.ofString text) bytes) t = (.ok (), t') →
      Rewritten (.ofString text) bytes t t') ∧
    (∀ e t', run (replaceFile (.ofString text) bytes) t = (.error e, t') →
      Spared (.ofString text) t t' ∧
        ∀ entry, t.stat (.ofString text) = .ok entry → t'.stat (.ofString text) = .ok entry) ∧
    ((∃ t', run (replaceFile (.ofString text) bytes) t = (.ok (), t')) ↔
      ∃ dir s u d, (Path.ofString text).Sits dir s ∧
        run (requireDirectory .createParent dir) t = (.ok (), u) ∧ Opens u dir d ∧
        Takes u d s) := by
  refine ⟨fun t' hrun => ?_, fun e t' hrun => ?_, ?_, ?_⟩
  · obtain ⟨dir, s, hends, hs⟩ := exists_ends_of_run hrun
    obtain ⟨u, d, hsits, hmade, hdir, htakes, h⟩ := exists_takes_of_replaceFile hends hs hrun
    exact Tree.rewritten_of_replaced hsits (grows_of_requireDirectory hmade) hdir htakes h
  · have hspared : Spared (.ofString text) t t' := by
      cases hname : (Path.ofString text).fileName? with
      | none => exact (spared_of_nameless hname hrun).2
      | some s =>
        obtain ⟨hmem, dir, hends⟩ := Path.exists_ends_of_fileName hname
        exact spared_of_replaceFile hends (Path.not_mem_segments_ofString hmem) hrun
    refine ⟨hspared, fun entry hstat => hspared.stat (fun _ hsame => ?_) hstat⟩
    exact absurd hsame.symm (Location.sibling_ne _)
  · rintro ⟨t', hrun⟩
    obtain ⟨dir, s, hends, hs⟩ := exists_ends_of_run hrun
    obtain ⟨u, d, hsits, hmade, hdir, htakes, -⟩ := exists_takes_of_replaceFile hends hs hrun
    exact ⟨dir, s, u, d, hsits, hmade, hdir, htakes⟩
  · rintro ⟨dir, s, u, d, hsits, hmade, hdir, htakes⟩
    obtain ⟨hmem, -⟩ := Path.exists_ends_of_fileName hsits.fileName
    exact exists_run_of_takes hsits (Path.not_mem_segments_ofString hmem) hmade hdir htakes bytes

-- A directory is not replaced, and an old temporary file beside it is lost.
example : (run (replaceFile (.ofString "a") ByteArray.empty)
    ⟨[(⟨false, ["a"]⟩, .directory), (⟨false, [".a.tmp"]⟩, .file ByteArray.empty)]⟩).2.entries =
      [(⟨false, ["a"]⟩, .directory)] := by
  decide +kernel

end Disk

end GatewayFleet
