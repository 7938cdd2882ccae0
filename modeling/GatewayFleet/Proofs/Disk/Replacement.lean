import GatewayFleet.Proofs.Disk.Running

/-! Replacing a file. The new content is written to a sibling, which is then moved over the file.
Until that is done the file keeps what it holds; afterwards the sibling is gone and nothing else
has changed. -/

namespace GatewayFleet

namespace Path

def siblingName (s : String) : String := "." ++ s ++ ".tmp"

theorem toList_siblingName (s : String) :
    (siblingName s).toList = '.' :: (s.toList ++ ['.', 't', 'm', 'p']) := by
  simp [siblingName]

theorem isName_siblingName (s : String) : IsName (siblingName s) := by
  have hne {x : String} (hx : x.toList.length < 5) : siblingName s ≠ x := by
    rintro rfl
    simp only [toList_siblingName, List.length_cons, List.length_append, List.length_nil] at hx
    omega
  refine ⟨?_, hne (by decide)⟩
  rw [← Bool.not_eq_true, isIdle_iff, not_or]
  exact ⟨hne (by decide), hne (by decide)⟩

theorem not_mem_siblingName {s : String} (h : '/' ∉ s.toList) : '/' ∉ (siblingName s).toList := by
  rw [toList_siblingName]
  simp [h]

theorem siblingName_ne (s : String) : siblingName s ≠ s := by
  intro h
  have hlength := congrArg (fun x : String => x.toList.length) h
  simp only [toList_siblingName, List.length_cons, List.length_append] at hlength
  omega

end Path

def Location.sibling (l : Location) : Location :=
  l.directory.child (Path.siblingName (l.names.getLastD ""))

@[simp] theorem Location.sibling_child (l : Location) (s : String) :
    (l.child s).sibling = l.child (Path.siblingName s) := by
  rw [Location.sibling, Location.directory_child]
  simp [Location.child]

theorem Location.sibling_ne (l : Location) : l.sibling ≠ l := by
  intro h
  have hlast := congrArg (fun m : Location => m.names.getLastD "") h
  simp only [Location.sibling, Location.child, List.getLastD_concat] at hlast
  exact Path.siblingName_ne _ hlast

/-- A name that every directory takes, for a file and for its temporary sibling. -/
structure Path.Plain (s : String) : Prop where
  name : Path.IsName s
  slash : '/' ∉ s.toList
  nul : '\x00' ∉ s.toList
  fits : (Path.siblingName s).utf8ByteSize ≤ Tree.nameLimit

theorem Path.Plain.entry {s : String} (h : Path.Plain s) (d : Location) :
    Tree.entry d s = .ok (d.child s) := by
  have hshort : ¬ Tree.nameLimit < s.utf8ByteSize := by
    have hfits := h.fits
    simp only [Path.siblingName, String.utf8ByteSize_append] at hfits
    omega
  simp [Tree.entry, Tree.named, h.nul, hshort]

theorem Path.Plain.entry_sibling {s : String} (h : Path.Plain s) (d : Location) :
    Tree.entry d (Path.siblingName s) = .ok (d.child (Path.siblingName s)) := by
  have hnul : '\x00' ∉ (Path.siblingName s).toList := by
    rw [Path.toList_siblingName]
    simp [h.nul]
  simp [Tree.entry, Tree.named, hnul, Nat.not_lt.2 h.fits]

namespace Tree

variable {t t' u : Tree} {d l target temporary : Location} {bytes : ByteArray}

/-- The file at `target` has been replaced through a temporary one, which is gone. -/
structure Replaced (target temporary : Location) (bytes : ByteArray) (t t' : Tree) : Prop where
  content : t'.get? target = some (.file bytes)
  cleared : t'.get? temporary = none
  others : ∀ l, l ≠ target → l ≠ temporary → t'.get? l = t.get? l
  free : t.get? target ≠ some .directory
  temporaryFree : t.get? temporary ≠ some .directory

theorem Replaced.directory_iff (h : Replaced target temporary bytes t t') (l : Location) :
    t'.get? l = some .directory ↔ t.get? l = some .directory := by
  by_cases htarget : l = target
  · subst htarget
    rw [h.content]
    exact iff_of_false nofun h.free
  · by_cases htemporary : l = temporary
    · subst htemporary
      rw [h.cleared]
      exact iff_of_false nofun h.temporaryFree
    · rw [h.others l htarget htemporary]

theorem Replaced.keeps (h : Replaced target temporary bytes t t') :
    Keeps [target, temporary] t t' where
  wider l hl := (h.directory_iff l).2 hl
  others l hl := by
    rw [List.mem_cons, List.mem_singleton, not_or] at hl
    exact .inl (h.others l hl.1 hl.2)

inductive ReplacedAll : List (Location × ByteArray) → Tree → Tree → Prop
  | nil (t : Tree) : ReplacedAll [] t t
  | cons {f : Location × ByteArray} {rest : List (Location × ByteArray)} {t u t' : Tree}
    (first : Replaced f.1 f.1.sibling f.2 t u) (others : ReplacedAll rest u t') :
    ReplacedAll (f :: rest) t t'

variable {files : List (Location × ByteArray)} {f : Location × ByteArray}

theorem ReplacedAll.directory_iff (h : ReplacedAll files t t') (l : Location) :
    t'.get? l = some .directory ↔ t.get? l = some .directory := by
  induction h with
  | nil => exact Iff.rfl
  | cons first _ ih => exact ih.trans (first.directory_iff l)

theorem ReplacedAll.others (h : ReplacedAll files t t')
    (hl : ∀ f ∈ files, l ≠ f.1 ∧ l ≠ f.1.sibling) : t'.get? l = t.get? l := by
  induction h with
  | nil => rfl
  | cons first _ ih =>
    obtain ⟨htarget, htemporary⟩ := hl _ List.mem_cons_self
    rw [ih fun g hg => hl g (List.mem_cons_of_mem _ hg), first.others l htarget htemporary]

structure Separate (files : List (Location × ByteArray)) : Prop where
  nodup : (files.map Prod.fst).Nodup
  siblings : ∀ f ∈ files, ∀ g ∈ files, f.1 ≠ g.1.sibling

theorem Separate.tail (h : Separate (f :: files)) : Separate files where
  nodup := (List.nodup_cons.1 h.nodup).2
  siblings g hg g' hg' :=
    h.siblings g (List.mem_cons_of_mem _ hg) g' (List.mem_cons_of_mem _ hg')

theorem ReplacedAll.content (h : ReplacedAll files t t') (hsep : Separate files)
    (hf : f ∈ files) : t'.get? f.1 = some (.file f.2) := by
  induction h with
  | nil => exact absurd hf List.not_mem_nil
  | cons first rest ih =>
    rcases List.mem_cons.1 hf with rfl | hf
    · -- the files behind it leave it alone
      rw [rest.others, first.content]
      intro g hg
      refine ⟨?_, hsep.siblings _ List.mem_cons_self g (List.mem_cons_of_mem _ hg)⟩
      intro heq
      have hfresh := (List.nodup_cons.1 hsep.nodup).1
      exact hfresh (heq ▸ List.mem_map_of_mem hg)
    · exact ih hsep.tail hf

theorem ReplacedAll.get?_eq_none (h : ReplacedAll files t t') (hnone : t.get? l = none)
    (hl : ∀ f ∈ files, l ≠ f.1) : t'.get? l = none := by
  induction h with
  | nil => exact hnone
  | @cons f _ _ _ _ first _ ih =>
    refine ih ?_ fun g hg => hl g (List.mem_cons_of_mem _ hg)
    by_cases htemporary : l = f.1.sibling
    · rw [htemporary]
      exact first.cleared
    · rw [first.others l (hl f List.mem_cons_self) htemporary]
      exact hnone

theorem ReplacedAll.cleared (h : ReplacedAll files t t') (hsep : Separate files)
    (hf : f ∈ files) : t'.get? f.1.sibling = none := by
  induction h with
  | nil => exact absurd hf List.not_mem_nil
  | cons first rest ih =>
    rcases List.mem_cons.1 hf with rfl | hf
    · refine rest.get?_eq_none first.cleared fun g hg => ?_
      exact Ne.symm (hsep.siblings g (List.mem_cons_of_mem _ hg) _ List.mem_cons_self)
    · exact ih hsep.tail hf

theorem ReplacedAll.keeps (h : ReplacedAll files t t') :
    Keeps (files.map Prod.fst ++ files.map fun f => f.1.sibling) t t' where
  wider l hl := (h.directory_iff l).2 hl
  others l hl := by
    rw [List.mem_append, not_or] at hl
    refine .inl (h.others fun f hf => ⟨?_, ?_⟩)
    · rintro rfl
      exact hl.1 (List.mem_map_of_mem hf)
    · rintro rfl
      exact hl.2 (List.mem_map_of_mem (f := fun g : Location × ByteArray => g.1.sibling) hf)

theorem replaced_of_set (hne : temporary ≠ target) (hfree : t.get? target ≠ some .directory)
    (htemporary : t.get? temporary ≠ some .directory) :
    Replaced target temporary bytes t
      (((t.set temporary (.file bytes)).erase temporary).set target (.file bytes)) where
  content := get?_set_self _ _ (isTop_of_get? hfree)
  cleared := by
    rw [get?_set_of_ne _ _ (Ne.symm hne), get?_erase_self (isTop_of_get? htemporary)]
  others l htarget hl := by
    rw [get?_set_of_ne _ _ (Ne.symm htarget), get?_erase_of_ne hl, get?_set_of_ne _ _ (Ne.symm hl)]
  free := hfree
  temporaryFree := htemporary

end Tree

namespace Disk

open GatewayFleet.Tree (Keeps Opens Replaced)

variable {t t' u : Tree} {p dir : Path} {s : String} {bytes : ByteArray} {d : Location}

theorem temporaryFor_eq (h : p.Ends dir s) (hs : '/' ∉ s.toList) :
    temporaryFor p s = dir.join ⟨[Path.siblingName s]⟩ := by
  unfold temporaryFor
  rw [h.directory_eq]
  exact congrArg dir.join (Path.ofString_of_not_mem (Path.not_mem_siblingName hs))

theorem names_temporaryFor (h : p.Ends dir s) (hs : '/' ∉ s.toList) :
    (temporaryFor p s).Names dir (Path.siblingName s) := by
  rw [temporaryFor_eq h hs]
  exact Path.names_join dir (Path.isName_siblingName s)

theorem replaceFile_eq (h : p.Ends dir s) (bytes : ByteArray) :
    replaceFile p bytes =
      (do requireDirectory .createParent dir
          change .createTemporary (temporaryFor p s) (·.create (temporaryFor p s) bytes)
          moveOver (temporaryFor p s) p) := by
  unfold replaceFile
  rw [h.parent, h.fileName]

theorem run_stage (temporary target : Path) (bytes : ByteArray) (t : Tree) :
    run (do change .createTemporary temporary (·.create temporary bytes)
            moveOver temporary target) t =
      match t.create temporary bytes with
      | .ok u => run (moveOver temporary target) u
      | .error reason => (.error (.refused .createTemporary temporary reason), t) := by
  rw [run_bind, run_change]
  cases t.create temporary bytes <;> rfl

theorem locate_temporaryFor (h : p.Ends dir s) (hs : '/' ∉ s.toList) :
    (temporaryFor p s).locate = p.locate.sibling := by
  rw [(names_temporaryFor h hs).locate, h.locate, Location.sibling_child]

theorem replaced_of_rename (h : p.Ends dir s) (hs : '/' ∉ s.toList)
    (hcreate : t.create (temporaryFor p s) bytes = .ok u)
    (hrename : u.rename (temporaryFor p s) p = .ok t') :
    Replaced p.locate p.locate.sibling bytes t t' := by
  have hne := p.locate.sibling_ne
  obtain ⟨hopen, rfl⟩ := Tree.create_eq_ok hcreate
  obtain ⟨-, htop, htemporary⟩ := Tree.openAt_eq_ok hopen
  obtain ⟨moved, hmoved, hfree, rfl⟩ := Tree.rename_eq_ok hrename
  rw [locate_temporaryFor h hs] at htop htemporary hmoved hfree ⊢
  rw [Tree.get?_set_self _ _ htop] at hmoved
  rw [Tree.get?_set_of_ne _ _ hne] at hfree
  obtain rfl := Entry.file.inj (Option.some.inj hmoved)
  exact Tree.replaced_of_set hne hfree htemporary

theorem remove_of_create (h : p.Ends dir s) (hs : '/' ∉ s.toList)
    (hcreate : t.create (temporaryFor p s) bytes = .ok u) :
    u.remove (temporaryFor p s) = u.erase p.locate.sibling := by
  have hnames := names_temporaryFor h hs
  obtain ⟨hopen, rfl⟩ := Tree.create_eq_ok hcreate
  obtain ⟨-, -, htemporary⟩ := Tree.openAt_eq_ok hopen
  obtain ⟨d, hdir, hentry⟩ := Tree.entry_of_openAt hnames hopen
  have hset := Tree.keeps_set (List.mem_singleton_self _) htemporary (.file bytes)
  rw [Tree.remove_of_walk ((Tree.walk_of_names hnames (hdir.wider hset.wider)).trans hentry),
    locate_temporaryFor h hs]

theorem keeps_of_create (h : p.Ends dir s) (hs : '/' ∉ s.toList)
    (hcreate : t.create (temporaryFor p s) bytes = .ok u) :
    Keeps [p.locate.sibling] t (u.remove (temporaryFor p s)) := by
  rw [remove_of_create h hs hcreate]
  obtain ⟨hopen, rfl⟩ := Tree.create_eq_ok hcreate
  obtain ⟨-, htop, htemporary⟩ := Tree.openAt_eq_ok hopen
  rw [locate_temporaryFor h hs] at htop htemporary ⊢
  have hset := Tree.keeps_set (List.mem_singleton_self _) htemporary (.file bytes)
  refine hset.trans (Tree.keeps_erase (List.mem_singleton_self _) ?_)
  rw [Tree.get?_set_self _ _ htop]
  exact nofun

theorem steps_of_replaceFile (h : p.Ends dir s)
    (hrun : run (replaceFile p bytes) t = (.ok (), t')) :
    ∃ u v, run (requireDirectory .createParent dir) t = (.ok (), u) ∧
      u.create (temporaryFor p s) bytes = .ok v ∧ v.rename (temporaryFor p s) p = .ok t' := by
  rw [replaceFile_eq h] at hrun
  obtain ⟨_, u, hparent, hrun⟩ := run_bind_eq_ok hrun
  rw [run_stage] at hrun
  split at hrun
  · rename_i v hcreated
    rw [run_moveOver] at hrun
    split at hrun
    · rename_i hrenamed
      obtain ⟨-, rfl⟩ := Prod.mk.inj hrun
      exact ⟨u, v, hparent, hcreated, hrenamed⟩
    · cases hrun
  · cases hrun

/-- Where a file that is not replaced gets stuck: at the parent, at the temporary file, or at the
move, after which the temporary file is removed. -/
theorem stuck_of_replaceFile {e : Failure} (h : p.Ends dir s)
    (hrun : run (replaceFile p bytes) t = (.error e, t')) :
    run (requireDirectory .createParent dir) t = (.error e, t') ∨
      e.category = .io ∧ ∃ u, run (requireDirectory .createParent dir) t = (.ok (), u) ∧
        (t' = u ∨ ∃ v, u.create (temporaryFor p s) bytes = .ok v ∧
          t' = v.remove (temporaryFor p s)) := by
  rw [replaceFile_eq h] at hrun
  rcases run_bind_eq_error hrun with hparent | ⟨_, u, hparent, hrun⟩
  · exact .inl hparent
  · right
    rw [run_stage] at hrun
    split at hrun
    · rename_i v hcreated
      rw [run_moveOver] at hrun
      split at hrun
      · cases hrun
      · obtain ⟨he, rfl⟩ := Prod.mk.inj hrun
        rw [← Except.error.inj he]
        exact ⟨rfl, u, hparent, .inr ⟨v, hcreated, rfl⟩⟩
    · obtain ⟨he, rfl⟩ := Prod.mk.inj hrun
      rw [← Except.error.inj he]
      exact ⟨rfl, u, hparent, .inl rfl⟩

theorem replaceFile_eq_ok (h : p.Ends dir s) (hs : '/' ∉ s.toList)
    (hrun : run (replaceFile p bytes) t = (.ok (), t')) :
    ∃ u, run (requireDirectory .createParent dir) t = (.ok (), u) ∧
      Replaced p.locate p.locate.sibling bytes u t' := by
  obtain ⟨u, v, hparent, hcreated, hrenamed⟩ := steps_of_replaceFile h hrun
  exact ⟨u, hparent, replaced_of_rename h hs hcreated hrenamed⟩

theorem replaced_of_opens (h : p.Ends dir s) (hs : '/' ∉ s.toList) (hdir : Opens t dir d)
    (hrun : run (replaceFile p bytes) t = (.ok (), t')) :
    Replaced p.locate p.locate.sibling bytes t t' := by
  obtain ⟨u, hparent, hreplaced⟩ := replaceFile_eq_ok h hs hrun
  rw [requireDirectory_of_opens hdir] at hparent
  obtain ⟨-, rfl⟩ := Prod.mk.inj hparent
  exact hreplaced

theorem replaceFile_eq_error {e : Failure} (h : p.Ends dir s) (hs : '/' ∉ s.toList)
    (hrun : run (replaceFile p bytes) t = (.error e, t')) :
    e.category = .io ∧ Keeps [p.locate.sibling] t t' := by
  have hparent := confined_requireDirectory .createParent dir
  have hkeeps := (hparent.keeps t).mono (List.nil_subset [p.locate.sibling])
  rcases stuck_of_replaceFile h hrun with hmade | ⟨hio, u, hmade, hrest⟩
  · rw [hmade] at hkeeps
    exact ⟨hparent.io t e (congrArg Prod.fst hmade), hkeeps⟩
  · rw [hmade] at hkeeps
    rcases hrest with rfl | ⟨v, hcreated, rfl⟩
    · exact ⟨hio, hkeeps⟩
    · exact ⟨hio, hkeeps.trans (keeps_of_create h hs hcreated)⟩

theorem confined_replaceFile (h : p.Ends dir s) (hs : '/' ∉ s.toList) (bytes : ByteArray) :
    Confined [p.locate, p.locate.sibling] (replaceFile p bytes) := by
  apply Confined.of_run
  intro t outcome u hrun
  cases outcome with
  | ok _ =>
    obtain ⟨v, hmade, hreplaced⟩ := replaceFile_eq_ok h hs hrun
    have hkeeps := (confined_requireDirectory .createParent dir).keeps t
    rw [hmade] at hkeeps
    exact ⟨(hkeeps.mono (List.nil_subset _)).trans hreplaced.keeps, nofun⟩
  | error e =>
    obtain ⟨hio, hkeeps⟩ := replaceFile_eq_error h hs hrun
    refine ⟨hkeeps.mono (List.subset_cons_self _ _), fun e' he => ?_⟩
    rw [← Except.error.inj he]
    exact hio

/-- The two steps that replace a file in a directory that is there can be taken, unless the system
refuses a name or a directory is in the way. -/
theorem exists_run_stage {l m : Location} (h : p.Sits dir s) (hs : '/' ∉ s.toList)
    (hdir : Opens t dir d) (hl : Tree.entry d s = .ok l)
    (hm : Tree.entry d (Path.siblingName s) = .ok m) (hfree : t.get? l ≠ some .directory)
    (htemporary : t.get? m ≠ some .directory) (bytes : ByteArray) :
    ∃ t', run (do change .createTemporary (temporaryFor p s) (·.create (temporaryFor p s) bytes)
                  moveOver (temporaryFor p s) p) t = (.ok (), t') := by
  obtain rfl := Tree.entry_eq_ok hl
  obtain rfl := Tree.entry_eq_ok hm
  have hnames := names_temporaryFor h.ends hs
  have hne : d.child (Path.siblingName s) ≠ d.child s := Location.child_ne (Path.siblingName_ne s)
  have hcreate : t.create (temporaryFor p s) bytes =
      .ok (t.set (d.child (Path.siblingName s)) (.file bytes)) := by
    unfold Tree.create
    rw [Tree.openAt_of_names hnames hdir hm htemporary]
    rfl
  -- the new file leaves every directory in place, so both paths still lead where they did
  have hkeeps : Keeps [d.child (Path.siblingName s)] t (t.set _ (.file bytes)) :=
    Tree.keeps_set (List.mem_singleton_self _) htemporary (.file bytes)
  have hdir' := hdir.wider hkeeps.wider
  have hwalk := (Tree.walk_of_names hnames hdir').trans hm
  have hfile := Tree.get?_set_self t (.file bytes) (Tree.isTop_of_get? htemporary)
  have hfree' := hfree
  rw [← Tree.get?_set_of_ne t (.file bytes) hne] at hfree'
  have hrename := Tree.rename_of_names hwalk hfile h.names hdir' hl hfree'
  rw [run_stage, hcreate]
  dsimp only
  rw [run_moveOver, hrename]
  exact ⟨_, rfl⟩

theorem exists_run_replaceFile {l m : Location} (h : p.Sits dir s) (hs : '/' ∉ s.toList)
    (hdir : Opens t dir d) (hl : Tree.entry d s = .ok l)
    (hm : Tree.entry d (Path.siblingName s) = .ok m) (hfree : t.get? l ≠ some .directory)
    (htemporary : t.get? m ≠ some .directory) (bytes : ByteArray) :
    ∃ t', run (replaceFile p bytes) t = (.ok (), t') := by
  rw [replaceFile_eq h.ends, run_bind_of_ok (requireDirectory_of_opens hdir)]
  exact exists_run_stage h hs hdir hl hm hfree htemporary bytes

end Disk

end GatewayFleet
