import GatewayFleet.Proofs.Tree.Changing

/-! What a change leaves alone. Most steps touch a few entries; apart from these, directories may
appear where nothing was, and that is all. A directory with those above it is created in this way,
so it never takes the place of anything. -/

namespace GatewayFleet.Tree

variable {t t' u v : Tree} {d l : Location} {p q dir : Path} {s : String} {bytes : ByteArray}
variable {ls ls' : List Location}

/-- Apart from what is touched, nothing changes but that directories appear where nothing was. -/
structure Keeps (touched : List Location) (t t' : Tree) : Prop where
  wider : Wider t t'
  others : ∀ l, l ∉ touched →
    t'.get? l = t.get? l ∨ t.get? l = none ∧ t'.get? l = some .directory

theorem Keeps.refl (ls : List Location) (t : Tree) : Keeps ls t t :=
  ⟨fun _ h => h, fun _ _ => .inl rfl⟩

theorem Keeps.trans (h : Keeps ls t u) (h' : Keeps ls u v) : Keeps ls t v where
  wider l hl := h'.wider l (h.wider l hl)
  others l hl := by
    rcases h'.others l hl with heq | ⟨hnone, hnew⟩
    · rw [heq]
      exact h.others l hl
    · -- where the second step creates a directory, the first one cannot have created any
      rcases h.others l hl with heq | ⟨-, hdirectory⟩
      · exact .inr ⟨heq.symm.trans hnone, hnew⟩
      · rw [hdirectory] at hnone
        cases hnone

theorem Keeps.mono (h : Keeps ls t t') (hsub : ls ⊆ ls') : Keeps ls' t t' :=
  ⟨h.wider, fun l hl => h.others l fun hmem => hl (hsub hmem)⟩

theorem Keeps.content? (h : Keeps ls t t') (hl : l ∉ ls) : t'.content? l = t.content? l := by
  rcases h.others l hl with heq | ⟨hnone, hnew⟩
  · exact content?_congr heq
  · simp only [Tree.content?, hnone, hnew]

theorem Keeps.isFile (h : Keeps ls t t') (hl : l ∉ ls) : t'.isFile l = t.isFile l := by
  rw [Tree.isFile, h.content? hl, Tree.isFile]

theorem Keeps.stat_file (h : Keeps ls t t') (hp : p.locate ∉ ls)
    (hstat : t.stat p = .ok (.file bytes)) : t'.stat p = .ok (.file bytes) := by
  obtain ⟨hne, l, hwalk, hget⟩ := stat_eq_ok.1 hstat
  obtain rfl := eq_locate_of_walk hwalk
  refine stat_eq_ok.2 ⟨hne, p.locate, h.wider.walk hwalk, content?_eq_some_iff.1 ?_⟩
  rw [h.content? hp]
  exact content?_eq_some_iff.2 hget

theorem keeps_set (hmem : l ∈ ls) (hfree : t.get? l ≠ some .directory) (e : Entry) :
    Keeps ls t (t.set l e) where
  wider m hm := by
    have hne : l ≠ m := by
      rintro rfl
      exact hfree hm
    rw [get?_set_of_ne t e hne]
    exact hm
  others m hm := by
    have hne : l ≠ m := by
      rintro rfl
      exact hm hmem
    exact .inl (get?_set_of_ne t e hne)

theorem keeps_erase (hmem : l ∈ ls) (hfree : t.get? l ≠ some .directory) :
    Keeps ls t (t.erase l) where
  wider m hm := by
    have hne : m ≠ l := by
      rintro rfl
      exact hfree hm
    rw [get?_erase_of_ne hne]
    exact hm
  others m hm := by
    have hne : m ≠ l := by
      rintro rfl
      exact hm hmem
    exact .inl (get?_erase_of_ne hne)

theorem opens_of_isDirectoryAt (h : t.isDirectoryAt p = true) : Opens t p p.locate := by
  unfold isDirectoryAt at h
  split at h
  · rename_i hstat
    obtain ⟨-, l, hwalk, hget⟩ := stat_eq_ok.1 hstat
    obtain rfl := eq_locate_of_walk hwalk
    exact ⟨hwalk, hget⟩
  · cases h

theorem Opens.isDirectoryAt (h : Opens t p l) (hne : p ≠ Path.empty) :
    t.isDirectoryAt p = true := by
  have hstat : t.stat p = .ok .directory := stat_eq_ok.2 ⟨hne, l, h.walk, h.directory⟩
  simp only [Tree.isDirectoryAt, hstat]

theorem Opens.mkdir (h : Opens t p l) (hne : p ≠ Path.empty) :
    t.mkdir p = .error .alreadyThere := by
  obtain ⟨found, hslot⟩ := exists_slot_of_walk h.walk
  unfold Tree.mkdir
  rw [if_neg hne, hslot]
  cases found with
  | top => rfl
  | dots => rfl
  | named m closed =>
    obtain ⟨rfl, -, -⟩ := slot_eq_named hslot
    rw [← h.eq_locate]
    simp [bind, Except.bind, h.directory]
    rfl

theorem mkdirs_of_refused {reason : OsError} (hne : p ≠ Path.empty)
    (h : t.mkdir p = .error reason) (hreason : reason ≠ .noEntry) :
    t.mkdirs p = (if t.isDirectoryAt p then .ok () else .error reason, t) := by
  unfold Tree.mkdirs mkdirAll
  rw [if_neg hne, h]
  cases reason with
  | noEntry => exact absurd rfl hreason
  | _ => rfl

theorem Opens.mkdirs (h : Opens t p l) : t.mkdirs p = (.ok (), t) := by
  by_cases hne : p = Path.empty
  · unfold Tree.mkdirs mkdirAll
    rw [if_pos hne]
  · rw [mkdirs_of_refused hne (h.mkdir hne) nofun, if_pos (h.isDirectoryAt hne)]

/-- Directories have appeared where nothing was, and only at the path or at one above it. -/
def Grows (p : Path) (t t' : Tree) : Prop :=
  ∀ l, t'.get? l = t.get? l ∨
    t.get? l = none ∧ t'.get? l = some .directory ∧ ∃ q, p.Above q ∧ l = q.locate

theorem Grows.refl (p : Path) (t : Tree) : Grows p t t := fun _ => .inl rfl

theorem Grows.trans (h : Grows p t u) (h' : Grows p u v) : Grows p t v := by
  intro l
  rcases h' l with heq | ⟨hnone, hnew⟩
  · rw [heq]
    exact h l
  · -- where the second step creates a directory, the first one cannot have created any
    rcases h l with heq | ⟨-, hdirectory, -⟩
    · exact .inr ⟨heq.symm.trans hnone, hnew⟩
    · rw [hdirectory] at hnone
      cases hnone

theorem Grows.of_parent (hparent : p.parent? = some q) (h : Grows q t t') : Grows p t t' := by
  intro l
  rcases h l with heq | ⟨hnone, hnew, r, hr, hl⟩
  · exact .inl heq
  · exact .inr ⟨hnone, hnew, r, .parent hparent hr, hl⟩

theorem Grows.keeps (h : Grows p t t') : Keeps ls t t' where
  wider l hl := by
    rcases h l with heq | ⟨hnone, -, -⟩
    · exact heq.trans hl
    · rw [hl] at hnone
      cases hnone
  others l _ := (h l).imp_right fun hnew => ⟨hnew.1, hnew.2.1⟩

theorem mkdir_spec (h : t.mkdir p = .ok t') : Grows p t t' ∧ Opens t' p p.locate := by
  obtain ⟨rfl, htop, hnone, hwalk⟩ := mkdir_eq_ok h
  refine ⟨fun l => ?_, hwalk, get?_set_self t _ htop⟩
  by_cases hl : p.locate = l
  · subst hl
    exact .inr ⟨hnone, get?_set_self t _ htop, p, .here p, rfl⟩
  · exact .inl (get?_set_of_ne t _ hl)

theorem opens_of_there {e : OsError}
    (h : (if t.isDirectoryAt p then .ok () else .error e : Except OsError Unit) = .ok ()) :
    Opens t p p.locate := by
  split at h
  · rename_i hthere
    exact opens_of_isDirectoryAt hthere
  · cases h

/-- All that is created for a directory is directories, and it is there in the end. -/
theorem mkdirAll_spec (above : Nat) (t : Tree) (p : Path) :
    Grows p t (mkdirAll above t p).2 ∧
      ((mkdirAll above t p).1 = .ok () → Opens (mkdirAll above t p).2 p p.locate) := by
  fun_induction mkdirAll above t p with
  -- the empty path, and a directory that is created at once
  | case1 => exact ⟨.refl _ _, fun _ => opens_empty t⟩
  | case2 _ _ _ _ hnew =>
    obtain ⟨hgrows, hopens⟩ := mkdir_spec hnew
    exact ⟨hgrows, fun _ => hopens⟩
  -- the parent first: it fails, or the directory follows, or something is there already
  | case3 _ _ _ _ parent hparent _ _ hmade ih =>
    rw [hmade] at ih
    exact ⟨ih.1.of_parent hparent, nofun⟩
  | case4 _ _ _ _ parent hparent _ _ hmade _ hnew ih =>
    rw [hmade] at ih
    obtain ⟨hgrows, hopens⟩ := mkdir_spec hnew
    exact ⟨(ih.1.of_parent hparent).trans hgrows, fun _ => hopens⟩
  | case5 _ _ _ _ parent hparent _ _ hmade _ _ ih =>
    rw [hmade] at ih
    exact ⟨ih.1.of_parent hparent, opens_of_there⟩
  -- no parent left, and a refusal for another reason
  | case6 => exact ⟨.refl _ _, nofun⟩
  | case7 => exact ⟨.refl _ _, opens_of_there⟩

theorem mkdirs_grows (t : Tree) (p : Path) : Grows p t (t.mkdirs p).2 :=
  (mkdirAll_spec p.segments.length t p).1

theorem mkdirs_keeps (t : Tree) (p : Path) : Keeps [] t (t.mkdirs p).2 := (mkdirs_grows t p).keeps

theorem opens_of_mkdirs (h : (t.mkdirs p).1 = .ok ()) : Opens (t.mkdirs p).2 p p.locate :=
  (mkdirAll_spec p.segments.length t p).2 h

theorem mkdir_refused {reason : OsError} (h : q.Names dir s) (hdir : Opens t dir d)
    (hmkdir : t.mkdir q = .error reason) : reason ≠ .noEntry := by
  rintro rfl
  unfold mkdir at hmkdir
  rw [if_neg h.ne_empty, slot_of_names h hdir] at hmkdir
  cases hentry : entry d s with
  | error e =>
    rw [hentry] at hmkdir
    obtain rfl : e = .noEntry := Except.error.inj hmkdir
    exact entry_ne_noEntry d s hentry
  | ok l =>
    rw [hentry] at hmkdir
    simp only [Except.map, bind, Except.bind] at hmkdir
    split at hmkdir <;> cases hmkdir

theorem mkdirs_of_names (h : q.Names dir s) (hdir : Opens t dir d) :
    (t.mkdirs q).2 = t ∨
      t.get? q.locate = none ∧ (t.mkdirs q).2 = t.set q.locate .directory := by
  cases hmkdir : t.mkdir q with
  | ok t' =>
    obtain ⟨rfl, -, hnone, -⟩ := mkdir_eq_ok hmkdir
    refine .inr ⟨hnone, ?_⟩
    unfold mkdirs mkdirAll
    rw [if_neg h.ne_empty, hmkdir]
  | error reason =>
    left
    rw [mkdirs_of_refused h.ne_empty hmkdir (mkdir_refused h hdir hmkdir)]

end GatewayFleet.Tree
