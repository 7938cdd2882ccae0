import GatewayFleet.Proofs.Tree.Walking

/-! What the changes of a tree do. A change that succeeds puts one entry at the location that its
path spells, or takes one away. New directories never take the place of anything. -/

namespace GatewayFleet.Tree

open Location (move)

variable {t t' : Tree} {d l m : Location} {p q dir : Path} {s : String} {bytes : ByteArray}

theorem body_of_split {last : String} {above : List String}
    (h : p.body.reverse.dropWhile (· = "") = last :: above) :
    last ≠ "" ∧ ∃ slashes, (∀ x ∈ slashes, x = "") ∧
      p.body = above.reverse ++ [last] ++ slashes := by
  have hbusy := List.head?_dropWhile_not (fun x : String => decide (x = "")) p.body.reverse
  have hall := List.takeWhile_append_dropWhile (p := fun x : String => decide (x = ""))
    (l := p.body.reverse)
  rw [h] at hbusy hall
  refine ⟨by simpa using hbusy, (p.body.reverse.takeWhile (· = "")).reverse, ?_, ?_⟩
  · intro x hx
    simpa using List.mem_takeWhile_imp (List.mem_reverse.1 hx)
  · simpa using (congrArg List.reverse hall).symm

theorem isName_of_not_dots (hne : s ≠ "") (hdots : ¬(s = "." ∨ s = "..")) : Path.IsName s := by
  rw [not_or] at hdots
  refine ⟨?_, hdots.2⟩
  rw [← Bool.not_eq_true, Path.isIdle_iff, not_or]
  exact ⟨hne, hdots.1⟩

theorem slot_eq_named {closed : Bool} (h : t.slot p = .ok (.named l closed)) :
    l = p.locate ∧ l.isTop = false ∧
      ∀ u, Wider t u → u.get? l = some .directory → u.walk p = .ok l := by
  unfold slot at h
  split at h
  · cases h
  · rename_i last above hsplit
    obtain ⟨hne, slashes, hslashes, hbody⟩ := body_of_split hsplit
    have hidle : ∀ x ∈ slashes, Path.isIdle x = true :=
      fun x hx => Path.isIdle_iff.2 (.inl (hslashes x hx))
    obtain ⟨d, hd, h⟩ := Outcome.bind_eq_ok h
    split at h
    · cases h
    · rename_i hdots
      have hname := isName_of_not_dots hne hdots
      obtain ⟨m, hm, h⟩ := Outcome.bind_eq_ok h
      obtain ⟨rfl, -⟩ := Slot.named.inj (Except.ok.inj h)
      obtain rfl := named_eq_ok hm
      obtain ⟨hnul, hfold⟩ := follow_eq_ok.1 hd
      -- the dot behind the segments above asks for a directory
      obtain ⟨c, habove, hdot⟩ := foldlM_enter_append.1 hfold
      rw [foldlM_enter_single] at hdot
      obtain ⟨hdirectory, hc⟩ := enter_eq_ok hdot
      rw [Location.move_idle (by decide)] at hc
      subst hc
      refine ⟨?_, Location.isTop_child hname.ne_up _, ?_⟩
      · rw [Path.locate_eq_foldl, hbody, List.foldl_append, List.foldl_append,
          ← foldlM_enter_eq_ok habove, List.foldl_cons, List.foldl_nil,
          Location.foldl_move_idle hidle, Location.move_name hname]
      · intro u hu hget
        refine follow_eq_ok.2 ⟨hnul, ?_⟩
        rw [hbody]
        refine foldlM_enter_append.2 ⟨_, ?_, foldlM_enter_idle hget hidle⟩
        refine foldlM_enter_append.2 ⟨_, hu.foldlM_enter habove, ?_⟩
        rw [foldlM_enter_single, enter_name (hu _ hdirectory) hname]
        exact hm

theorem exists_slot_of_walk (h : t.walk p = .ok l) : ∃ found, t.slot p = .ok found := by
  obtain ⟨hnul, hfold⟩ := follow_eq_ok.1 h
  unfold slot
  split
  · exact ⟨_, rfl⟩
  · rename_i last above hsplit
    obtain ⟨hne, slashes, -, hbody⟩ := body_of_split hsplit
    rw [hbody] at hfold
    obtain ⟨m, hm, -⟩ := foldlM_enter_append.1 hfold
    obtain ⟨d, habove, hlast⟩ := foldlM_enter_append.1 hm
    rw [foldlM_enter_single] at hlast
    obtain ⟨hdirectory, -⟩ := enter_eq_ok hlast
    have hd : t.follow p (above.reverse ++ ["."]) = .ok d := by
      refine follow_eq_ok.2 ⟨hnul, foldlM_enter_append.2 ⟨d, habove, ?_⟩⟩
      exact foldlM_enter_single.trans (enter_idle hdirectory (by decide))
    rw [hd]
    by_cases hdots : last = "." ∨ last = ".."
    · exact ⟨.dots, if_pos hdots⟩
    · rw [enter_name hdirectory (isName_of_not_dots hne hdots)] at hlast
      simp only [bind, Except.bind, hlast, if_neg hdots]
      exact ⟨_, rfl⟩

theorem split_of_body {above : List String} (hs : s ≠ "") (h : p.body = above ++ [s]) :
    p.body.reverse.dropWhile (· = "") = s :: above.reverse := by
  simp [h, hs]

theorem slot_of_names (h : p.Names dir s) (hdir : Opens t dir d) :
    t.slot p = (entry d s).map fun l => .named l false := by
  obtain ⟨hnul, above, hbody, habove⟩ := enters_of_names h hdir
  have hdot : (above ++ ["."]).foldlM t.enter ⟨p.isAbsolute, []⟩ = .ok d :=
    foldlM_enter_append.2
      ⟨d, habove, foldlM_enter_single.trans (enter_idle hdir.directory (by decide))⟩
  have hlast : p.body.getLast? ≠ some "" := by
    rw [hbody, List.getLast?_append, List.getLast?_singleton, Option.some_or]
    exact fun heq => h.name.ne_empty (Option.some.inj heq)
  unfold slot
  rw [split_of_body h.name.ne_empty hbody]
  simp only [List.reverse_reverse]
  unfold follow entry
  rw [hnul, start]
  split
  · rfl
  · rw [hdot]
    simp only [bind, Except.bind]
    rw [if_neg (not_or.2 ⟨h.name.ne_dot, h.name.ne_up⟩)]
    cases named d s with
    | error reason => rfl
    | ok l => simp [Except.map, pure, Except.pure, hlast]

theorem exists_opens_of_slot {found : Slot} (h : p.Names dir s) (hslot : t.slot p = .ok found) :
    ∃ d, Opens t dir d := by
  obtain ⟨core, gap, -, -, -, -, hbody⟩ := h.body
  unfold slot at hslot
  rw [split_of_body h.name.ne_empty hbody] at hslot
  obtain ⟨d, hd, -⟩ := Outcome.bind_eq_ok hslot
  obtain ⟨hnul, hfold⟩ := follow_eq_ok.1 hd
  rw [List.reverse_reverse] at hfold
  obtain ⟨c, habove, hdot⟩ := foldlM_enter_append.1 hfold
  rw [foldlM_enter_single] at hdot
  obtain ⟨hdirectory, -⟩ := enter_eq_ok hdot
  exact ⟨c, opens_of_enters h hbody hnul habove hdirectory⟩

/-- A place that no slash follows is that of an entry of the parent. -/
theorem exists_sits_of_slot (h : t.slot p = .ok (.named l false)) :
    ∃ dir s d, p.Sits dir s ∧ Opens t dir d ∧ entry d s = .ok l := by
  obtain ⟨front, s, hbody, hname⟩ : ∃ front s, p.body = front ++ [s] ∧ Path.IsName s := by
    have hplace := h
    unfold slot at hplace
    split at hplace
    · cases hplace
    · rename_i last above hsplit
      obtain ⟨hne, slashes, hslashes, hbody⟩ := body_of_split hsplit
      obtain ⟨d, -, hplace⟩ := Outcome.bind_eq_ok hplace
      split at hplace
      · cases hplace
      · rename_i hdots
        obtain ⟨m, -, hplace⟩ := Outcome.bind_eq_ok hplace
        obtain ⟨-, hopen⟩ := Slot.named.inj (Except.ok.inj hplace)
        refine ⟨above.reverse, last, ?_, isName_of_not_dots hne hdots⟩
        rcases List.eq_nil_or_concat slashes with rfl | ⟨slashes, x, rfl⟩
        · rw [hbody, List.append_nil]
        · have hlast : p.body.getLast? = some "" := by
            rw [hbody, hslashes x (by simp), List.concat_eq_append, ← List.append_assoc,
              List.getLast?_concat]
          exact absurd hlast (of_decide_eq_false hopen)
  obtain ⟨dir, hsits⟩ := Path.exists_sits_of_body hbody hname
  obtain ⟨d, hdir⟩ := exists_opens_of_slot hsits.names h
  rw [slot_of_names hsits.names hdir] at h
  obtain ⟨m, hm, hslot⟩ := Outcome.map_eq_ok h
  obtain ⟨rfl, -⟩ := Slot.named.inj hslot
  exact ⟨dir, s, d, hsits, hdir, hm⟩

theorem openAt_eq_ok (h : t.openAt p = .ok l) :
    l = p.locate ∧ l.isTop = false ∧ t.get? l ≠ some .directory := by
  unfold openAt at h
  split at h
  · cases h
  · obtain ⟨found, hslot, h⟩ := Outcome.bind_eq_ok h
    cases found with
    | top => cases h
    | dots => cases h
    | named m closed =>
      simp only at h
      split at h
      · cases h
      · rename_i hfree
        obtain rfl := Except.ok.inj h
        obtain ⟨hl, htop, -⟩ := slot_eq_named hslot
        exact ⟨hl, htop, fun hdirectory => hfree (.inr hdirectory)⟩

theorem openAt_of_names (h : p.Names dir s) (hdir : Opens t dir d) (hl : entry d s = .ok l)
    (hfree : t.get? l ≠ some .directory) : t.openAt p = .ok l := by
  have hslot := slot_of_names h hdir
  rw [hl] at hslot
  unfold openAt
  rw [if_neg h.ne_empty, hslot]
  simp [Except.map, bind, Except.bind, pure, Except.pure, hfree]

theorem exists_opens_of_openAt (h : p.Names dir s) (hopen : t.openAt p = .ok l) :
    ∃ d, Opens t dir d := by
  unfold openAt at hopen
  rw [if_neg h.ne_empty] at hopen
  obtain ⟨found, hslot, -⟩ := Outcome.bind_eq_ok hopen
  exact exists_opens_of_slot h hslot

theorem entry_of_openAt (h : p.Names dir s) (hopen : t.openAt p = .ok l) :
    ∃ d, Opens t dir d ∧ entry d s = .ok l := by
  obtain ⟨d, hdir⟩ := exists_opens_of_openAt h hopen
  refine ⟨d, hdir, ?_⟩
  unfold openAt at hopen
  rw [if_neg h.ne_empty, slot_of_names h hdir] at hopen
  obtain ⟨found, hslot, hopen⟩ := Outcome.bind_eq_ok hopen
  obtain ⟨m, hm, rfl⟩ := Outcome.map_eq_ok hslot
  simp only at hopen
  split at hopen
  · cases hopen
  · obtain rfl := Except.ok.inj hopen
    exact hm

theorem create_eq_ok (h : t.create p bytes = .ok t') :
    t.openAt p = .ok p.locate ∧ t' = t.set p.locate (.file bytes) := by
  obtain ⟨l, hl, h⟩ := Outcome.bind_eq_ok h
  obtain ⟨rfl, -, -⟩ := openAt_eq_ok hl
  exact ⟨hl, (Except.ok.inj h).symm⟩

theorem append_eq_ok (h : t.append p bytes = .ok t') :
    t.openAt p = .ok p.locate ∧
      t' = t.set p.locate (.file ((t.content? p.locate).getD ByteArray.empty ++ bytes)) := by
  obtain ⟨l, hl, h⟩ := Outcome.bind_eq_ok h
  obtain ⟨rfl, -, -⟩ := openAt_eq_ok hl
  exact ⟨hl, (Except.ok.inj h).symm⟩

theorem mkdir_eq_ok (h : t.mkdir p = .ok t') :
    t' = t.set p.locate .directory ∧ p.locate.isTop = false ∧ t.get? p.locate = none ∧
      t'.walk p = .ok p.locate := by
  unfold mkdir at h
  split at h
  · cases h
  · obtain ⟨found, hslot, h⟩ := Outcome.bind_eq_ok h
    cases found with
    | top => cases h
    | dots => cases h
    | named m closed =>
      simp only at h
      split at h
      · cases h
      · rename_i hfree
        obtain rfl := Except.ok.inj h
        obtain ⟨rfl, htop, hwalk⟩ := slot_eq_named hslot
        have hnew := get?_set_self t Entry.directory htop
        refine ⟨rfl, htop, by simpa using hfree, hwalk _ ?_ hnew⟩
        intro l hl
        by_cases hlp : p.locate = l
        · exact hlp ▸ hnew
        · rw [get?_set_of_ne t _ hlp]
          exact hl

/-- A file that is moved stands at the location that the target spells. -/
theorem rename_eq_ok (h : t.rename p q = .ok t') :
    ∃ bytes, t.get? p.locate = some (.file bytes) ∧ t.get? q.locate ≠ some .directory ∧
      t' = (t.erase p.locate).set q.locate (.file bytes) := by
  obtain ⟨l, hl, h⟩ := Outcome.bind_eq_ok h
  obtain rfl := eq_locate_of_walk hl
  obtain ⟨found, hslot, h⟩ := Outcome.bind_eq_ok h
  cases found with
  | top => cases h
  | dots => cases h
  | named m closed =>
    simp only at h
    split at h
    · cases h
    · split at h
      · rename_i bytes hfile
        split at h
        · cases h
        · rename_i hfree
          obtain ⟨rfl, -, -⟩ := slot_eq_named hslot
          exact ⟨bytes, hfile, hfree, (Except.ok.inj h).symm⟩
      · cases h

theorem rename_of_names (hp : t.walk p = .ok l) (hfile : t.get? l = some (.file bytes))
    (hq : q.Names dir s) (hdir : Opens t dir d) (hm : entry d s = .ok m)
    (hfree : t.get? m ≠ some .directory) :
    t.rename p q = .ok ((t.erase l).set m (.file bytes)) := by
  have hslot := slot_of_names hq hdir
  rw [hm] at hslot
  unfold rename
  rw [hp, hslot]
  simp [Except.map, bind, Except.bind, pure, Except.pure, hfile, hfree]

theorem exists_sits_of_rename (h : t.rename p q = .ok t') :
    ∃ dir s d, q.Sits dir s ∧ Opens t dir d ∧ entry d s = .ok q.locate := by
  obtain ⟨l, -, h⟩ := Outcome.bind_eq_ok h
  obtain ⟨found, hslot, h⟩ := Outcome.bind_eq_ok h
  cases found with
  | top => cases h
  | dots => cases h
  | named m closed =>
    simp only at h
    split at h
    · cases h
    · rename_i hopen
      obtain ⟨rfl, -, -⟩ := slot_eq_named hslot
      rw [Bool.not_eq_true] at hopen
      exact exists_sits_of_slot (hopen ▸ hslot)

theorem remove_of_walk (h : t.walk p = .ok l) : t.remove p = t.erase l := by
  simp only [remove, h]

end GatewayFleet.Tree
