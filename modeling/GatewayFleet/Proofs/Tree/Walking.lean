import GatewayFleet.Tree
import GatewayFleet.Proofs.Outcome
import GatewayFleet.Proofs.Path.Canonical

/-! Paths followed in a tree. A path that can be followed leads to the location it spells, since a
tree has no links. What can be followed depends on the directories of the tree alone. -/

namespace GatewayFleet.Tree

open Location (move)

variable {t t' : Tree} {d l m : Location} {p dir : Path} {s : String}

@[simp] theorem get?_erase_self (h : l.isTop = false) : (t.erase l).get? l = none := by
  rw [get?, h, if_neg Bool.false_ne_true, erase]
  induction t.entries with
  | nil => rfl
  | cons m rest ih =>
    by_cases hm : m.1 = l
    · simpa [hm] using ih
    · simpa [hm, find?] using ih

theorem get?_erase_of_ne (h : m ≠ l) : (t.erase l).get? m = t.get? m := by
  have hfind (es : List (Location × Entry)) :
      find? (es.filter fun e => e.1 ≠ l) m = find? es m := by
    induction es with
    | nil => rfl
    | cons e rest ih =>
      by_cases he : e.1 = l
      · simpa [he, find?, Ne.symm h] using ih
      · simp only [ne_eq, he, not_false_eq_true, decide_true, List.filter_cons_of_pos, find?]
        rw [← ih]
  simp only [get?, erase, hfind]

theorem content?_eq_some_iff {bytes : ByteArray} :
    t.content? l = some bytes ↔ t.get? l = some (.file bytes) := by
  unfold content?
  split <;> simp_all

theorem content?_congr (h : t'.get? l = t.get? l) : t'.content? l = t.content? l := by
  simp only [content?, h]

theorem get?_top (h : l.isTop = true) : t.get? l = some .directory := if_pos h

theorem isTop_of_get? (h : t.get? l ≠ some .directory) : l.isTop = false := by
  rw [← Bool.not_eq_true]
  exact fun htop => h (get?_top htop)

theorem enter_directory (h : t.get? l = some .directory) (s : String) :
    t.enter l s = if Path.isIdle s then .ok l else if s = ".." then .ok l.up else named l s := by
  simp only [enter, h]

theorem enter_idle (h : t.get? l = some .directory) (hs : Path.isIdle s = true) :
    t.enter l s = .ok l := by
  rw [enter_directory h, if_pos hs]

theorem enter_name (h : t.get? l = some .directory) (hs : Path.IsName s) :
    t.enter l s = named l s := by
  rw [enter_directory h, hs.busy, if_neg Bool.false_ne_true, if_neg hs.ne_up]

theorem named_eq_ok (h : named l s = .ok m) : m = l.child s := by
  unfold named at h
  split at h
  · cases h
  · exact (Except.ok.inj h).symm

theorem enter_eq_ok (h : t.enter l s = .ok m) : t.get? l = some .directory ∧ m = l.move s := by
  unfold enter at h
  split at h
  · cases h
  · cases h
  · rename_i hdirectory
    refine ⟨hdirectory, ?_⟩
    split at h
    · rename_i hidle
      rw [Location.move_idle hidle]
      exact (Except.ok.inj h).symm
    · rename_i hbusy
      split at h
      · rename_i hup
        rw [hup, Location.move_up]
        exact (Except.ok.inj h).symm
      · rename_i hup
        rw [Location.move_name ⟨by simpa using hbusy, hup⟩]
        exact named_eq_ok h

theorem foldlM_enter_append {xs ys : List String} :
    (xs ++ ys).foldlM t.enter l = .ok m ↔
      ∃ n, xs.foldlM t.enter l = .ok n ∧ ys.foldlM t.enter n = .ok m := by
  rw [List.foldlM_append]
  constructor
  · exact fun h => Outcome.bind_eq_ok h
  · rintro ⟨n, hn, hm⟩
    rw [hn]
    exact hm

theorem foldlM_enter_single : [s].foldlM t.enter l = t.enter l s := by
  rw [List.foldlM_cons]
  cases t.enter l s <;> rfl

theorem foldlM_enter_eq_ok {segments : List String} (h : segments.foldlM t.enter l = .ok m) :
    m = segments.foldl move l := by
  induction segments generalizing l with
  | nil => exact (Except.ok.inj h).symm
  | cons s segments ih =>
    obtain ⟨n, hn, hm⟩ := Outcome.bind_eq_ok h
    obtain ⟨-, rfl⟩ := enter_eq_ok hn
    exact ih hm

theorem foldlM_enter_idle {gap : List String} (h : t.get? l = some .directory)
    (hgap : ∀ x ∈ gap, Path.isIdle x = true) : gap.foldlM t.enter l = .ok l := by
  induction gap with
  | nil => rfl
  | cons x gap ih =>
    rw [List.foldlM_cons, enter_idle h (hgap x List.mem_cons_self)]
    exact ih fun y hy => hgap y (List.mem_cons_of_mem _ hy)

theorem eq_of_foldlM_enter_idle {gap : List String} (hgap : ∀ x ∈ gap, Path.isIdle x = true)
    (h : gap.foldlM t.enter l = .ok m) : m = l := by
  rw [foldlM_enter_eq_ok h, Location.foldl_move_idle hgap]

def Wider (t t' : Tree) : Prop := ∀ l, t.get? l = some .directory → t'.get? l = some .directory

theorem Wider.enter (h : Wider t t') (hm : t.enter l s = .ok m) : t'.enter l s = .ok m := by
  obtain ⟨hdirectory, -⟩ := enter_eq_ok hm
  rw [enter_directory hdirectory] at hm
  rw [enter_directory (h l hdirectory), hm]

theorem Wider.foldlM_enter (h : Wider t t') {segments : List String}
    (hm : segments.foldlM t.enter l = .ok m) : segments.foldlM t'.enter l = .ok m := by
  induction segments generalizing l with
  | nil => exact hm
  | cons s segments ih =>
    obtain ⟨n, hn, hm⟩ := Outcome.bind_eq_ok hm
    rw [List.foldlM_cons, h.enter hn]
    exact ih hm

theorem follow_eq_ok {segments : List String} :
    t.follow p segments = .ok l ↔
      p.hasNul = false ∧ segments.foldlM t.enter ⟨p.isAbsolute, []⟩ = .ok l := by
  unfold follow
  cases hnul : p.hasNul with
  | true => simp
  | false => simp [start]

theorem Wider.walk (h : Wider t t') (hl : t.walk p = .ok l) : t'.walk p = .ok l := by
  obtain ⟨hnul, hfold⟩ := follow_eq_ok.1 hl
  exact follow_eq_ok.2 ⟨hnul, h.foldlM_enter hfold⟩

theorem eq_locate_of_walk (h : t.walk p = .ok l) : l = p.locate := by
  obtain ⟨-, hfold⟩ := follow_eq_ok.1 h
  rw [Path.locate_eq_foldl]
  exact foldlM_enter_eq_ok hfold

/-- The path can be followed and leads to a directory. -/
structure Opens (t : Tree) (dir : Path) (d : Location) : Prop where
  walk : t.walk dir = .ok d
  directory : t.get? d = some .directory

theorem Opens.eq_locate (h : Opens t dir d) : d = dir.locate := eq_locate_of_walk h.walk

theorem Opens.wider (h : Opens t dir d) (hw : Wider t t') : Opens t' dir d :=
  ⟨hw.walk h.walk, hw d h.directory⟩

theorem opens_empty (t : Tree) : Opens t Path.empty ⟨false, []⟩ := by
  have htop : t.get? ⟨false, []⟩ = some .directory := get?_top rfl
  refine ⟨follow_eq_ok.2 ⟨by decide, ?_⟩, htop⟩
  have hbody : Path.empty.body = [""] := rfl
  rw [hbody]
  exact foldlM_enter_idle htop (by simp [Path.isIdle])

/-- The location of an entry of a directory, if the system takes the name. -/
def entry (d : Location) (s : String) : Except OsError Location :=
  if s.toList.contains '\x00' then .error .nulInPath else named d s

theorem entry_eq_ok (h : entry d s = .ok l) : l = d.child s := by
  unfold entry at h
  split at h
  · cases h
  · exact named_eq_ok h

theorem entry_ne_noEntry (d : Location) (s : String) : entry d s ≠ .error .noEntry := by
  unfold entry named
  split
  · exact nofun
  · split <;> exact nofun

theorem enters_of_names (h : p.Names dir s) (hdir : Opens t dir d) :
    p.hasNul = s.toList.contains '\x00' ∧ ∃ above, p.body = above ++ [s] ∧
      above.foldlM t.enter ⟨p.isAbsolute, []⟩ = .ok d := by
  obtain ⟨core, gap, gap', hgap, hgap', hdirBody, hbody⟩ := h.body
  obtain ⟨hnul, hfold⟩ := follow_eq_ok.1 hdir.walk
  rw [hdirBody] at hfold
  obtain ⟨c, hcore, hrest⟩ := foldlM_enter_append.1 hfold
  obtain rfl := eq_of_foldlM_enter_idle hgap' hrest
  refine ⟨by rw [h.nul, hnul, Bool.false_or], core ++ gap, hbody, ?_⟩
  rw [h.absolute]
  exact foldlM_enter_append.2 ⟨d, hcore, foldlM_enter_idle hdir.directory hgap⟩

theorem opens_of_enters {above : List String} (h : p.Names dir s) (hbody : p.body = above ++ [s])
    (hnul : p.hasNul = false) (habove : above.foldlM t.enter ⟨p.isAbsolute, []⟩ = .ok d)
    (hdirectory : t.get? d = some .directory) : Opens t dir d := by
  obtain ⟨core, gap, gap', hgap, hgap', hdirBody, hsplit⟩ := h.body
  rw [h.nul, Bool.or_eq_false_iff] at hnul
  obtain rfl := List.append_cancel_right (hbody.symm.trans hsplit)
  obtain ⟨c, hcore, hrest⟩ := foldlM_enter_append.1 habove
  obtain rfl := eq_of_foldlM_enter_idle hgap hrest
  refine ⟨follow_eq_ok.2 ⟨hnul.1, ?_⟩, hdirectory⟩
  rw [hdirBody, ← h.absolute]
  exact foldlM_enter_append.2 ⟨d, hcore, foldlM_enter_idle hdirectory hgap'⟩

theorem walk_of_names (h : p.Names dir s) (hdir : Opens t dir d) : t.walk p = entry d s := by
  obtain ⟨hnul, above, hbody, habove⟩ := enters_of_names h hdir
  unfold walk follow entry
  rw [hnul, start, hbody, List.foldlM_append, habove]
  -- a zero byte in the name is refused at once, as it is in the whole path
  split
  · rfl
  · exact foldlM_enter_single.trans (enter_name hdir.directory h.name)

/-- Whatever leads to an entry leads through its directory. -/
theorem exists_opens_of_walk (h : p.Names dir s) (hl : t.walk p = .ok l) :
    ∃ d, Opens t dir d ∧ entry d s = .ok l := by
  obtain ⟨core, gap, -, -, -, -, hbody⟩ := h.body
  obtain ⟨hnul, hfold⟩ := follow_eq_ok.1 hl
  rw [hbody] at hfold
  obtain ⟨d, habove, hlast⟩ := foldlM_enter_append.1 hfold
  rw [foldlM_enter_single] at hlast
  obtain ⟨hdirectory, -⟩ := enter_eq_ok hlast
  refine ⟨d, opens_of_enters h hbody hnul habove hdirectory, ?_⟩
  rw [h.nul, Bool.or_eq_false_iff] at hnul
  rw [entry, hnul.2, if_neg Bool.false_ne_true, ← enter_name hdirectory h.name]
  exact hlast

theorem stat_eq_ok {e : Entry} :
    t.stat p = .ok e ↔ p ≠ Path.empty ∧ ∃ l, t.walk p = .ok l ∧ t.get? l = some e := by
  unfold stat
  by_cases hempty : p = Path.empty
  · subst hempty
    exact ⟨nofun, fun h => absurd rfl h.1⟩
  · rw [if_neg hempty]
    constructor
    · intro h
      obtain ⟨l, hwalk, h⟩ := Outcome.bind_eq_ok h
      refine ⟨hempty, l, hwalk, ?_⟩
      split at h
      · rename_i hget
        rw [hget, Except.ok.inj h]
      · cases h
    · rintro ⟨-, l, hwalk, hget⟩
      rw [hwalk]
      simp only [bind, Except.bind, pure, Except.pure, hget]

theorem stat_of_names {e : Entry} (h : p.Names dir s) (hdir : Opens t dir d)
    (hl : entry d s = .ok l) (hget : t.get? l = some e) : t.stat p = .ok e :=
  stat_eq_ok.2 ⟨h.ne_empty, l, (walk_of_names h hdir).trans hl, hget⟩

end GatewayFleet.Tree
