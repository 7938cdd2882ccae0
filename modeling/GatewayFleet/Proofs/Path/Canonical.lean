import Mathlib.Data.List.Induction
import GatewayFleet.Proofs.Path.Naming

/-! Locations and the paths that spell them. What a path leads to has its steps upwards in front,
and the path that spells such a location leads to it. -/

namespace GatewayFleet

namespace Location

theorem Canonical.child {l : Location} (h : l.Canonical) {s : String} (hs : Path.IsName s) :
    (l.child s).Canonical := by
  obtain ⟨hbusy, ups, rest, hnames, hrest, habsolute⟩ := h
  refine ⟨?_, ups, rest ++ [s], ?_, ?_, habsolute⟩
  · intro x hx
    rcases List.mem_append.1 hx with hx | hx
    · exact hbusy x hx
    · rw [List.mem_singleton.1 hx]
      exact hs.busy
  · rw [Location.child, hnames, List.append_assoc]
  · rw [List.mem_append, List.mem_singleton, not_or]
    exact ⟨hrest, Ne.symm hs.ne_up⟩

theorem Canonical.up {l : Location} (h : l.Canonical) : l.up.Canonical := by
  obtain ⟨hbusy, ups, rest, hnames, hrest, habsolute⟩ := h
  rcases List.eq_nil_or_concat rest with rfl | ⟨rest, x, rfl⟩
  · -- only steps upwards: one more of them, unless this is the root
    rw [List.append_nil] at hnames
    cases habs : l.absolute with
    | true =>
      have hroot : l.up.names = [] := by
        simp [Location.up, hnames, habsolute habs, Path.step, Path.isIdle, habs]
      exact ⟨by simp [hroot], 0, [], by simp [hroot], List.not_mem_nil, fun _ => rfl⟩
    | false =>
      have hclimb : l.up.names = List.replicate (ups + 1) ".." := by
        have hstep : Path.step false (List.replicate ups "..") ".." =
            List.replicate (ups + 1) ".." := by
          cases ups <;> rfl
        rw [Location.up, hnames, List.reverse_replicate, habs, hstep, List.reverse_replicate]
      refine ⟨?_, ups + 1, [], by simp [hclimb], List.not_mem_nil, ?_⟩
      · intro x hx
        rw [hclimb] at hx
        rw [List.eq_of_mem_replicate hx]
        decide
      · intro hup
        exact absurd (habs.symm.trans hup) Bool.false_ne_true
  · rw [List.concat_eq_append] at hnames hrest
    rw [List.mem_append, List.mem_singleton, not_or] at hrest
    have hfewer : l.up.names = List.replicate ups ".." ++ rest := by
      simp [Location.up, hnames, Path.step, Path.isIdle, Ne.symm hrest.2]
    refine ⟨?_, ups, rest, hfewer, hrest.1, habsolute⟩
    intro x hx
    rw [hfewer] at hx
    refine hbusy x ?_
    rw [hnames, ← List.append_assoc]
    exact List.mem_append_left _ hx

theorem Canonical.move {l : Location} (h : l.Canonical) (s : String) : (l.move s).Canonical := by
  by_cases hidle : Path.isIdle s = true
  · rw [move_idle hidle]
    exact h
  · by_cases hup : s = ".."
    · rw [hup, move_up]
      exact h.up
    · have hs : Path.IsName s := ⟨by simpa using hidle, hup⟩
      rw [move_name hs]
      exact h.child hs

theorem canonical_top (absolute : Bool) : Location.Canonical ⟨absolute, []⟩ :=
  ⟨List.forall_mem_nil _, 0, [], rfl, List.not_mem_nil, fun _ => rfl⟩

theorem Canonical.foldl_move {l : Location} (h : l.Canonical) (segments : List String) :
    (segments.foldl Location.move l).Canonical := by
  induction segments generalizing l with
  | nil => exact h
  | cons s segments ih => exact ih (h.move s)

end Location

theorem Path.canonical_locate (p : Path) : p.locate.Canonical := by
  rw [locate_eq_foldl]
  exact Location.Canonical.foldl_move (Location.canonical_top p.isAbsolute) p.body

namespace Location

theorem canonical_cases {absolute : Bool} {names : List String} {x : String}
    (h : Location.Canonical ⟨absolute, names ++ [x]⟩) :
    Location.Canonical ⟨absolute, names⟩ ∧ Path.isIdle x = false ∧
      (x = ".." → absolute = false ∧ ∃ n, names = List.replicate n "..") := by
  obtain ⟨hbusy, ups, rest, hnames, hrest, habsolute⟩ := h
  have hx : Path.isIdle x = false := hbusy x (by simp)
  have hfront : ∀ s ∈ names, Path.isIdle s = false :=
    fun s hs => hbusy s (List.mem_append_left _ hs)
  rcases List.eq_nil_or_concat rest with rfl | ⟨rest, y, rfl⟩
  · rw [List.append_nil] at hnames
    cases ups with
    | zero =>
      exact absurd hnames (by simp)
    | succ n =>
      rw [List.replicate_succ'] at hnames
      obtain ⟨rfl, hlast⟩ := List.append_inj' hnames rfl
      have hrelative : absolute = false := by
        cases absolute with
        | true => exact absurd (habsolute rfl) (Nat.succ_ne_zero n)
        | false => rfl
      refine ⟨⟨hfront, n, [], by simp, List.not_mem_nil, ?_⟩, hx, fun _ => ⟨hrelative, n, rfl⟩⟩
      intro h
      exact absurd (hrelative.symm.trans h) Bool.false_ne_true
  · rw [List.concat_eq_append, ← List.append_assoc] at hnames
    obtain ⟨rfl, hlast⟩ := List.append_inj' hnames rfl
    obtain rfl := (List.cons.inj hlast).1
    rw [List.concat_eq_append, List.mem_append, List.mem_singleton, not_or] at hrest
    exact ⟨⟨hfront, ups, rest, rfl, hrest.1, habsolute⟩, hx, fun h => absurd h.symm hrest.2⟩

/-- The names of a canonical location lead to it one by one. -/
theorem foldl_move_names {absolute : Bool} {names : List String}
    (h : Location.Canonical ⟨absolute, names⟩) :
    names.foldl Location.move ⟨absolute, []⟩ = ⟨absolute, names⟩ := by
  -- from behind, because a step upwards depends on the names in front of it
  induction names using List.reverseRecOn with
  | nil => rfl
  | append_singleton names x ih =>
    obtain ⟨hfront, hbusy, hclimbs⟩ := canonical_cases h
    rw [List.foldl_append, ih hfront, List.foldl_cons, List.foldl_nil]
    by_cases hup : x = ".."
    · obtain ⟨rfl, n, rfl⟩ := hclimbs hup
      have hstep : Path.step false (List.replicate n "..") ".." = List.replicate (n + 1) ".." := by
        cases n <;> rfl
      rw [hup, move, List.reverse_replicate, hstep, List.reverse_replicate, List.replicate_succ']
    · exact move_name ⟨hbusy, hup⟩ _

theorem body_toPath {l : Location} (h : l.Canonical) :
    l.toPath.isAbsolute = l.absolute ∧ (l.toPath.body = l.names ∨
      l.toPath.body = [""] ∧ l.names = []) := by
  obtain ⟨absolute, names⟩ := l
  cases names with
  | nil => cases absolute <;> exact ⟨rfl, .inr ⟨rfl, rfl⟩⟩
  | cons s names =>
    cases absolute with
    | true => exact ⟨rfl, .inl rfl⟩
    | false =>
      have hs : s ≠ "" := by
        rintro rfl
        exact absurd (h.1 "" List.mem_cons_self) (by decide)
      have hrelative : Path.isAbsolute ⟨s :: names⟩ = false := by
        rw [← Bool.not_eq_true, Path.isAbsolute_cons]
        exact fun habs => hs habs.1
      exact ⟨hrelative, .inl (Path.body_eq_segments hrelative)⟩

theorem Canonical.locate_toPath {l : Location} (h : l.Canonical) : l.toPath.locate = l := by
  obtain ⟨habsolute, hbody⟩ := body_toPath h
  rw [Path.locate_eq_foldl, habsolute]
  rcases hbody with hbody | ⟨hbody, hnames⟩
  · rw [hbody]
    exact foldl_move_names h
  · rw [hbody, List.foldl_cons, List.foldl_nil, move_idle (by decide), ← hnames]

theorem toPath_cases {l : Location} (h : l.Canonical) :
    l.names = [] ∨ ∃ x, l.toPath.segments.getLast? = some x ∧ Path.isIdle x = false := by
  obtain ⟨absolute, names⟩ := l
  rcases List.eq_nil_or_concat names with rfl | ⟨names, x, rfl⟩
  · exact .inl rfl
  · rw [List.concat_eq_append] at h ⊢
    refine .inr ⟨x, ?_, (canonical_cases h).2.1⟩
    unfold toPath
    cases absolute <;> simp [List.getLast?_cons]

theorem Canonical.neat_toPath {l : Location} (h : l.Canonical) : l.toPath.Neat := by
  rcases toPath_cases h with hnames | ⟨x, hlast, hx⟩
  · obtain ⟨absolute, names⟩ := l
    obtain rfl : names = [] := hnames
    cases absolute with
    | true => exact .root rfl
    | false => exact .start rfl
  · exact .busy x hlast hx

theorem Canonical.toPath_child {l : Location} (h : l.Canonical) (s : String) :
    (l.child s).toPath = l.toPath.join ⟨[s]⟩ := by
  rcases toPath_cases h with hnames | ⟨x, hlast, hx⟩
  · obtain ⟨absolute, names⟩ := l
    obtain rfl : names = [] := hnames
    cases absolute with
    | true =>
      have hroot : Path.join ⟨["", ""]⟩ ⟨[s]⟩ = ⟨["", s]⟩ := by
        simp [Path.join, Path.isAbsolute_single, Path.empty]
      exact hroot.symm
    | false =>
      have hstart : Path.join Path.empty ⟨[s]⟩ = ⟨[s]⟩ := by
        simp [Path.join, Path.isAbsolute_single]
      exact hstart.symm
  · have hjoin := Path.segments_join_of_busy hlast hx s
    have hchild : (l.child s).toPath = ⟨l.toPath.segments ++ [s]⟩ := by
      obtain ⟨absolute, names⟩ := l
      cases names with
      | nil =>
        cases absolute <;> simp [toPath, Path.empty] at hlast <;> subst hlast <;>
          exact absurd hx (by decide)
      | cons y names => cases absolute <;> rfl
    rw [hchild, ← hjoin]

theorem Canonical.sits_toPath_child {l : Location} (h : l.Canonical) {s : String}
    (hs : Path.IsName s) : (l.child s).toPath.Sits l.toPath s := by
  rw [h.toPath_child]
  exact h.neat_toPath.sits_join hs

end Location

end GatewayFleet
