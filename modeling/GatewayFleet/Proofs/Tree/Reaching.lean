import GatewayFleet.Proofs.Tree.Walking

/-! What stands above the end of a path. A path is followed through directories only, so every
location above its end is one; a path that leads to a file therefore ends in the name of the
file. -/

namespace GatewayFleet.Tree

variable {t : Tree} {l m : Location} {p : Path} {s : String} {bytes : ByteArray}

def Anchored (t : Tree) (l : Location) : Prop :=
  ∀ k < l.names.length, t.get? ⟨l.absolute, l.names.take k⟩ = some .directory

theorem Anchored.append (h : Anchored t l) (hl : t.get? l = some .directory) (s : String) :
    Anchored t ⟨l.absolute, l.names ++ [s]⟩ := by
  intro k hk
  simp only [List.length_append, List.length_singleton] at hk
  by_cases hlast : k = l.names.length
  · subst hlast
    simpa using hl
  · have hlt : k < l.names.length := by omega
    rw [List.take_append_of_le_length (by omega)]
    exact h k hlt

theorem Anchored.dropLast (h : Anchored t l) : Anchored t l.directory := by
  intro k hk
  simp only [Location.directory, List.length_dropLast] at hk
  have htake : l.names.dropLast.take k = l.names.take k := by
    rw [List.dropLast_eq_take, List.take_take, Nat.min_eq_left (by omega)]
  simp only [Location.directory, htake]
  exact h k (by omega)

theorem up_cases (hl : l.Canonical) :
    l.up = l.directory ∨ l.up.isTop = true ∧ l.up = ⟨l.absolute, l.names ++ [".."]⟩ := by
  obtain ⟨absolute, names⟩ := l
  rcases List.eq_nil_or_concat names with rfl | ⟨front, x, rfl⟩
  · cases absolute
    · exact .inr ⟨rfl, rfl⟩
    · exact .inl rfl
  · rw [List.concat_eq_append] at hl ⊢
    obtain ⟨-, -, hclimbs⟩ := Location.canonical_cases hl
    by_cases hx : x = ".."
    · obtain ⟨rfl, n, rfl⟩ := hclimbs hx
      subst hx
      right
      have hup : Location.up ⟨false, List.replicate n ".." ++ [".."]⟩ =
          ⟨false, List.replicate n ".." ++ [".."] ++ [".."]⟩ := by
        simp [Location.up, Path.step, Path.isIdle]
      refine ⟨?_, hup⟩
      rw [hup]
      simp [Location.isTop]
    · left
      simp [Location.up, Location.directory, Path.step, Path.isIdle, hx]

theorem Anchored.enter (h : Anchored t l) (hl : l.Canonical) (hm : t.enter l s = .ok m) :
    Anchored t m := by
  obtain ⟨hdirectory, rfl⟩ := enter_eq_ok hm
  by_cases hidle : Path.isIdle s = true
  · rw [Location.move_idle hidle]
    exact h
  · by_cases hup : s = ".."
    · rw [hup, Location.move_up]
      rcases up_cases hl with hdir | ⟨-, hclimb⟩
      · rw [hdir]
        exact h.dropLast
      · rw [hclimb]
        exact h.append hdirectory ".."
    · rw [Location.move_name ⟨by simpa using hidle, hup⟩]
      exact h.append hdirectory s

theorem Anchored.foldlM_enter {segments : List String} (h : Anchored t l) (hl : l.Canonical)
    (hm : segments.foldlM t.enter l = .ok m) : Anchored t m := by
  induction segments generalizing l with
  | nil =>
    obtain rfl := Except.ok.inj hm
    exact h
  | cons s segments ih =>
    obtain ⟨n, hn, hm⟩ := Outcome.bind_eq_ok hm
    have hcanonical : n.Canonical := by
      rw [(enter_eq_ok hn).2]
      exact hl.move s
    exact ih (h.enter hl hn) hcanonical hm

theorem Anchored.up (h : Anchored t l) (hl : l.Canonical) : t.get? l.up = some .directory := by
  rcases up_cases hl with hdir | ⟨htop, -⟩
  · rw [hdir]
    by_cases hnames : l.names = []
    · exact get?_top (by simp [Location.isTop, Location.directory, hnames])
    · have hlength := List.length_pos_of_ne_nil hnames
      have hparent := h (l.names.length - 1) (by omega)
      rwa [← List.dropLast_eq_take] at hparent
  · exact get?_top htop

/-- A path to a file ends in the name of the file. -/
theorem exists_sits_of_stat (h : t.stat p = .ok (.file bytes)) :
    ∃ dir s, p.Sits dir s ∧ s ∈ p.segments := by
  obtain ⟨-, l, hwalk, hget⟩ := stat_eq_ok.1 h
  obtain ⟨-, hfold⟩ := follow_eq_ok.1 hwalk
  have htop : t.get? ⟨p.isAbsolute, []⟩ = some .directory := get?_top rfl
  rcases List.eq_nil_or_concat p.body with hnil | ⟨front, s, hbody⟩
  · rw [hnil] at hfold
    obtain rfl := Except.ok.inj hfold
    rw [htop] at hget
    cases hget
  · rw [List.concat_eq_append] at hbody
    rw [hbody] at hfold
    obtain ⟨c, hfront, hlast⟩ := foldlM_enter_append.1 hfold
    rw [foldlM_enter_single] at hlast
    obtain ⟨hdirectory, rfl⟩ := enter_eq_ok hlast
    have hstart := Location.canonical_top p.isAbsolute
    have hcanonical : c.Canonical := by
      rw [foldlM_enter_eq_ok hfront]
      exact hstart.foldl_move front
    have hanchored : Anchored t c := by
      refine Anchored.foldlM_enter ?_ hstart hfront
      intro k hk
      exact absurd hk (Nat.not_lt_zero k)
    -- an idle segment and a step upwards both lead to a directory
    have hs : Path.IsName s := by
      constructor
      · rw [← Bool.not_eq_true]
        intro hidle
        rw [Location.move_idle hidle, hdirectory] at hget
        cases hget
      · rintro rfl
        rw [Location.move_up, hanchored.up hcanonical] at hget
        cases hget
    obtain ⟨dir, hsits⟩ := Path.exists_sits_of_body hbody hs
    exact ⟨dir, s, hsits, List.mem_of_getLast? (Path.getLast?_segments hbody)⟩

end GatewayFleet.Tree
