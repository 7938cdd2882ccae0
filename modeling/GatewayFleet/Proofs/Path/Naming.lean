import Mathlib.Data.List.Basic
import Mathlib.Data.List.TakeWhile
import GatewayFleet.Path

/-! Paths segment by segment. A path that names an entry of a directory leads to the location of
the directory and one name further, whatever idle segments stand between the two. Paths that were
put together from a directory and a name, and paths with a file name, are of this kind. -/

namespace GatewayFleet

structure Path.IsName (s : String) : Prop where
  busy : Path.isIdle s = false
  ne_up : s ≠ ".."

theorem Path.isIdle_iff {s : String} : Path.isIdle s = true ↔ s = "" ∨ s = "." := by
  simp [Path.isIdle]

theorem Path.IsName.ne_empty {s : String} (h : Path.IsName s) : s ≠ "" := by
  rintro rfl
  exact absurd h.busy (by decide)

theorem Path.IsName.ne_dot {s : String} (h : Path.IsName s) : s ≠ "." := by
  rintro rfl
  exact absurd h.busy (by decide)

namespace Location

def move (l : Location) (s : String) : Location :=
  ⟨l.absolute, (Path.step l.absolute l.names.reverse s).reverse⟩

theorem move_idle {s : String} (h : Path.isIdle s = true) (l : Location) : l.move s = l := by
  simp [move, Path.step, h]

theorem move_up (l : Location) : l.move ".." = l.up := rfl

theorem move_name {s : String} (h : Path.IsName s) (l : Location) : l.move s = l.child s := by
  simp [move, Path.step, h.busy, h.ne_up, child]

theorem foldl_move_idle {gap : List String} (h : ∀ s ∈ gap, Path.isIdle s = true) (l : Location) :
    gap.foldl move l = l := by
  induction gap with
  | nil => rfl
  | cons s gap ih =>
    have hs : l.move s = l := move_idle (h s List.mem_cons_self) l
    rw [List.foldl_cons, hs]
    exact ih fun x hx => h x (List.mem_cons_of_mem _ hx)

theorem child_inj {l m : Location} {s s' : String} (h : l.child s = m.child s') :
    l = m ∧ s = s' := by
  obtain ⟨habsolute, hnames⟩ := Location.mk.inj h
  obtain ⟨hnames, hlast⟩ := List.append_inj' hnames rfl
  exact ⟨by rw [Location.mk.injEq]; exact ⟨habsolute, hnames⟩, List.cons.inj hlast |>.1⟩

theorem child_ne {l m : Location} {s s' : String} (h : s ≠ s') : l.child s ≠ m.child s' :=
  fun heq => h (child_inj heq).2

theorem child_ne_self (l : Location) (s : String) : l ≠ l.child s := by
  intro h
  have hlength := congrArg (fun m : Location => m.names.length) h
  simp [child] at hlength

@[simp] theorem directory_child (l : Location) (s : String) : (l.child s).directory = l := by
  simp [directory, child]

theorem isTop_child {s : String} (h : s ≠ "..") (l : Location) : (l.child s).isTop = false := by
  simp [isTop, child, h]

end Location

namespace Path

theorem locate_eq_foldl (p : Path) :
    p.locate = p.body.foldl Location.move ⟨p.isAbsolute, []⟩ := by
  have hsteps (segments : List String) (l : Location) :
      segments.foldl Location.move l =
        ⟨l.absolute, (segments.foldl (step l.absolute) l.names.reverse).reverse⟩ := by
    induction segments generalizing l with
    | nil => simp
    | cons s segments ih => simp [ih, Location.move]
  rw [hsteps]
  rfl

/-- The path names the entry `s` of the directory that `dir` leads to. -/
structure Names (p dir : Path) (s : String) : Prop where
  name : IsName s
  absolute : p.isAbsolute = dir.isAbsolute
  nul : p.hasNul = (dir.hasNul || s.toList.contains '\x00')
  body : ∃ core gap gap', (∀ x ∈ gap, isIdle x = true) ∧ (∀ x ∈ gap', isIdle x = true) ∧
    dir.body = core ++ gap' ∧ p.body = core ++ gap ++ [s]

theorem Names.locate {p dir : Path} {s : String} (h : p.Names dir s) :
    p.locate = dir.locate.child s := by
  obtain ⟨core, gap, gap', hgap, hgap', hdir, hp⟩ := h.body
  rw [locate_eq_foldl, locate_eq_foldl, hdir, hp, h.absolute]
  simp only [List.foldl_append, List.foldl_cons, List.foldl_nil]
  rw [Location.foldl_move_idle hgap, Location.foldl_move_idle hgap', Location.move_name h.name]

theorem Names.ne_empty {p dir : Path} {s : String} (h : p.Names dir s) : p ≠ empty := by
  rintro rfl
  obtain ⟨core, gap, -, -, -, -, hbody⟩ := h.body
  have hlast := congrArg List.getLast? hbody
  simp only [List.getLast?_append, List.getLast?_singleton, Option.some_or] at hlast
  exact h.name.ne_empty (Option.some.inj hlast).symm

theorem isAbsolute_iff {p : Path} :
    p.isAbsolute = true ↔ ∃ s rest, p.segments = "" :: s :: rest := by
  unfold isAbsolute
  split
  · rename_i s rest h
    exact iff_of_true rfl ⟨s, rest, h⟩
  · rename_i hother
    exact iff_of_false Bool.false_ne_true fun ⟨s, rest, h⟩ => hother s rest h

theorem isAbsolute_cons {c : String} {rest : List String} :
    Path.isAbsolute ⟨c :: rest⟩ = true ↔ c = "" ∧ rest ≠ [] := by
  rw [isAbsolute_iff]
  constructor
  · rintro ⟨s, rest', h⟩
    obtain ⟨rfl, rfl⟩ := List.cons.inj h
    exact ⟨rfl, List.cons_ne_nil _ _⟩
  · rintro ⟨rfl, hne⟩
    obtain ⟨s, rest', rfl⟩ := List.exists_cons_of_ne_nil hne
    exact ⟨s, rest', rfl⟩

theorem isAbsolute_single (s : String) : Path.isAbsolute ⟨[s]⟩ = false := by
  rw [← Bool.not_eq_true, isAbsolute_cons]
  exact fun h => h.2 rfl

theorem segments_join {p : Path} (dir : Path) (h : p.isAbsolute = false) :
    ∃ core gap', (dir.join p).segments = core ++ p.segments ∧ dir.segments = core ++ gap' ∧
      (gap' = [] ∨ gap' = [""]) ∧ (core = [""] → gap' ≠ []) := by
  unfold join
  rw [h, if_neg Bool.false_ne_true]
  by_cases hempty : dir = empty
  · subst hempty
    exact ⟨[], [""], rfl, rfl, .inr rfl, nofun⟩
  · rw [if_neg hempty]
    by_cases hslash : dir.segments.getLast? = some ""
    · rw [if_pos hslash]
      exact ⟨dir.segments.dropLast, [""], rfl, (List.dropLast_append_getLast? _ hslash).symm,
        .inr rfl, fun _ => List.cons_ne_nil _ _⟩
    · rw [if_neg hslash]
      refine ⟨dir.segments, [], rfl, (List.append_nil _).symm, .inl rfl, fun hcore => ?_⟩
      exact absurd (congrArg Path.mk hcore) hempty

theorem isAbsolute_join {p : Path} (dir : Path) (h : p.isAbsolute = false)
    (hp : p.segments ≠ []) : (dir.join p).isAbsolute = dir.isAbsolute := by
  obtain ⟨core, gap', hjoin, hdir, hgap, hroot⟩ := segments_join dir h
  generalize dir.join p = q at hjoin ⊢
  obtain ⟨joined⟩ := q
  obtain ⟨segments⟩ := dir
  obtain rfl : joined = core ++ p.segments := hjoin
  obtain rfl : segments = core ++ gap' := hdir
  cases core with
  | nil =>
    rcases hgap with rfl | rfl
    · exact h
    · exact h.trans (isAbsolute_single "").symm
  | cons c core =>
    rw [Bool.eq_iff_iff, List.cons_append, List.cons_append, isAbsolute_cons, isAbsolute_cons]
    refine and_congr_right fun hc => iff_of_true (by simp [hp]) ?_
    subst hc
    cases core with
    | nil => exact hroot rfl
    | cons d core => simp

theorem body_join {p : Path} (dir : Path) (h : p.isAbsolute = false) (hp : p.segments ≠ []) :
    ∃ core gap', (∀ x ∈ gap', isIdle x = true) ∧ dir.body = core ++ gap' ∧
      (dir.join p).body = core ++ p.segments := by
  have habsolute := isAbsolute_join dir h hp
  obtain ⟨core, gap', hjoin, hdir, hgap, -⟩ := segments_join dir h
  have hidle : ∀ x ∈ gap', isIdle x = true := by
    rcases hgap with rfl | rfl <;> simp [isIdle]
  unfold body
  rw [habsolute, hjoin, hdir]
  by_cases habs : dir.isAbsolute = true
  · obtain ⟨x, rest, hcons⟩ := isAbsolute_iff.1 habs
    cases core with
    | nil =>
      rcases hgap with rfl | rfl
      · rw [hdir] at hcons
        cases hcons
      · rw [hdir] at hcons
        cases hcons
    | cons c core => exact ⟨core, gap', hidle, by simp [habs], by simp [habs]⟩
  · exact ⟨core, gap', hidle, by simp [habs], by simp [habs]⟩

theorem hasNul_join (dir : Path) (s : String) :
    (dir.join ⟨[s]⟩).hasNul = (dir.hasNul || s.toList.contains '\x00') := by
  obtain ⟨core, gap', hjoin, hdir, hgap, -⟩ := segments_join dir (isAbsolute_single s)
  unfold hasNul
  rw [hjoin, hdir]
  rcases hgap with rfl | rfl <;> simp

theorem names_join (dir : Path) {s : String} (hs : IsName s) : (dir.join ⟨[s]⟩).Names dir s where
  name := hs
  absolute := isAbsolute_join dir (isAbsolute_single s) (List.cons_ne_nil _ _)
  nul := hasNul_join dir s
  body := by
    obtain ⟨core, gap', hidle, hdir, hjoin⟩ :=
      body_join dir (isAbsolute_single s) (List.cons_ne_nil _ _)
    exact ⟨core, [], gap', List.forall_mem_nil _, hidle, hdir, by rw [hjoin, List.append_nil]⟩

theorem segments_eq_head (p : Path) : p.segments = p.head ++ p.segments.drop p.head.length := by
  unfold head
  split
  · rename_i habs
    obtain ⟨s, rest, h⟩ := isAbsolute_iff.1 habs
    rw [h]
    rfl
  · split
    · rename_i hdot
      obtain ⟨rest, h⟩ := List.head?_eq_some_iff.1 hdot
      rw [h]
      rfl
    · rfl

theorem trail_of_segments {p : Path} {d : List String} {s : String}
    (h : p.segments = p.head ++ d ++ [s]) (hs : isIdle s = false) : p.trail = s :: d.reverse := by
  unfold trail
  rw [h, List.append_assoc, List.drop_left, List.reverse_append]
  simp [hs]

/-- What a path begins with: a slash, a leading dot, or nothing that counts. -/
theorem head_cases (p : Path) :
    p.isAbsolute = true ∧ p.head = [""] ∨ p.isAbsolute = false ∧ p.head = ["."] ∨
      p.isAbsolute = false ∧ p.head = [] := by
  unfold head
  cases hp : p.isAbsolute with
  | true => exact .inl ⟨rfl, rfl⟩
  | false =>
    by_cases hdot : p.segments.head? = some "."
    · exact .inr (.inl ⟨rfl, if_pos hdot⟩)
    · exact .inr (.inr ⟨rfl, if_neg hdot⟩)

theorem body_eq_segments {p : Path} (h : p.isAbsolute = false) : p.body = p.segments := by
  simp [body, h]

theorem body_eq_of_head {p : Path} {rest : List String} (habs : p.isAbsolute = true)
    (h : p.segments = [""] ++ rest) : p.body = rest := by
  simp [body, habs, h]

theorem hasNul_eq_append {p dir : Path} {gap : List String} {s : String} (front : List String)
    (hgap : ∀ x ∈ gap, isIdle x = true) (hfront : front.any (·.toList.contains '\x00') = dir.hasNul)
    (hp : p.segments = front ++ gap ++ [s]) :
    p.hasNul = (dir.hasNul || s.toList.contains '\x00') := by
  have hidle : gap.any (·.toList.contains '\x00') = false := by
    rw [List.any_eq_false]
    intro x hx
    rcases isIdle_iff.1 (hgap x hx) with rfl | rfl <;> decide
  unfold hasNul at hfront ⊢
  rw [hp, ← hfront, List.any_append, List.any_append, hidle]
  simp

theorem names_of_segments {p : Path} {above : List String} {s : String} (hs : IsName s)
    (htrail : p.trail = s :: above) (hsegments : p.segments = p.head ++ above.reverse ++ [s]) :
    ∃ dir, p.parent? = some dir ∧ p.Names dir s := by
  -- the parent is left without the name and without the idle segments in front of it
  obtain ⟨core, gap, hcore, hgap, habove⟩ : ∃ core gap, (above.dropWhile isIdle).reverse = core ∧
      (∀ x ∈ gap, isIdle x = true) ∧ above.reverse = core ++ gap := by
    refine ⟨_, (above.takeWhile isIdle).reverse, rfl, ?_, ?_⟩
    · intro x hx
      exact List.mem_takeWhile_imp (List.mem_reverse.1 hx)
    · rw [← List.reverse_append, List.takeWhile_append_dropWhile]
  rw [habove] at hsegments
  -- a slash, a leading dot, or neither; only then can the parent be the empty path
  rcases head_cases p with ⟨habs, hhead⟩ | ⟨habs, hhead⟩ | ⟨habs, hhead⟩
  · rw [hhead] at hsegments
    have hbody : p.body = core ++ gap ++ [s] := body_eq_of_head habs (by simpa using hsegments)
    cases core with
    | nil =>
      have hparent : p.parent? = some ⟨["", ""]⟩ := by simp [parent?, htrail, hhead, hcore]
      refine ⟨_, hparent, hs, habs, ?_, [], gap, [""], hgap, ?_, rfl, hbody⟩
      · exact hasNul_eq_append [""] hgap rfl (by simpa using hsegments)
      · simp [isIdle]
    | cons c core =>
      have hparent : p.parent? = some ⟨[""] ++ c :: core⟩ := by
        simp [parent?, htrail, hhead, hcore]
      refine ⟨_, hparent, hs, habs, ?_, c :: core, gap, [], hgap, ?_, ?_, hbody⟩
      · exact hasNul_eq_append ([""] ++ c :: core) hgap rfl (by simpa using hsegments)
      · simp
      · simp [body, isAbsolute]
  · rw [hhead] at hsegments
    have hbody : p.body = ["."] ++ core ++ gap ++ [s] := by
      simpa [body_eq_segments habs] using hsegments
    have hdir : Path.isAbsolute ⟨["."] ++ core⟩ = false := by
      rw [← Bool.not_eq_true, List.singleton_append, isAbsolute_cons]
      exact fun h => absurd h.1 (by decide)
    have hparent : p.parent? = some ⟨["."] ++ core⟩ := by
      simp [parent?, htrail, hhead, hcore]
    refine ⟨_, hparent, hs, habs.trans hdir.symm, ?_, ["."] ++ core, gap, [], hgap,
      List.forall_mem_nil _, ?_, hbody⟩
    · exact hasNul_eq_append (["."] ++ core) hgap rfl (by simpa using hsegments)
    · rw [body_eq_segments hdir, List.append_nil]
  · rw [hhead] at hsegments
    have hbody : p.body = core ++ gap ++ [s] := by
      rw [body_eq_segments habs, hsegments, List.nil_append]
    cases core with
    | nil =>
      have hparent : p.parent? = some empty := by simp [parent?, htrail, hhead, hcore]
      refine ⟨_, hparent, hs, habs, ?_, [], gap, [""], hgap, ?_, rfl, hbody⟩
      · exact hasNul_eq_append [] hgap rfl (by simpa using hsegments)
      · simp [isIdle]
    | cons c core =>
      have hdir : Path.isAbsolute ⟨c :: core⟩ = false := by
        rw [← Bool.not_eq_true, isAbsolute_cons]
        intro h
        rw [← Bool.not_eq_true, isAbsolute_iff] at habs
        obtain ⟨rfl, hne⟩ := h
        obtain ⟨d, rest, rfl⟩ := List.exists_cons_of_ne_nil hne
        exact habs ⟨d, rest ++ gap ++ [s], by simpa using hsegments⟩
      have hparent : p.parent? = some ⟨c :: core⟩ := by simp [parent?, htrail, hhead, hcore]
      refine ⟨_, hparent, hs, habs.trans hdir.symm, ?_, c :: core, gap, [], hgap,
        List.forall_mem_nil _, ?_, hbody⟩
      · exact hasNul_eq_append (c :: core) hgap rfl (by simpa using hsegments)
      · rw [body_eq_segments hdir, List.append_nil]

theorem isIdle_of_mem_head {p : Path} {x : String} (h : x ∈ p.head) : isIdle x = true := by
  rcases head_cases p with ⟨-, hhead⟩ | ⟨-, hhead⟩ | ⟨-, hhead⟩
  · rw [hhead, List.mem_singleton] at h
    simp [isIdle, h]
  · rw [hhead, List.mem_singleton] at h
    simp [isIdle, h]
  · rw [hhead] at h
    exact absurd h List.not_mem_nil

theorem getLast?_segments {p : Path} {front : List String} {x : String}
    (h : p.body = front ++ [x]) : p.segments.getLast? = some x := by
  unfold body at h
  split at h
  · rename_i habs
    obtain ⟨s, rest, hsegments⟩ := isAbsolute_iff.1 habs
    rw [hsegments, List.tail_cons] at h
    rw [hsegments, h, List.getLast?_cons, List.getLast?_append]
    rfl
  · rw [h, List.getLast?_append]
    rfl

theorem trail_of_getLast? {p : Path} {x : String} (h : p.segments.getLast? = some x)
    (hx : isIdle x = false) :
    ∃ above, p.trail = x :: above ∧ p.segments = p.head ++ above.reverse ++ [x] := by
  have hsegments := segments_eq_head p
  rcases List.eq_nil_or_concat (p.segments.drop p.head.length) with hnil | ⟨d, y, hd⟩
  · rw [hnil, List.append_nil] at hsegments
    rw [hsegments] at h
    have hidle := isIdle_of_mem_head (List.mem_of_getLast? h)
    exact absurd (hx.symm.trans hidle) Bool.false_ne_true
  · rw [hd, List.concat_eq_append, ← List.append_assoc] at hsegments
    rw [hsegments, List.getLast?_append] at h
    obtain rfl : y = x := by simpa using h
    exact ⟨d.reverse, trail_of_segments hsegments hx, by rw [List.reverse_reverse, ← hsegments]⟩

theorem names_of_body {p : Path} {front : List String} {s : String} (h : p.body = front ++ [s])
    (hs : IsName s) : p.fileName? = some s ∧ ∃ dir, p.parent? = some dir ∧ p.Names dir s := by
  obtain ⟨above, htrail, hsegments⟩ := trail_of_getLast? (getLast?_segments h) hs.busy
  refine ⟨?_, names_of_segments hs htrail hsegments⟩
  unfold fileName?
  rw [htrail]
  exact if_neg hs.ne_up

/-- The path is written as the parent of another one is. -/
inductive Neat (p : Path) : Prop
  | start (h : p = empty)
  | root (h : p = ⟨["", ""]⟩)
  | here (h : p = ⟨["."]⟩)
  | busy (x : String) (h : p.segments.getLast? = some x) (hx : isIdle x = false)

theorem parent?_of_trail {p : Path} {s x : String} {d : List String} (hx : isIdle x = false)
    (htrail : p.trail = s :: x :: d) : p.parent? = some ⟨p.head ++ (d.reverse ++ [x])⟩ := by
  unfold parent?
  rw [htrail]
  simp only [List.dropWhile_cons, hx, Bool.false_eq_true, if_false, List.reverse_cons]
  split <;> simp_all

theorem segments_join_of_busy {dir : Path} {x : String} (h : dir.segments.getLast? = some x)
    (hx : isIdle x = false) (s : String) : (dir.join ⟨[s]⟩).segments = dir.segments ++ [s] := by
  obtain ⟨core, gap', hjoin, hdir, hgap, -⟩ := segments_join dir (isAbsolute_single s)
  rcases hgap with rfl | rfl
  · rw [hjoin, hdir, List.append_nil]
  · rw [hdir, List.getLast?_append] at h
    obtain rfl : "" = x := by simpa using h
    exact absurd hx (by decide)

theorem Neat.parent?_join {dir : Path} (h : dir.Neat) {s : String} (hs : IsName s) :
    (dir.join ⟨[s]⟩).parent? = some dir := by
  have hne := hs.ne_empty
  have hdot := hs.ne_dot
  cases h with
  | start h =>
    subst h
    have hjoin : empty.join ⟨[s]⟩ = ⟨[s]⟩ := by simp [join, isAbsolute_single]
    rw [hjoin]
    simp [parent?, trail, head, isAbsolute_single, hdot, hs.busy]
  | root h =>
    subst h
    have hjoin : Path.join ⟨["", ""]⟩ ⟨[s]⟩ = ⟨["", s]⟩ := by simp [join, isAbsolute_single, empty]
    rw [hjoin]
    simp [parent?, trail, head, isAbsolute, hs.busy]
  | here h =>
    subst h
    have hjoin : Path.join ⟨["."]⟩ ⟨[s]⟩ = ⟨[".", s]⟩ := by simp [join, isAbsolute_single, empty]
    rw [hjoin]
    simp [parent?, trail, head, isAbsolute, hs.busy]
  | busy x h hx =>
    have hsegments := segments_join_of_busy h hx s
    have hhead : (dir.join ⟨[s]⟩).head = dir.head := by
      have hne : dir.segments ≠ [] := by
        rintro hnil
        rw [hnil] at h
        cases h
      unfold head
      rw [isAbsolute_join dir (isAbsolute_single s) (List.cons_ne_nil _ _), hsegments,
        List.head?_append_of_ne_nil _ hne]
    obtain ⟨above, -, hdir⟩ := trail_of_getLast? h hx
    have hjoin : (dir.join ⟨[s]⟩).segments =
        (dir.join ⟨[s]⟩).head ++ (above.reverse ++ [x]) ++ [s] := by
      rw [hsegments, hhead, hdir, List.append_assoc dir.head]
    have htrail : (dir.join ⟨[s]⟩).trail = s :: x :: above := by
      simpa using trail_of_segments hjoin hs.busy
    rw [parent?_of_trail hx htrail, hhead, ← List.append_assoc, ← hdir]

theorem fileName?_join (dir : Path) {s : String} (hs : IsName s) :
    (dir.join ⟨[s]⟩).fileName? = some s := by
  obtain ⟨core, gap, -, -, -, -, hbody⟩ := (names_join dir hs).body
  exact (names_of_body hbody hs).1

theorem neat_join (dir : Path) {s : String} (hs : IsName s) : (dir.join ⟨[s]⟩).Neat := by
  obtain ⟨core, -, hsegments, -⟩ := segments_join dir (isAbsolute_single s)
  exact .busy s (by simp [hsegments]) hs.busy

/-- The path names an entry of the directory that is its parent. -/
structure Sits (p dir : Path) (s : String) : Prop where
  names : p.Names dir s
  parent : p.parent? = some dir
  fileName : p.fileName? = some s

theorem Neat.sits_join {dir : Path} (h : dir.Neat) {s : String} (hs : IsName s) :
    (dir.join ⟨[s]⟩).Sits dir s :=
  ⟨names_join dir hs, h.parent?_join hs, fileName?_join dir hs⟩

theorem exists_sits_of_body {p : Path} {front : List String} {s : String}
    (h : p.body = front ++ [s]) (hs : IsName s) : ∃ dir, p.Sits dir s := by
  obtain ⟨hfile, dir, hparent, hnames⟩ := names_of_body h hs
  exact ⟨dir, hnames, hparent, hfile⟩

theorem Sits.directory_eq {p dir : Path} {s : String} (h : p.Sits dir s) : p.directory = dir := by
  rw [directory, h.parent]
  rfl

/-- The path ends in a name of an entry of its parent, whatever idle segments follow the name. -/
structure Ends (p dir : Path) (s : String) : Prop where
  name : IsName s
  parent : p.parent? = some dir
  fileName : p.fileName? = some s
  locate : p.locate = dir.locate.child s

theorem Sits.ends {p dir : Path} {s : String} (h : p.Sits dir s) : p.Ends dir s :=
  ⟨h.names.name, h.parent, h.fileName, h.names.locate⟩

theorem Ends.directory_eq {p dir : Path} {s : String} (h : p.Ends dir s) : p.directory = dir := by
  rw [directory, h.parent]
  rfl

inductive Above : Path → Path → Prop
  | here (p : Path) : Above p p
  | parent {p q r : Path} (h : p.parent? = some q) (above : Above q r) : Above p r

theorem head_append {front : List String} (h : ∃ x ∈ front, isIdle x = false)
    (gap : List String) : Path.isAbsolute ⟨front ++ gap⟩ = Path.isAbsolute ⟨front⟩ ∧
      head ⟨front ++ gap⟩ = head ⟨front⟩ := by
  obtain ⟨x, hx, hbusy⟩ := h
  obtain ⟨c, rest, rfl⟩ := List.exists_cons_of_ne_nil (List.ne_nil_of_mem hx)
  have habsolute : Path.isAbsolute ⟨c :: rest ++ gap⟩ = Path.isAbsolute ⟨c :: rest⟩ := by
    rw [Bool.eq_iff_iff, List.cons_append, isAbsolute_cons, isAbsolute_cons]
    refine and_congr_right ?_
    rintro rfl
    have hrest : rest ≠ [] := by
      rintro rfl
      rw [List.mem_singleton.1 hx] at hbusy
      exact absurd hbusy (by decide)
    simp [hrest]
  refine ⟨habsolute, ?_⟩
  unfold head
  rw [habsolute, List.cons_append, List.head?_cons, List.head?_cons]

theorem exists_trail_of_fileName {p : Path} {s : String} (h : p.fileName? = some s) :
    ∃ above, p.trail = s :: above ∧ s ≠ ".." := by
  unfold fileName? at h
  split at h
  · cases h
  · rename_i name above htrail
    split at h
    · cases h
    · rename_i hup
      obtain rfl := Option.some.inj h
      exact ⟨above, htrail, hup⟩

/-- Behind the last segment that counts there are idle ones only. -/
theorem segments_of_trail {p : Path} {s : String} {above : List String}
    (h : p.trail = s :: above) : isIdle s = false ∧ ∃ gap, (∀ x ∈ gap, isIdle x = true) ∧
      p.segments = p.head ++ above.reverse ++ [s] ++ gap := by
  have hstop := List.head?_dropWhile_not isIdle (p.segments.drop p.head.length).reverse
  have hall := List.takeWhile_append_dropWhile (p := isIdle)
    (l := (p.segments.drop p.head.length).reverse)
  unfold trail at h
  rw [h] at hstop hall
  refine ⟨hstop, ((p.segments.drop p.head.length).reverse.takeWhile isIdle).reverse, fun x hx =>
    List.mem_takeWhile_imp (List.mem_reverse.1 hx), ?_⟩
  have hdrop := congrArg List.reverse hall
  simp only [List.reverse_append, List.reverse_cons, List.reverse_reverse] at hdrop
  rw [List.append_assoc p.head, List.append_assoc p.head, hdrop]
  exact segments_eq_head p

theorem exists_ends_of_fileName {p : Path} {s : String} (h : p.fileName? = some s) :
    s ∈ p.segments ∧ ∃ dir, p.Ends dir s := by
  obtain ⟨above, htrail, hup⟩ := exists_trail_of_fileName h
  obtain ⟨hbusy, gap, hgap, hsegments⟩ := segments_of_trail htrail
  -- without what follows the name the path leads to the same entry of the same parent
  generalize hfront : p.head ++ above.reverse ++ [s] = front at hsegments
  have hmem : s ∈ front := hfront ▸ List.mem_append_right _ (List.mem_singleton_self s)
  have hp : p = ⟨front ++ gap⟩ := congrArg Path.mk hsegments
  obtain ⟨habsolute, hhead⟩ := head_append ⟨s, hmem, hbusy⟩ gap
  rw [← hp] at habsolute hhead
  have hname : IsName s := ⟨hbusy, hup⟩
  have hwritten : front = head ⟨front⟩ ++ above.reverse ++ [s] := by rw [← hhead, hfront]
  have hends : trail ⟨front⟩ = s :: above := by simpa using trail_of_segments hwritten hbusy
  obtain ⟨dir, hparent, hnames⟩ := names_of_segments hname hends hwritten
  have hbody : p.body = body ⟨front⟩ ++ gap := by
    unfold body
    rw [habsolute, hsegments]
    split
    · exact List.tail_append_of_ne_nil (List.ne_nil_of_mem hmem)
    · rfl
  refine ⟨hsegments ▸ List.mem_append_left gap hmem, dir, hname, ?_, h, ?_⟩
  · unfold parent? at hparent ⊢
    rwa [hends, ← hhead, ← htrail] at hparent
  · rw [← hnames.locate, locate_eq_foldl, locate_eq_foldl, habsolute, hbody, List.foldl_append,
      Location.foldl_move_idle hgap]

theorem splitSlashes_of_not_mem {s : List Char} (h : '/' ∉ s) : splitSlashes s = [s] := by
  induction s with
  | nil => rfl
  | cons c s ih =>
    rw [List.mem_cons, not_or] at h
    rw [splitSlashes, if_neg (Ne.symm h.1), ih h.2]

theorem ofString_of_not_mem {s : String} (h : '/' ∉ s.toList) : ofString s = ⟨[s]⟩ := by
  rw [ofString, splitSlashes_of_not_mem h]
  simp

theorem not_mem_splitSlashes {s : List Char} : ∀ piece ∈ splitSlashes s, '/' ∉ piece := by
  induction s with
  | nil => simp [splitSlashes]
  | cons c s ih =>
    intro piece hpiece
    unfold splitSlashes at hpiece
    split at hpiece
    · rcases List.mem_cons.1 hpiece with rfl | hpiece
      · exact List.not_mem_nil
      · exact ih piece hpiece
    · rename_i hc
      split at hpiece
      · rw [List.mem_singleton.1 hpiece, List.mem_singleton]
        exact Ne.symm hc
      · rename_i first rest hrest
        rw [hrest] at ih
        rcases List.mem_cons.1 hpiece with rfl | hpiece
        · rw [List.mem_cons, not_or]
          exact ⟨Ne.symm hc, ih first List.mem_cons_self⟩
        · exact ih piece (List.mem_cons_of_mem _ hpiece)

theorem not_mem_segments_ofString {text s : String} (h : s ∈ (ofString text).segments) :
    '/' ∉ s.toList := by
  obtain ⟨piece, hpiece, rfl⟩ := List.mem_map.1 h
  rw [String.toList_ofList]
  exact not_mem_splitSlashes piece hpiece

end Path

end GatewayFleet
