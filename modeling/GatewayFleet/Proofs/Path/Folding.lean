import Mathlib.Logic.Relation
import GatewayFleet.Proofs.Path.Canonical

/-! The lexical meaning of a path as a normal form. Three rules fold the segments of a path, and
the names of its location are what they fold to in the end. Two paths lead to the same location
exactly when the rules turn one into the other, so a location that is written out again is the
one spelling that all the others have in common. -/

namespace GatewayFleet

namespace Location

variable {l : Location} {xs : List String} {s : String}

theorem up_child (h : Path.IsName s) (l : Location) : (l.child s).up = l := by
  simp [up, child, Path.step, Path.isIdle, h.ne_up]

@[simp] theorem absolute_foldl_move (xs : List String) (l : Location) :
    (xs.foldl move l).absolute = l.absolute := by
  induction xs generalizing l with
  | nil => rfl
  | cons s xs ih => exact ih (l.move s)

end Location

namespace Path

variable {p q base base' : Path} {xs ys : List String} {s : String} {absolute : Bool}

/-- One use of a rule on the segments behind a leading slash: a segment that stands for nothing
vanishes, a name vanishes with the step upwards behind it, and so does a step upwards that starts
at the root. -/
inductive Folds (absolute : Bool) : List String → List String → Prop
  | idle (front back : List String) {s : String} (h : isIdle s = true) :
      Folds absolute (front ++ s :: back) (front ++ back)
  | cancel (front back : List String) {s : String} (h : IsName s) :
      Folds absolute (front ++ s :: ".." :: back) (front ++ back)
  | root (back : List String) (h : absolute = true) : Folds absolute (".." :: back) back

theorem Folds.append (h : Folds absolute xs ys) (back : List String) :
    Folds absolute (xs ++ back) (ys ++ back) := by
  cases h with
  | idle front rest h => simpa using Folds.idle front (rest ++ back) h
  | cancel front rest h => simpa using Folds.cancel front (rest ++ back) h
  | root _ h => exact .root _ h

theorem Folds.sublist (h : Folds absolute xs ys) : ys.Sublist xs := by
  cases h with
  | idle front back h => exact (List.sublist_cons_self _ _).append_left front
  | cancel front back h =>
    exact ((List.sublist_cons_self _ _).trans (List.sublist_cons_self _ _)).append_left front
  | root => exact List.sublist_cons_self _ _

/-- A rule does not change where the segments lead. That nothing is above the root is only used
where the root is. -/
theorem Folds.foldl_move {l : Location} (h : Folds absolute xs ys)
    (hl : absolute = true → l = ⟨true, []⟩) :
    xs.foldl Location.move l = ys.foldl Location.move l := by
  cases h with
  | idle front back h =>
    rw [List.foldl_append, List.foldl_cons, Location.move_idle h, List.foldl_append]
  | cancel front back h =>
    rw [List.foldl_append, List.foldl_cons, List.foldl_cons, Location.move_name h,
      Location.move_up, Location.up_child h, List.foldl_append]
  | root back h =>
    rw [hl h]
    rfl

theorem folds_move {l : Location} (h : l.Canonical) (s : String) :
    Relation.ReflTransGen (Folds l.absolute) (l.names ++ [s]) (l.move s).names := by
  by_cases hidle : isIdle s = true
  · rw [Location.move_idle hidle]
    simpa using Relation.ReflTransGen.single (Folds.idle l.names [] hidle)
  by_cases hup : s = ".."
  · subst hup
    obtain ⟨absolute, names⟩ := l
    rcases List.eq_nil_or_concat names with rfl | ⟨front, x, rfl⟩
    · cases absolute with
      | true => exact .single (.root [] rfl)
      | false => exact .refl
    · rw [List.concat_eq_append] at h ⊢
      obtain ⟨-, hbusy, -⟩ := Location.canonical_cases h
      by_cases hx : x = ".."
      · subst hx
        have hclimb : (Location.move ⟨absolute, front ++ [".."]⟩ "..").names =
            front ++ [".."] ++ [".."] := by
          simp [Location.move, step, isIdle]
        rw [hclimb]
      · have hx : IsName x := ⟨hbusy, hx⟩
        have hback : Location.move ⟨absolute, front ++ [x]⟩ ".." = ⟨absolute, front⟩ :=
          Location.up_child hx ⟨absolute, front⟩
        have hfolds : Folds absolute (front ++ [x, ".."]) (front ++ []) := .cancel front [] hx
        rw [hback]
        simpa using Relation.ReflTransGen.single hfolds
  · rw [Location.move_name ⟨by simpa using hidle, hup⟩]
    exact .refl

theorem folds_locate (p : Path) :
    Relation.ReflTransGen (Folds p.isAbsolute) p.body p.locate.names := by
  rw [locate_eq_foldl]
  -- from behind: what stands in front has been folded when the last segment comes
  induction p.body using List.reverseRecOn with
  | nil => exact .refl
  | append_singleton xs s ih =>
    have hcanonical := (Location.canonical_top p.isAbsolute).foldl_move xs
    have hlast := folds_move hcanonical s
    rw [Location.absolute_foldl_move] at hlast
    rw [List.foldl_append, List.foldl_cons, List.foldl_nil]
    exact (ih.lift (· ++ [s]) fun _ _ h => h.append [s]).trans hlast

theorem locate_sublist (p : Path) : p.locate.names.Sublist p.body := by
  have hfolds := folds_locate p
  generalize p.locate.names = names at hfolds ⊢
  induction hfolds with
  | refl => exact .refl _
  | tail _ h ih => exact h.sublist.trans ih

/-- The rules turn one path into the other, in either direction. -/
structure Alike (p q : Path) : Prop where
  absolute : p.isAbsolute = q.isAbsolute
  folds : Relation.EqvGen (Folds p.isAbsolute) p.body q.body

theorem foldl_move_eq_of_eqvGen {l : Location} (h : Relation.EqvGen (Folds absolute) xs ys)
    (hl : absolute = true → l = ⟨true, []⟩) :
    xs.foldl Location.move l = ys.foldl Location.move l := by
  induction h with
  | rel _ _ h => exact h.foldl_move hl
  | refl => rfl
  | symm _ _ _ ih => exact ih.symm
  | trans _ _ _ _ _ first second => exact first.trans second

theorem eqvGen_locate (p : Path) : Relation.EqvGen (Folds p.isAbsolute) p.body p.locate.names :=
  Relation.EqvGen.reflTransGen_le_eqvGen _ _ _ (folds_locate p)

theorem alike_iff : p.Alike q ↔ p.locate = q.locate := by
  constructor
  · rintro ⟨habsolute, hfolds⟩
    rw [locate_eq_foldl, locate_eq_foldl, ← habsolute]
    exact foldl_move_eq_of_eqvGen hfolds fun h => by rw [h]
  · intro h
    have habsolute : p.isAbsolute = q.isAbsolute := congrArg Location.absolute h
    have hq := eqvGen_locate q
    rw [← habsolute, ← h] at hq
    exact ⟨habsolute, (eqvGen_locate p).trans _ _ _ (hq.symm _ _)⟩

theorem resolve_of_relative (h : p.isAbsolute = false) (hp : p.segments ≠ []) (base : Path) :
    base.resolve p = p.segments.foldl Location.move base.locate := by
  obtain ⟨core, gap, hidle, hbase, hjoin⟩ := body_join base h hp
  rw [resolve, locate_eq_foldl, locate_eq_foldl, isAbsolute_join base h hp, hbase, hjoin,
    List.foldl_append, List.foldl_append, Location.foldl_move_idle hidle]

theorem resolve_of_absolute (h : p.isAbsolute = true) (base : Path) :
    base.resolve p = p.locate := by
  rw [resolve, join, if_pos h]

theorem resolve_congr (hbase : base.Alike base') (h : p.Alike q) (hp : p.segments ≠ [])
    (hq : q.segments ≠ []) : base.resolve p = base'.resolve q := by
  cases habs : p.isAbsolute with
  | true =>
    rw [resolve_of_absolute habs, resolve_of_absolute (h.absolute.symm.trans habs)]
    exact alike_iff.1 h
  | false =>
    have habs' := h.absolute.symm.trans habs
    have hfolds := h.folds
    rw [habs, body_eq_segments habs, body_eq_segments habs'] at hfolds
    rw [resolve_of_relative habs hp, resolve_of_relative habs' hq, alike_iff.1 hbase]
    exact foldl_move_eq_of_eqvGen hfolds nofun

def components (p : Path) : List String := p.body.filter (· ≠ "")

theorem components_toPath {l : Location} (h : l.Canonical) : l.toPath.components = l.names := by
  obtain ⟨-, hbody⟩ := Location.body_toPath h
  unfold components
  rcases hbody with hbody | ⟨hbody, hnames⟩
  · rw [hbody, List.filter_eq_self]
    intro s hs
    have hbusy := h.1 s hs
    simp only [isIdle, Bool.or_eq_false_iff, decide_eq_false_iff_not] at hbusy
    simpa using hbusy.1
  · rw [hbody, hnames]
    rfl

theorem alike_toPath (p : Path) : p.Alike p.locate.toPath :=
  alike_iff.2 p.canonical_locate.locate_toPath.symm

theorem splitSlashes_append {piece : List Char} (h : '/' ∉ piece) (rest : List Char) :
    splitSlashes (piece ++ '/' :: rest) = piece :: splitSlashes rest := by
  induction piece with
  | nil => rfl
  | cons c piece ih =>
    rw [List.mem_cons, not_or] at h
    rw [List.cons_append, splitSlashes, if_neg (Ne.symm h.1), ih h.2]

theorem splitSlashes_intercalate {pieces : List (List Char)} (hne : pieces ≠ [])
    (h : ∀ piece ∈ pieces, '/' ∉ piece) : splitSlashes (['/'].intercalate pieces) = pieces := by
  induction pieces with
  | nil => exact absurd rfl hne
  | cons piece pieces ih =>
    have hpiece := h piece List.mem_cons_self
    cases pieces with
    | nil => rw [List.intercalate_singleton, splitSlashes_of_not_mem hpiece]
    | cons next pieces =>
      rw [List.intercalate_cons_cons, List.append_assoc, List.singleton_append,
        splitSlashes_append hpiece,
        ih (List.cons_ne_nil _ _) fun x hx => h x (List.mem_cons_of_mem _ hx)]

theorem ofString_toString (hne : p.segments ≠ []) (h : ∀ s ∈ p.segments, '/' ∉ s.toList) :
    ofString p.toString = p := by
  have hpieces : splitSlashes (p.toString).toList = p.segments.map String.toList := by
    have hslash : "/".toList = ['/'] := rfl
    rw [toString, String.toList_intercalate, hslash]
    refine splitSlashes_intercalate (by simpa using hne) fun piece hpiece => ?_
    obtain ⟨s, hs, rfl⟩ := List.mem_map.1 hpiece
    exact h s hs
  rw [ofString, hpieces, List.map_map]
  simp

theorem splitSlashes_ne_nil (cs : List Char) : splitSlashes cs ≠ [] := by
  cases cs with
  | nil => exact List.cons_ne_nil _ _
  | cons c cs =>
    unfold splitSlashes
    split
    · exact List.cons_ne_nil _ _
    · split <;> exact List.cons_ne_nil _ _

theorem segments_ofString_ne_nil (text : String) : (ofString text).segments ≠ [] := by
  simpa [ofString] using splitSlashes_ne_nil text.toList

theorem body_sublist (p : Path) : p.body.Sublist p.segments := by
  unfold body
  split
  · exact List.tail_sublist _
  · exact .refl _

theorem ofString_toString_locate (text : String) :
    ofString (ofString text).locate.toPath.toString = (ofString text).locate.toPath := by
  generalize hl : (ofString text).locate = l
  have hslash : ∀ s ∈ l.names, '/' ∉ s.toList := by
    intro s hs
    rw [← hl] at hs
    exact not_mem_segments_ofString ((body_sublist _).subset ((locate_sublist _).subset hs))
  obtain ⟨absolute, names⟩ := l
  have hroot : ∀ s ∈ [""], '/' ∉ s.toList := by simp
  -- the four ways in which a location is written
  cases names with
  | nil =>
    cases absolute with
    | true => exact ofString_toString (List.cons_ne_nil _ _) (by simp [Location.toPath])
    | false => exact ofString_toString (List.cons_ne_nil _ _) hroot
  | cons s names =>
    cases absolute with
    | true =>
      exact ofString_toString (List.cons_ne_nil _ _) (List.forall_mem_append.2 ⟨hroot, hslash⟩)
    | false => exact ofString_toString (List.cons_ne_nil _ _) hslash

/-- A location that is written out is the canonical spelling of every path that leads to it: there
is no `.` in it and `..` only in front of a relative path, it is absolute when the path is, it is
its own canonical spelling, and the rules connect exactly the paths that have it in common. Where a
path leads from a base depends on what the two spell and not on how they do it. -/
theorem canonical_spelling (base : Path) (text : String) :
    let p := ofString text
    let spelled := p.locate.toPath
    "." ∉ spelled.components ∧
      (∃ ups rest, spelled.components = List.replicate ups ".." ++ rest ∧ ".." ∉ rest ∧
        (p.isAbsolute = true → ups = 0)) ∧
      spelled.isAbsolute = p.isAbsolute ∧
      spelled.locate.toPath = spelled ∧
      ofString spelled.toString = spelled ∧
      (∀ q, q.locate.toPath = spelled ↔ p.Alike q) ∧
      base.resolve p = base.locate.toPath.resolve p ∧
      (p.isAbsolute = true → base.resolve p = p.locate) ∧
      ∀ base' text', base.Alike base' → p.Alike (ofString text') →
        base.resolve p = base'.resolve (ofString text') := by
  intro p spelled
  have hcanonical : p.locate.Canonical := p.canonical_locate
  have hlocate : spelled.locate = p.locate := hcanonical.locate_toPath
  have hcomponents : spelled.components = p.locate.names := components_toPath hcanonical
  have hp : p.segments ≠ [] := segments_ofString_ne_nil text
  obtain ⟨hbusy, ups, rest, hnames, hrest, hups⟩ := hcanonical
  refine ⟨?_, ⟨ups, rest, hcomponents.trans hnames, hrest, hups⟩, ?_, ?_,
    ofString_toString_locate text, ?_, ?_, fun habs => resolve_of_absolute habs base, ?_⟩
  · rw [hcomponents]
    exact fun hdot => absurd (hbusy "." hdot) (by decide)
  · exact (alike_toPath p).absolute.symm
  · rw [hlocate]
  · intro q
    rw [alike_iff]
    constructor
    · intro hq
      rw [← hlocate, ← hq, q.canonical_locate.locate_toPath]
    · intro h
      rw [← h]
  · exact resolve_congr (alike_toPath base) (alike_iff.2 rfl) hp hp
  · exact fun base' text' hbase h =>
      resolve_congr hbase h hp (segments_ofString_ne_nil text')

example : (Path.ofString "./a/../../b/.//c/").locate.toString = "../b/c" := by decide

end Path

end GatewayFleet
