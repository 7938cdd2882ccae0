import Mathlib.Data.List.TakeWhile
import GatewayFleet.Proofs.Gateway.Interchange

/-! The one scan over a text. A text is cut at the placeholders that begin as far left as they can
and do not overlap. What stands between them is kept, and each of them gives way to its variable or
to its fallback, which are not looked at again. -/

namespace GatewayFleet.Gateway

variable {env : Environment} {p : Placeholder} {s rest l last : List Char}
  {parts : List (List Char × Placeholder)}

theorem span_ends {f : Char → Bool} {r : List Char} {c : Char} (h : ∀ d ∈ r, f d = true)
    (hc : f c = false) (rest : List Char) :
    (r ++ c :: rest).takeWhile f = r ∧ (r ++ c :: rest).dropWhile f = c :: rest := by
  rw [List.takeWhile_append_of_pos h, List.dropWhile_append_of_pos h]
  simp [hc]

namespace Placeholder

def IsName (s : List Char) : Prop :=
  ∃ c r, s = c :: r ∧ startsName c = true ∧ ∀ d ∈ r, continuesName d = true

def ending : Option String → List Char
  | none => ['}']
  | some text => ':' :: '-' :: (text.toList ++ ['}'])

def written (p : Placeholder) : List Char :=
  '$' :: '{' :: (p.name.toList ++ ending p.fallback)

structure Legal (p : Placeholder) : Prop where
  name : IsName p.name.toList
  fallback : ∀ text, p.fallback = some text → '}' ∉ text.toList

theorem readEnd_ending {name : String} {fallback : Option String}
    (h : ∀ text, fallback = some text → '}' ∉ text.toList) (rest : List Char) :
    readEnd name (ending fallback ++ rest) = some (⟨name, fallback⟩, rest) := by
  cases fallback with
  | none => rfl
  | some text =>
    have hbody : ∀ d ∈ text.toList, decide (d ≠ '}') = true := by
      intro d hd
      exact decide_eq_true fun hbrace => h text rfl (hbrace ▸ hd)
    have hbrace : decide ('}' ≠ '}') = false := by decide
    obtain ⟨htake, hdrop⟩ := span_ends hbody hbrace rest
    have htext : ending (some text) ++ rest = ':' :: '-' :: (text.toList ++ '}' :: rest) := by
      simp [ending]
    rw [htext, readEnd, hdrop, htake, String.ofList_toList]

theorem exists_ending (fallback : Option String) (rest : List Char) :
    ∃ c r, ending fallback ++ rest = c :: r ∧ continuesName c = false := by
  cases fallback with
  | none => exact ⟨'}', rest, rfl, by decide⟩
  | some text => exact ⟨':', _, rfl, by decide⟩

theorem read_written (h : p.Legal) (rest : List Char) :
    read (p.written ++ rest) = some (p, rest) := by
  obtain ⟨name, fallback⟩ := p
  obtain ⟨c, r, hname, hc, hr⟩ := h.name
  obtain ⟨e, u, hending, he⟩ := exists_ending fallback rest
  obtain ⟨htake, hdrop⟩ := span_ends hr he u
  have htext : written ⟨name, fallback⟩ ++ rest = '$' :: '{' :: c :: (r ++ e :: u) := by
    rw [← hending]
    simp [written, hname]
  rw [htext, read, if_pos hc, hdrop, htake, ← hending, ← hname, String.ofList_toList]
  exact readEnd_ending h.fallback rest

theorem eq_ending_of_readEnd {name : String} (h : readEnd name s = some (p, rest)) :
    p.name = name ∧ s = ending p.fallback ++ rest ∧
      ∀ text, p.fallback = some text → '}' ∉ text.toList := by
  unfold readEnd at h
  split at h
  · obtain ⟨rfl, rfl⟩ := Prod.mk.inj (Option.some.inj h)
    exact ⟨rfl, rfl, nofun⟩
  · rename_i r
    split at h
    · rename_i x u hdrop
      obtain ⟨rfl, rfl⟩ := Prod.mk.inj (Option.some.inj h)
      have hx : x = '}' := by
        have hstop := List.head?_dropWhile_not (· ≠ '}') r
        rw [hdrop] at hstop
        simpa using hstop
      refine ⟨rfl, ?_, ?_⟩
      · conv_lhs => rw [← List.takeWhile_append_dropWhile (p := (· ≠ '}')) (l := r), hdrop]
        simp [ending, hx]
      · rintro text htext hmem
        obtain rfl := Option.some.inj htext
        rw [String.toList_ofList] at hmem
        simpa using List.mem_takeWhile_imp hmem
    · cases h
  · cases h

theorem legal_of_read (h : read s = some (p, rest)) : p.Legal ∧ s = p.written ++ rest := by
  unfold read at h
  split at h
  · rename_i c r
    split at h
    · rename_i hc
      obtain ⟨hname, hrest, hfallback⟩ := eq_ending_of_readEnd h
      have hlist : p.name.toList = c :: r.takeWhile continuesName := by
        rw [hname, String.toList_ofList]
      refine ⟨⟨⟨c, _, hlist, hc, fun d => List.mem_takeWhile_imp⟩, hfallback⟩, ?_⟩
      rw [written, hlist]
      simp [← hrest]
    · cases h
  · cases h

end Placeholder

def Begins (s : List Char) : Prop := ∃ p rest, Placeholder.Legal p ∧ s = p.written ++ rest

theorem read_eq_none_iff : Placeholder.read s = none ↔ ¬ Begins s := by
  constructor
  · rintro h ⟨p, rest, hlegal, rfl⟩
    rw [Placeholder.read_written hlegal] at h
    cases h
  · intro h
    rw [Option.eq_none_iff_forall_ne_some]
    rintro ⟨p, rest⟩ hread
    exact h ⟨p, rest, Placeholder.legal_of_read hread⟩

/-- No placeholder begins in the first text when the second follows. -/
def Plain (l rest : List Char) : Prop :=
  ∀ before after, l = before ++ after → after ≠ [] → ¬ Begins (after ++ rest)

theorem plain_nil (rest : List Char) : Plain [] rest := by
  intro before after h hafter
  exact absurd (List.append_eq_nil_iff.1 h.symm).2 hafter

theorem plain_cons_iff {c : Char} :
    Plain (c :: l) rest ↔ ¬ Begins (c :: (l ++ rest)) ∧ Plain l rest := by
  constructor
  · intro h
    exact ⟨h [] (c :: l) rfl nofun, fun before after hl => h (c :: before) after (by rw [hl]; rfl)⟩
  · rintro ⟨hfirst, hl⟩ before after h hafter
    cases before with
    | nil =>
      obtain rfl : c :: l = after := h
      exact hfirst
    | cons d before => exact hl before after (List.cons.inj h).2 hafter

/-- The text is cut into placeholders, each with the text in front of it where none begins, and
the text behind the last one. -/
inductive Splits : List Char → List (List Char × Placeholder) → List Char → Prop
  | done {last : List Char} : Plain last [] → Splits last [] last
  | next {l rest last : List Char} {p : Placeholder} {parts : List (List Char × Placeholder)} :
      p.Legal → Plain l (p.written ++ rest) → Splits rest parts last →
        Splits (l ++ (p.written ++ rest)) ((l, p) :: parts) last

def cut : List Piece → List (List Char × Placeholder) × List Char
  | [] => ([], [])
  | .literal c :: rest =>
    match cut rest with
    | ((l, p) :: parts, last) => ((c :: l, p) :: parts, last)
    | ([], last) => ([], c :: last)
  | .placeholder p :: rest => (([], p) :: (cut rest).1, (cut rest).2)

theorem pieces_of_begins (h : p.Legal) (rest : List Char) :
    pieces (p.written ++ rest) = .placeholder p :: pieces rest := by
  have hread := Placeholder.read_written h rest
  rw [Placeholder.written, List.cons_append] at hread ⊢
  rw [pieces]
  split
  · rename_i q u hq
    obtain ⟨rfl, rfl⟩ := Prod.mk.inj (Option.some.inj (hread.symm.trans hq))
    rfl
  · rename_i hq
    cases hread.symm.trans hq

theorem pieces_of_not_begins {c : Char} (h : ¬ Begins (c :: s)) :
    pieces (c :: s) = .literal c :: pieces s := by
  rw [pieces]
  split
  · rename_i hread
    cases (read_eq_none_iff.2 h).symm.trans hread
  · rfl

theorem pieces_append (h : Plain l rest) :
    pieces (l ++ rest) = l.map .literal ++ pieces rest := by
  induction l with
  | nil => rfl
  | cons c l ih =>
    obtain ⟨hfirst, hl⟩ := plain_cons_iff.1 h
    rw [List.cons_append, pieces_of_not_begins hfirst, ih hl]
    rfl

theorem cut_literals (l : List Char) : cut (l.map .literal) = ([], l) := by
  induction l with
  | nil => rfl
  | cons c l ih => rw [List.map_cons, cut, ih]

theorem cut_append (l : List Char) (p : Placeholder) (ps : List Piece) :
    cut (l.map .literal ++ .placeholder p :: ps) = ((l, p) :: (cut ps).1, (cut ps).2) := by
  induction l with
  | nil => rfl
  | cons c l ih => rw [List.map_cons, List.cons_append, cut, ih]

theorem Splits.cut_eq (h : Splits s parts last) : cut (pieces s) = (parts, last) := by
  induction h with
  | @done last hplain =>
    have hpieces := pieces_append hplain
    rw [List.append_nil, pieces, List.append_nil] at hpieces
    rw [hpieces, cut_literals]
  | next hlegal hplain _ ih =>
    rw [pieces_append hplain, pieces_of_begins hlegal, cut_append, ih]

theorem Splits.cons {c : Char} (h : Splits s parts last) (hc : ¬ Begins (c :: s)) :
    Splits (c :: s) (cut (.literal c :: pieces s)).1 (cut (.literal c :: pieces s)).2 := by
  rw [cut, h.cut_eq]
  cases h with
  | done hplain => exact .done (plain_cons_iff.2 ⟨by rwa [List.append_nil], hplain⟩)
  | next hlegal hplain hrest =>
    exact .next (l := c :: _) hlegal (plain_cons_iff.2 ⟨hc, hplain⟩) hrest

theorem splits_cut (s : List Char) : Splits s (cut (pieces s)).1 (cut (pieces s)).2 := by
  induction s using pieces.induct with
  | case1 =>
    rw [pieces]
    exact .done (plain_nil [])
  | case2 c r p rest hread ih =>
    obtain ⟨hlegal, hs⟩ := Placeholder.legal_of_read hread
    rw [hs, pieces_of_begins hlegal]
    exact .next (l := []) hlegal (plain_nil _) ih
  | case3 c r hread ih =>
    have hfirst := read_eq_none_iff.1 hread
    rw [pieces_of_not_begins hfirst]
    exact ih.cons hfirst

namespace Placeholder

def isMissing (env : Environment) (p : Placeholder) : Bool :=
  p.fallback.isNone && (env p.name).isNone

/-- What the variable holds, be it empty, and otherwise the fallback as it is written. -/
def value (env : Environment) (p : Placeholder) : String := ((env p.name).or p.fallback).getD ""

theorem expand_eq (env : Environment) (p : Placeholder) :
    Piece.expand env (.placeholder p) =
      if p.isMissing env then .error (.missingVariable p.name) else .ok (p.value env).toList := by
  obtain ⟨name, fallback⟩ := p
  rw [Piece.expand, isMissing, value]
  cases env name <;> cases fallback <;> rfl

end Placeholder

def assembled (env : Environment) (parts : List (List Char × Placeholder)) (last : List Char) :
    List Char :=
  parts.flatMap (fun q => q.1 ++ (q.2.value env).toList) ++ last

def joined (env : Environment) (ps : List Piece) : Except Failure (List Char) :=
  (ps.mapM (Piece.expand env)).map List.flatten

theorem joined_cons_ok {piece : Piece} {u : List Char} (h : piece.expand env = .ok u)
    (ps : List Piece) : joined env (piece :: ps) = (joined env ps).map (u ++ ·) := by
  rw [joined, joined, Outcome.mapM_cons_ok _ h]
  cases ps.mapM (Piece.expand env) <;> rfl

theorem joined_literals (l : List Char) (ps : List Piece) :
    joined env (l.map .literal ++ ps) = (joined env ps).map (l ++ ·) := by
  induction l with
  | nil => cases h : joined env ps <;> simp [h, Except.map]
  | cons c l ih =>
    rw [List.map_cons, List.cons_append, joined_cons_ok rfl, ih]
    cases joined env ps <;> rfl

theorem joined_placeholder (p : Placeholder) (ps : List Piece) :
    joined env (.placeholder p :: ps) =
      if p.isMissing env then .error (.missingVariable p.name)
      else (joined env ps).map ((p.value env).toList ++ ·) := by
  have hp := p.expand_eq env
  cases hmissing : p.isMissing env with
  | true =>
    rw [hmissing, if_pos rfl] at hp
    rw [joined, Outcome.mapM_cons_error _ hp]
    rfl
  | false =>
    rw [hmissing] at hp
    exact joined_cons_ok hp ps

theorem joined_of_splits (h : Splits s parts last) :
    joined env (pieces s) =
      match parts.find? fun q => q.2.isMissing env with
      | some q => .error (.missingVariable q.2.name)
      | none => .ok (assembled env parts last) := by
  induction h with
  | @done last hplain =>
    have hpieces := pieces_append hplain
    rw [List.append_nil] at hpieces
    rw [hpieces, joined_literals, pieces]
    simp [joined, assembled, Except.map, pure, Except.pure]
  | @next l rest last p parts hlegal hplain _ ih =>
    rw [pieces_append hplain, pieces_of_begins hlegal, joined_literals, joined_placeholder, ih,
      List.find?_cons]
    cases p.isMissing env with
    | true => rfl
    | false =>
      cases parts.find? fun q => q.2.isMissing env with
      | some q => rfl
      | none => simp [assembled, Except.map]

theorem expandText_of_splits {text : String} (h : Splits text.toList parts last) :
    expandText env text =
      match parts.find? fun q => q.2.isMissing env with
      | some q => .error (.missingVariable q.2.name)
      | none => .ok (String.ofList (assembled env parts last)) := by
  have htext : expandText env text = (joined env (pieces text.toList)).map String.ofList := by
    rw [expandText_eq_mapM, joined]
    cases (pieces text.toList).mapM (Piece.expand env) <;> rfl
  rw [htext, joined_of_splits h]
  cases parts.find? fun q => q.2.isMissing env <;> rfl

theorem plain_iff_not_occurs : Plain s [] ↔
    ∀ before after p, Placeholder.Legal p → s ≠ before ++ (p.written ++ after) := by
  constructor
  · rintro h before after p hlegal rfl
    exact h before (p.written ++ after) rfl nofun ⟨p, after, hlegal, List.append_nil _⟩
  · rintro h before after rfl - ⟨p, rest, hlegal, hbegins⟩
    rw [List.append_nil] at hbegins
    exact h before rest p hlegal (by rw [hbegins])

theorem Splits.plain (h : Splits s [] last) : Plain s [] := by
  cases h with
  | done hplain => exact hplain

/-- Every text is cut at its placeholders in exactly one way. It cannot be expanded when one of them
is missing, and the first such is named; otherwise each of them gives way to its value. A text in
which no placeholder occurs stays as it is. -/
theorem expandText_scans (env : Environment) (text : String) :
    ∃ parts last, Splits text.toList parts last ∧
      (∀ parts' last', Splits text.toList parts' last' → parts' = parts ∧ last' = last) ∧
      (expandText env text =
        match parts.find? fun q => q.2.isMissing env with
        | some q => .error (.missingVariable q.2.name)
        | none => .ok (String.ofList (assembled env parts last))) ∧
      ((∀ before after p, Placeholder.Legal p → text.toList ≠ before ++ (p.written ++ after)) →
        expandText env text = .ok text) := by
  have hsplits := splits_cut text.toList
  refine ⟨_, _, hsplits, ?_, expandText_of_splits hsplits, ?_⟩
  · intro parts' last' h
    rw [h.cut_eq]
    exact ⟨rfl, rfl⟩
  · intro h
    rw [expandText_of_splits (.done (plain_iff_not_occurs.2 h))]
    simp [assembled]

/-- An opening that goes nowhere hides nothing, and a fallback is not looked at again. -/
theorem expandText_scans_nested :
    expandText onlyToken "$\x7bA$\x7bTOKEN\x7d-$\x7bU:-$\x7bTOKEN\x7d" =
      .ok "$\x7bAt-$\x7bTOKEN" ∧
    expandText onlyToken "$\x7b1\x7d$\x7bA" = .ok "$\x7b1\x7d$\x7bA" := by
  constructor
  · obtain ⟨parts, last, -, honly, htext, -⟩ :=
      expandText_scans onlyToken "$\x7bA$\x7bTOKEN\x7d-$\x7bU:-$\x7bTOKEN\x7d"
    obtain ⟨rfl, rfl⟩ := honly _ _ (splits_cut _)
    rw [htext]
    decide +kernel
  · obtain ⟨parts, last, -, -, -, hsame⟩ :=
      expandText_scans onlyToken "$\x7b1\x7d$\x7bA"
    have hcut : cut (pieces "$\x7b1\x7d$\x7bA".toList) = ([], "$\x7b1\x7d$\x7bA".toList) := by
      decide +kernel
    have hwhole := splits_cut "$\x7b1\x7d$\x7bA".toList
    rw [hcut] at hwhole
    exact hsame (plain_iff_not_occurs.1 hwhole.plain)

end GatewayFleet.Gateway
