import GatewayFleet.Proofs.Gateway.Scanning

/-! Placeholders throughout a value. Only the texts of a value change, each by itself; names of
members are not looked at. What comes of a value depends on the variables its placeholders name and
on nothing else of the environment. -/

namespace GatewayFleet.Gateway

variable {env : Environment} {v c : Value}

def firstUnset (env : Environment) (names : List String) : Option String :=
  names.find? fun name => (env name).isNone

theorem firstUnset_eq_none_iff {names : List String} :
    firstUnset env names = none ↔ ∀ name ∈ names, (env name).isSome = true := by
  simp [firstUnset, Option.isSome_iff_ne_none]

theorem firstUnset_eq_some_iff {names : List String} {name : String} :
    firstUnset env names = some name ↔ ∃ before after, names = before ++ name :: after ∧
      (∀ x ∈ before, (env x).isSome = true) ∧ env name = none := by
  rw [firstUnset, List.find?_eq_some_iff_append]
  constructor
  · rintro ⟨hname, before, after, rfl, hbefore⟩
    exact ⟨before, after, rfl, fun x hx => by simpa using hbefore x hx, by simpa using hname⟩
  · rintro ⟨before, after, rfl, hbefore, hname⟩
    exact ⟨by simp [hname], before, after, rfl, fun x hx => by simpa using hbefore x hx⟩

theorem findSome?_firstUnset {α : Type} {f : α → Option Failure} {g : α → List String}
    {xs : List α} (h : ∀ x ∈ xs, f x = (firstUnset env (g x)).map .missingVariable) :
    xs.findSome? f = (firstUnset env (xs.flatMap g)).map .missingVariable := by
  induction xs with
  | nil => rfl
  | cons x xs ih =>
    have hrest := ih fun y hy => h y (List.mem_cons_of_mem _ hy)
    rw [List.findSome?_cons, h x List.mem_cons_self, hrest, firstUnset, firstUnset, firstUnset,
      List.flatMap_cons, List.find?_append]
    cases (g x).find? fun name => (env name).isNone <;> rfl

theorem Piece.failure?_expand (env : Environment) (piece : Piece) :
    Outcome.failure? (piece.expand env) =
      (firstUnset env piece.needed?.toList).map .missingVariable := by
  cases piece with
  | literal x => rfl
  | placeholder p =>
    obtain ⟨name, fallback⟩ := p
    rw [Piece.expand]
    cases hname : env name with
    | some value => cases fallback <;> simp [Piece.needed?, firstUnset, hname, Outcome.failure?]
    | none => cases fallback <;> simp [Piece.needed?, firstUnset, hname, Outcome.failure?]

theorem failure?_expandText (env : Environment) (text : String) :
    Outcome.failure? (expandText env text) =
      (firstUnset env (needed (.string text))).map .missingVariable := by
  rw [expandText_eq_mapM, Outcome.failure?_map, Outcome.failure?_mapM, needed,
    List.filterMap_eq_flatMap_toList]
  exact findSome?_firstUnset fun piece _ => piece.failure?_expand env

theorem failure?_expand (env : Environment) (v : Value) :
    Outcome.failure? (expand env v) = (firstUnset env (needed v)).map .missingVariable := by
  induction v using Value.parts_induction with
  | leaf v hscalar =>
    cases v with
    | string text =>
      rw [expand, Outcome.failure?_map]
      exact failure?_expandText env text
    | list _ => exact absurd rfl hscalar.2
    | mapping _ => exact absurd rfl hscalar.1
    | null | bool _ | number _ => rfl
  | list items ih =>
    rw [expand, expandItems_eq_mapM, Outcome.failure?_map, Outcome.failure?_mapM, needed,
      neededInItems_eq_flatMap]
    exact findSome?_firstUnset ih
  | mapping fs ih =>
    rw [expand, expandFields_eq_mapM, Outcome.failure?_map, Outcome.failure?_mapM, needed,
      neededInFields_eq_flatMap]
    refine findSome?_firstUnset fun m hm => ?_
    rw [Outcome.failure?_map]
    exact ih m hm

/-- The second value is the first one with each of its texts expanded. -/
inductive Filled (env : Environment) : Value → Value → Prop
  | text {s t : String} : expandText env s = .ok t → Filled env (.string s) (.string t)
  | list {items found : List Value} : List.Forall₂ (Filled env) items found →
      Filled env (.list items) (.list found)
  | mapping {fs gs : Fields Value} : Fields.keys gs = Fields.keys fs →
      List.Forall₂ (Filled env) (fs.map Prod.snd) (gs.map Prod.snd) →
        Filled env (.mapping fs) (.mapping gs)
  | other {v : Value} : v.kind ≠ .string → v.kind ≠ .list → v.kind ≠ .mapping → Filled env v v

theorem Expands.keys_eq {fs gs : Fields Value} (h : Expands env fs gs) :
    Fields.keys gs = Fields.keys fs := by
  induction h with
  | nil => rfl
  | cons hmn _ ih =>
    rw [Fields.keys] at ih ⊢
    rw [List.map_cons, hmn.1, ih]
    rfl

theorem filled_of_expand (h : expand env v = .ok c) : Filled env v c := by
  induction v using Value.parts_induction generalizing c with
  | leaf v hscalar =>
    cases v with
    | string text =>
      obtain ⟨t, ht, rfl⟩ := expand_string_eq_ok h
      exact .text ht
    | list _ => exact absurd rfl hscalar.2
    | mapping _ => exact absurd rfl hscalar.1
    | null | bool _ | number _ =>
      obtain rfl := Except.ok.inj h
      exact .other nofun nofun nofun
  | list items ih =>
    obtain ⟨found, hfound, rfl⟩ := expand_list_eq_ok h
    exact .list (Outcome.forall₂_mono hfound fun x hx y => ih x hx)
  | mapping fs ih =>
    obtain ⟨gs, hgs, rfl⟩ := expand_mapping_eq_ok h
    refine .mapping hgs.keys_eq ?_
    rw [List.forall₂_map_left_iff, List.forall₂_map_right_iff]
    exact Outcome.forall₂_mono hgs fun m hm n hmn => ih m hm hmn.2

variable {other : Environment}

theorem Piece.expand_congr {piece : Piece}
    (h : ∀ name, piece.variable? = some name → env name = other name) :
    piece.expand env = piece.expand other := by
  cases piece with
  | literal x => rfl
  | placeholder p => rw [Piece.expand, Piece.expand, h p.name rfl]

theorem expandText_congr {text : String}
    (h : ∀ name ∈ mentioned (.string text), env name = other name) :
    expandText env text = expandText other text := by
  rw [expandText_eq_mapM, expandText_eq_mapM]
  congr 1
  refine Outcome.mapM_congr fun piece hpiece => Piece.expand_congr fun name hname => ?_
  rw [mentioned] at h
  exact h name (List.mem_filterMap.2 ⟨piece, hpiece, hname⟩)

theorem mentionedInItems_eq_flatMap (items : List Value) :
    mentionedInItems items = items.flatMap mentioned := by
  induction items with
  | nil => rfl
  | cons x items ih => rw [mentionedInItems, ih, List.flatMap_cons]

theorem mentionedInFields_eq_flatMap (fs : Fields Value) :
    mentionedInFields fs = fs.flatMap fun m => mentioned m.2 := by
  induction fs with
  | nil => rfl
  | cons m fs ih => rw [mentionedInFields, ih, List.flatMap_cons]

theorem expand_congr (h : ∀ name ∈ mentioned v, env name = other name) :
    expand env v = expand other v := by
  induction v using Value.parts_induction with
  | leaf v hscalar =>
    cases v with
    | string text => rw [expand, expand, expandText_congr h]
    | list _ => exact absurd rfl hscalar.2
    | mapping _ => exact absurd rfl hscalar.1
    | null | bool _ | number _ => rfl
  | list items ih =>
    rw [mentioned, mentionedInItems_eq_flatMap] at h
    rw [expand, expand, expandItems_eq_mapM, expandItems_eq_mapM]
    congr 1
    refine Outcome.mapM_congr fun x hx => ih x hx fun name hname => ?_
    exact h name (List.mem_flatMap.2 ⟨x, hx, hname⟩)
  | mapping fs ih =>
    rw [mentioned, mentionedInFields_eq_flatMap] at h
    rw [expand, expand, expandFields_eq_mapM, expandFields_eq_mapM]
    congr 1
    refine Outcome.mapM_congr fun m hm => congrArg _ (ih m hm fun name hname => ?_)
    exact h name (List.mem_flatMap.2 ⟨m, hm, hname⟩)

theorem Splits.filterMap_pieces {s last : List Char} {parts : List (List Char × Placeholder)}
    {f : Piece → Option String} (hf : ∀ x, f (.literal x) = none) (h : Splits s parts last) :
    (pieces s).filterMap f = parts.filterMap fun q => f (.placeholder q.2) := by
  have hliterals : ∀ l : List Char, (l.map Piece.literal).filterMap f = [] := by
    intro l
    rw [List.filterMap_map, List.filterMap_eq_nil_iff]
    exact fun x _ => hf x
  induction h with
  | @done last hplain =>
    have hpieces := pieces_append hplain
    rw [List.append_nil, pieces, List.append_nil] at hpieces
    rw [hpieces, hliterals]
    rfl
  | next hlegal hplain _ ih =>
    rw [pieces_append hplain, pieces_of_begins hlegal, List.filterMap_append, hliterals,
      List.nil_append, List.filterMap_cons, List.filterMap_cons, ih]

theorem mentioned_of_splits {text : String} {last : List Char}
    {parts : List (List Char × Placeholder)} (h : Splits text.toList parts last) :
    mentioned (.string text) = parts.map fun q => q.2.name := by
  rw [mentioned, h.filterMap_pieces fun _ => rfl]
  exact congrFun (List.filterMap_eq_map (f := fun q => q.2.name)) parts

theorem needed_of_splits {text : String} {last : List Char}
    {parts : List (List Char × Placeholder)} (h : Splits text.toList parts last) :
    needed (.string text) =
      (parts.filter fun q => q.2.fallback.isNone).map fun q => q.2.name := by
  rw [needed, h.filterMap_pieces fun _ => rfl]
  clear h
  induction parts with
  | nil => rfl
  | cons q parts ih =>
    obtain ⟨l, name, fallback⟩ := q
    rw [List.filterMap_cons, List.filter_cons, ih]
    cases fallback <;> rfl

/-- A value can be expanded when the variables are set that it needs, and otherwise the first one
that is not set is named, in document order. Nothing but its texts changes, and two environments
that agree on the variables it names make the same of it. The variables of a text are those of the
placeholders it is cut at. -/
theorem expand_substitutes (env : Environment) (v : Value) :
    ((∃ c, expand env v = .ok c) ↔ ∀ name ∈ needed v, (env name).isSome = true) ∧
    (∀ failure, expand env v = .error failure → ∃ before name after,
      needed v = before ++ name :: after ∧ (∀ x ∈ before, (env x).isSome = true) ∧
        env name = none ∧ failure = .missingVariable name) ∧
    (∀ c, expand env v = .ok c → Filled env v c) ∧
    (∀ other : Environment, (∀ name ∈ mentioned v, env name = other name) →
      expand env v = expand other v) ∧
    ∀ text parts last, Splits (String.toList text) parts last →
      needed (.string text) =
          (parts.filter fun q => q.2.fallback.isNone).map (fun q => q.2.name) ∧
        mentioned (.string text) = parts.map fun q => q.2.name := by
  have hfailure := failure?_expand env v
  refine ⟨?_, ?_, fun c => filled_of_expand, fun other => expand_congr,
    fun text parts last h => ⟨needed_of_splits h, mentioned_of_splits h⟩⟩
  · rw [← Outcome.failure?_eq_none_iff, hfailure, Option.map_eq_none_iff, firstUnset_eq_none_iff]
  · intro failure h
    rw [Outcome.failure?_eq_some_iff.2 h] at hfailure
    obtain ⟨name, hname, rfl⟩ := Option.map_eq_some_iff.1 hfailure.symm
    obtain ⟨before, after, hneeded, hbefore, hunset⟩ := firstUnset_eq_some_iff.1 hname
    exact ⟨before, name, after, hneeded, hbefore, hunset, rfl⟩

/-- The name of its member is no placeholder, and one of its texts has a fallback. -/
def twoTexts (first second : String) : Value :=
  .mapping [("$\x7bKEY\x7d", .list [.string first, .null]), ("b", .string second)]

theorem expand_substitutes_twoTexts :
    (∃ c, expand onlyToken (twoTexts "$\x7bTOKEN\x7d" "$\x7bX:-$\x7bY\x7d") = .ok c ∧
      Filled onlyToken (twoTexts "$\x7bTOKEN\x7d" "$\x7bX:-$\x7bY\x7d") c) ∧
    expand onlyToken (twoTexts "$\x7bTOKEN\x7d" "$\x7bX:-$\x7bY\x7d") =
      expand (fun name => if name = "X" then none else some "t")
        (twoTexts "$\x7bTOKEN\x7d" "$\x7bX:-$\x7bY\x7d") ∧
    expand onlyToken (twoTexts "$\x7bTOKEN\x7d$\x7bA\x7d" "$\x7bB\x7d") =
      .error (.missingVariable "A") ∧
    onlyToken "A" = none := by
  obtain ⟨hok, -, hfilled, hagree, -⟩ :=
    expand_substitutes onlyToken (twoTexts "$\x7bTOKEN\x7d" "$\x7bX:-$\x7bY\x7d")
  obtain ⟨c, hc⟩ := hok.2 (by decide +kernel)
  have hmissing : expand onlyToken (twoTexts "$\x7bTOKEN\x7d$\x7bA\x7d" "$\x7bB\x7d") =
      .error (.missingVariable "A") := by
    decide +kernel
  obtain ⟨before, name, after, -, -, hunset, hname⟩ :=
    (expand_substitutes onlyToken (twoTexts "$\x7bTOKEN\x7d$\x7bA\x7d" "$\x7bB\x7d")).2.1 _ hmissing
  obtain rfl : "A" = name := Failure.missingVariable.inj hname
  exact ⟨⟨c, hc, hfilled c hc⟩, hagree _ (by decide +kernel), hmissing, hunset⟩

end GatewayFleet.Gateway
