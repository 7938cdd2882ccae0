import GatewayFleet.Gateway.Placeholder
import GatewayFleet.Proofs.Outcome
import GatewayFleet.Proofs.Value.Ways

/-! Values whose placeholders are replaced. Lists keep their length and mappings their names, so
what stood at the end of a way stands there afterwards, with its own placeholders replaced. -/

namespace GatewayFleet.Gateway

variable {env : Environment} {v w c : Value} {way : List String}

theorem hasOpening_of_not_mem {s : List Char} (h : '$' ∉ s) : hasOpening s = false := by
  induction s with
  | nil => rfl
  | cons x rest ih =>
    rw [List.mem_cons, not_or] at h
    rw [hasOpening]
    · exact ih h.2
    · rintro _ rfl _
      exact h.1 rfl

theorem expandText_of_not_mem {text : String} (h : '$' ∉ text.toList) (env : Environment) :
    expandText env text = .ok text := by
  rw [expandText, hasOpening_of_not_mem h]
  rfl

theorem Placeholder.read_of_not_hasOpening {s : List Char} (h : hasOpening s = false) :
    Placeholder.read s = none := by
  unfold Placeholder.read
  split
  · cases h
  · rfl

theorem pieces_of_not_hasOpening {s : List Char} (h : hasOpening s = false) :
    pieces s = s.map .literal := by
  induction s with
  | nil => rw [pieces, List.map_nil]
  | cons x rest ih =>
    have hrest : hasOpening rest = false := by
      rw [hasOpening] at h
      · exact h
      · rintro _ rfl rfl
        cases h
    rw [pieces, List.map_cons, ← ih hrest]
    split
    · rename_i hread
      rw [Placeholder.read_of_not_hasOpening h] at hread
      cases hread
    · rfl

theorem expandText_eq_mapM (env : Environment) (text : String) : expandText env text =
    ((pieces text.toList).mapM (Piece.expand env)).map
      fun parts => String.ofList parts.flatten := by
  rw [expandText]
  cases h : hasOpening text.toList with
  | true =>
    rw [if_pos rfl]
    cases (pieces text.toList).mapM (Piece.expand env) <;> rfl
  | false =>
    have hparts : ∀ s : List Char, (s.map Piece.literal).mapM (Piece.expand env) =
        .ok (s.map fun x => [x]) := by
      intro s
      rw [Outcome.mapM_eq_ok_iff, List.forall₂_map_left_iff, List.forall₂_map_right_iff]
      exact List.forall₂_same.2 fun x _ => rfl
    have hflat : (text.toList.map fun x => [x]).flatten = text.toList := by
      rw [← List.flatMap_def, List.flatMap_singleton']
    rw [pieces_of_not_hasOpening h, hparts]
    change Except.ok text = .ok (String.ofList (text.toList.map fun x => [x]).flatten)
    rw [hflat, String.ofList_toList]

theorem expandItems_eq_mapM (env : Environment) (items : List Value) :
    expandItems env items = items.mapM (expand env) := by
  induction items with
  | nil => rfl
  | cons x items ih => rw [expandItems, ih, List.mapM_cons]

theorem expandFields_eq_mapM (env : Environment) (fs : Fields Value) :
    expandFields env fs = fs.mapM fun m => (expand env m.2).map (m.1, ·) := by
  induction fs with
  | nil => rfl
  | cons m fs ih =>
    rw [expandFields, ih, List.mapM_cons]
    cases expand env m.2 <;> rfl

theorem expand_string_eq_ok {text : String} (h : expand env (.string text) = .ok c) :
    ∃ t, expandText env text = .ok t ∧ c = .string t := by
  rw [expand] at h
  obtain ⟨t, ht, rfl⟩ := Outcome.map_eq_ok h
  exact ⟨t, ht, rfl⟩

theorem expand_list_eq_ok {items : List Value} (h : expand env (.list items) = .ok c) :
    ∃ found, List.Forall₂ (fun x y => expand env x = .ok y) items found ∧ c = .list found := by
  rw [expand, expandItems_eq_mapM] at h
  obtain ⟨found, hfound, rfl⟩ := Outcome.map_eq_ok h
  exact ⟨found, Outcome.mapM_eq_ok_iff.1 hfound, rfl⟩

/-- Members of the same names in the same order, each of the second with the value of the first,
its placeholders replaced. -/
def Expands (env : Environment) (fs gs : Fields Value) : Prop :=
  List.Forall₂ (fun m n => n.1 = m.1 ∧ expand env m.2 = .ok n.2) fs gs

theorem expand_mapping_eq_ok {fs : Fields Value} (h : expand env (.mapping fs) = .ok c) :
    ∃ gs, Expands env fs gs ∧ c = .mapping gs := by
  rw [expand, expandFields_eq_mapM] at h
  obtain ⟨gs, hgs, rfl⟩ := Outcome.map_eq_ok h
  refine ⟨gs, (Outcome.mapM_eq_ok_iff.1 hgs).imp fun m n hn => ?_, rfl⟩
  obtain ⟨v, hv, rfl⟩ := Outcome.map_eq_ok hn
  exact ⟨rfl, hv⟩

theorem Expands.get? {fs gs : Fields Value} {k : String} (h : Expands env fs gs)
    (hget : Fields.get? fs k = some v) : ∃ x, expand env v = .ok x ∧ Fields.get? gs k = some x := by
  induction h with
  | nil => cases hget
  | @cons m n fs gs hmn _ ih =>
    rw [Fields.get?_cons] at hget ⊢
    by_cases hk : m.1 = k
    · rw [if_pos hk] at hget
      rw [if_pos (hmn.1.trans hk)]
      exact ⟨n.2, Option.some.inj hget ▸ hmn.2, rfl⟩
    · rw [if_neg hk] at hget
      rw [if_neg fun hn => hk (hmn.1.symm.trans hn)]
      exact ih hget

theorem Expands.map_fst {fs gs : Fields Value} (h : Expands env fs gs) :
    gs.map Prod.fst = fs.map Prod.fst := by
  induction h with
  | nil => rfl
  | cons hmn _ ih => rw [List.map_cons, List.map_cons, hmn.1, ih]

theorem exists_member?_expand {k : String} (h : expand env v = .ok c)
    (hmember : v.member? k = some w) : ∃ x, expand env w = .ok x ∧ c.member? k = some x := by
  cases v with
  | mapping fs =>
    obtain ⟨gs, hgs, rfl⟩ := expand_mapping_eq_ok h
    exact hgs.get? hmember
  | null | bool _ | number _ | string _ | list _ => cases hmember

theorem exists_at?_expand (h : expand env v = .ok c) (hat : v.at? way = some w) :
    ∃ x, expand env w = .ok x ∧ c.at? way = some x := by
  induction way generalizing v c with
  | nil =>
    obtain rfl := Option.some.inj hat
    exact ⟨c, h, rfl⟩
  | cons k way ih =>
    obtain ⟨m, hm, hat⟩ := Option.bind_eq_some_iff.1 hat
    obtain ⟨x, hx, hmember⟩ := exists_member?_expand h hm
    obtain ⟨y, hy, hrest⟩ := ih hx hat
    exact ⟨y, hy, by rw [Value.at?, hmember]; exact hrest⟩

variable {lower upper : Value}

theorem exists_at?_expand_merge (h : expand env (lower.merge upper) = .ok c)
    (hleads : Value.Leads upper way w) :
    ∃ below x y, Value.overlay below w = some x ∧ expand env x = .ok y ∧ c.at? way = some y := by
  obtain ⟨below, hbelow⟩ := Value.exists_at?_merge lower hleads
  cases hx : Value.overlay below w with
  | none => cases below <;> cases hx
  | some x =>
    obtain ⟨y, hy, hat⟩ := exists_at?_expand h (hbelow.trans hx)
    exact ⟨below, x, y, hx, hy, hat⟩

theorem exists_at?_expand_scalar (h : expand env (lower.merge upper) = .ok c)
    (hleads : Value.Leads upper way w) (hw : Value.IsScalar w) :
    ∃ y, expand env w = .ok y ∧ c.at? way = some y := by
  obtain ⟨below, x, y, hx, hy, hat⟩ := exists_at?_expand_merge h hleads
  rw [Value.overlay_scalar hw] at hx
  exact ⟨y, Option.some.inj hx ▸ hy, hat⟩

theorem exists_at?_expand_list {items : List Value}
    (h : expand env (lower.merge upper) = .ok c) (hleads : Value.Leads upper way (.list items)) :
    ∃ before own, c.at? way = some (.list (before ++ own)) ∧
      List.Forall₂ (fun x y => expand env x = .ok y) items own := by
  obtain ⟨below, x, y, hx, hy, hat⟩ := exists_at?_expand_merge h hleads
  obtain ⟨front, hfront⟩ := Value.exists_overlay_list below items
  obtain rfl := Option.some.inj (hfront.symm.trans hx)
  obtain ⟨found, hfound, rfl⟩ := expand_list_eq_ok hy
  have hown := List.forall₂_drop_append _ _ _ hfound.flip
  refine ⟨found.take front.length, found.drop front.length, ?_, hown.flip⟩
  rw [List.take_append_drop]
  exact hat

end GatewayFleet.Gateway
