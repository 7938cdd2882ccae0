import Mathlib.Data.List.Induction
import GatewayFleet.Proofs.Deduplication
import GatewayFleet.Proofs.Members
import GatewayFleet.Value.Merge

/-! What merging does to single members. A member of the upper mapping is laid over the member of
that name in the lower one, or is new; every other member stays as it is. -/

namespace GatewayFleet.Value

variable {lower upper : Fields Value} {k : String}

/-- A value laid over one that need not be there. -/
def overlay : Option Value → Value → Option Value
  | some old, v => some (merge old v)
  | none, v => some v

theorem mergeFields_cons (lower : Fields Value) (m : String × Value) (upper : Fields Value) :
    mergeFields lower (m :: upper) =
      mergeFields (Fields.put lower m.1 (((Fields.get? lower m.1).map (merge · m.2)).getD m.2))
        upper := by
  rw [mergeFields]
  cases Fields.get? lower m.1 <;> rfl

theorem get?_put_overlay (lower : Fields Value) (m : String × Value) (k : String) :
    Fields.get? (Fields.put lower m.1 (((Fields.get? lower m.1).map (merge · m.2)).getD m.2)) k =
      if m.1 = k then overlay (Fields.get? lower k) m.2 else Fields.get? lower k := by
  by_cases h : m.1 = k
  · subst h
    rw [Fields.get?_put_self, if_pos rfl]
    cases Fields.get? lower m.1 <;> rfl
  · rw [Fields.get?_put_of_ne _ _ h, if_neg h]

theorem get?_mergeFields (lower upper : Fields Value) (k : String) :
    Fields.get? (mergeFields lower upper) k =
      (Fields.values upper k).foldl overlay (Fields.get? lower k) := by
  induction upper generalizing lower with
  | nil => simp
  | cons m upper ih =>
    rw [mergeFields_cons, ih, get?_put_overlay, Fields.values_cons]
    by_cases h : m.1 = k
    · simp [h]
    · simp [h]

theorem get?_mergeFields_of_single (lower : Fields Value) (h : Fields.Single upper k) :
    Fields.get? (mergeFields lower upper) k =
      Option.merge merge (Fields.get? lower k) (Fields.get? upper k) := by
  rw [get?_mergeFields, h]
  cases Fields.get? lower k <;> cases Fields.get? upper k <;> rfl

theorem forall_mem_put {P : String → Value → Prop} {fs : Fields Value} {v : Value}
    (hfs : ∀ m ∈ fs, P m.1 m.2) (hv : P k v) : ∀ m ∈ Fields.put fs k v, P m.1 m.2 := by
  induction fs with
  | nil => simpa [Fields.put] using hv
  | cons m fs ih =>
    obtain ⟨hm, hfs⟩ := List.forall_mem_cons.1 hfs
    unfold Fields.put
    split
    · rename_i heq
      exact List.forall_mem_cons.2 ⟨heq ▸ hv, hfs⟩
    · exact List.forall_mem_cons.2 ⟨hm, ih hfs⟩

theorem forall_mem_mergeFields {P : String → Value → Prop}
    (hmerge : ∀ m ∈ upper, ∀ a, P m.1 a → P m.1 m.2 → P m.1 (merge a m.2))
    (hlower : ∀ m ∈ lower, P m.1 m.2) (hupper : ∀ m ∈ upper, P m.1 m.2) :
    ∀ m ∈ mergeFields lower upper, P m.1 m.2 := by
  induction upper generalizing lower with
  | nil => simpa using hlower
  | cons m upper ih =>
    obtain ⟨hm, hupper⟩ := List.forall_mem_cons.1 hupper
    obtain ⟨hfirst, hmerge⟩ := List.forall_mem_cons.1 hmerge
    rw [mergeFields_cons]
    refine ih hmerge (forall_mem_put hlower ?_) hupper
    cases hget : Fields.get? lower m.1 with
    | none => exact hm
    | some old => exact hfirst _ (hlower _ (Fields.mem_of_get? hget)) hm

theorem distinct_mergeFields (h : Fields.Distinct lower) (upper : Fields Value) :
    Fields.Distinct (mergeFields lower upper) := by
  induction upper generalizing lower with
  | nil => rwa [mergeFields_nil]
  | cons m upper ih =>
    rw [mergeFields_cons]
    exact ih (Fields.distinct_put h _ _)

theorem keys_mergeFields (h : Fields.Distinct lower) (upper : Fields Value) :
    Fields.keys (mergeFields lower upper) =
      (Fields.keys lower ++ Fields.keys upper).eraseDups := by
  induction upper generalizing lower with
  | nil =>
    have hkeys : Fields.keys ([] : Fields Value) = [] := rfl
    rw [mergeFields_nil, hkeys, List.append_nil, Deduplication.eraseDups_of_nodup h]
  | cons m upper ih =>
    have hkeys : Fields.keys (m :: upper) = m.1 :: Fields.keys upper := rfl
    rw [mergeFields_cons, ih (Fields.distinct_put h _ _), Fields.keys_put, hkeys]
    by_cases hm : m.1 ∈ Fields.keys lower
    · simp [hm, List.eraseDups_append, List.removeAll]
    · rw [if_neg hm, List.append_assoc, List.singleton_append]

theorem kind_merge (a b : Value) : (merge a b).kind = b.kind := by
  cases a <;> cases b <;> simp [merge, kind]

theorem exists_mapping {v : Value} (h : v.kind = .mapping) : ∃ fs, v = .mapping fs := by
  cases v with
  | mapping fs => exact ⟨fs, rfl⟩
  | null | bool _ | number _ | string _ | list _ => cases h

theorem exists_list {v : Value} (h : v.kind = .list) : ∃ items, v = .list items := by
  cases v with
  | list items => exact ⟨items, rfl⟩
  | null | bool _ | number _ | string _ | mapping _ => cases h

/-- Values that take the place of whatever they are laid over. -/
def IsScalar (v : Value) : Prop := v.kind ≠ .mapping ∧ v.kind ≠ .list

theorem merge_of_isScalar (a : Value) {b : Value} (h : IsScalar b) : merge a b = b := by
  cases b with
  | mapping _ => exact absurd rfl h.1
  | list _ => exact absurd rfl h.2
  | null | bool _ | number _ | string _ => cases a <;> simp [merge]

@[elab_as_elim]
theorem parts_induction {P : Value → Prop} (leaf : ∀ v, IsScalar v → P v)
    (list : ∀ items, (∀ v ∈ items, P v) → P (.list items))
    (mapping : ∀ fs, (∀ m ∈ fs, P m.2) → P (.mapping fs)) (v : Value) : P v := by
  match v with
  | .list items => exact list items fun w hw => parts_induction leaf list mapping w
  | .mapping fs => exact mapping fs fun m hm => parts_induction leaf list mapping m.2
  | .null | .bool _ | .number _ | .string _ => exact leaf _ ⟨nofun, nofun⟩
termination_by v
decreasing_by
  · have hitems := List.sizeOf_lt_of_mem hw
    simp only [Value.list.sizeOf_spec]
    omega
  · have hfs := List.sizeOf_lt_of_mem hm
    obtain ⟨k, w⟩ := m
    simp only [Prod.mk.sizeOf_spec, Value.mapping.sizeOf_spec] at hfs ⊢
    omega

theorem WellFormed.merge {a b : Value} (ha : a.WellFormed) (hb : b.WellFormed) :
    (a.merge b).WellFormed := by
  induction b using parts_induction generalizing a with
  | leaf b hscalar => rwa [merge_of_isScalar a hscalar]
  | list ys =>
    by_cases hkind : a.kind = .list
    · obtain ⟨xs, rfl⟩ := exists_list hkind
      rw [merge_list]
      exact wellFormedItems_append ha hb
    · rwa [merge_of_kind_ne hkind]
  | mapping upper ih =>
    by_cases hkind : a.kind = .mapping
    · obtain ⟨lower, rfl⟩ := exists_mapping hkind
      rw [merge_mapping]
      refine ⟨distinct_mergeFields ha.1 upper, wellFormedFields_iff.2 ?_⟩
      exact forall_mem_mergeFields (P := fun _ v => v.WellFormed) (fun m hm _ => ih m hm)
        (wellFormedFields_iff.1 ha.2) (wellFormedFields_iff.1 hb.2)
    · rwa [merge_of_kind_ne hkind]

theorem mergeAll_concat (ws : List Value) (w : Value) :
    mergeAll (ws ++ [w]) = (mergeAll ws).merge w := by
  rw [mergeAll, mergeAll, List.foldl_append]
  rfl

theorem merge_mapping_right (w : Value) (fs : Fields Value) :
    ∃ gs, w.merge (.mapping fs) = .mapping gs := by
  cases w with
  | mapping lower => exact ⟨_, merge_mapping lower fs⟩
  | null | bool _ | number _ | string _ | list _ => exact ⟨fs, merge_of_kind_ne nofun⟩

theorem mergeAll_mapping {ws : List Value} (h : ∀ w ∈ ws, ∃ fs, w = .mapping fs) :
    ∃ fs, mergeAll ws = .mapping fs := by
  rcases List.eq_nil_or_concat ws with rfl | ⟨ws', w, rfl⟩
  · exact ⟨[], rfl⟩
  · rw [List.concat_eq_append] at h ⊢
    obtain ⟨fs, rfl⟩ := h w (List.mem_append_right _ (List.mem_singleton_self w))
    rw [mergeAll_concat]
    exact merge_mapping_right _ _

theorem mergeAll_concat_empty {ws : List Value} (h : ∀ w ∈ ws, ∃ fs, w = .mapping fs) :
    mergeAll (ws ++ [.mapping []]) = mergeAll ws := by
  obtain ⟨fs, hfs⟩ := mergeAll_mapping h
  rw [mergeAll_concat, hfs, merge_mapping, mergeFields_nil]

end GatewayFleet.Value
