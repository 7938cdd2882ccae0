import GatewayFleet.Policy.Fragment

/-! Looking up and leaving out members of mappings that are put together from parts. Known members
are written first and what was not interpreted follows, so a look-up of a known name never reaches
that rest, and leaving out the known names leaves nothing else. -/

namespace GatewayFleet

namespace Fields

variable {α : Type} {fs gs : Fields α} {k : String} {known : List String}

def Free (fs : Fields α) (known : List String) : Prop := ∀ m ∈ fs, m.1 ∉ known

theorem free_without (fs : Fields α) (known : List String) : Free (without fs known) known := by
  intro m hm
  have hkept := (List.mem_filter.1 hm).2
  simpa using hkept

theorem free_nil (known : List String) : Free ([] : Fields α) known := List.forall_mem_nil _

theorem get?_cons (m : String × α) (fs : Fields α) (k : String) :
    get? (m :: fs) k = if m.1 = k then some m.2 else get? fs k := rfl

theorem get?_append (fs gs : Fields α) (k : String) :
    get? (fs ++ gs) k = (get? fs k).or (get? gs k) := by
  induction fs with
  | nil => simp
  | cons m fs ih =>
    by_cases h : m.1 = k
    · simp [get?, h]
    · simp [get?, h, ih]

theorem get?_eq_none_iff : get? fs k = none ↔ ∀ m ∈ fs, m.1 ≠ k := by
  induction fs with
  | nil => simp
  | cons m fs ih =>
    by_cases h : m.1 = k
    · simp [get?, h]
    · simp [get?, h, ih]

theorem mem_of_get? {v : α} (h : get? fs k = some v) : (k, v) ∈ fs := by
  induction fs with
  | nil => simp at h
  | cons m fs ih =>
    by_cases hm : m.1 = k
    · obtain rfl : m.2 = v := by simpa [get?, hm] using h
      simp [← hm]
    · exact List.mem_cons_of_mem _ (ih (by simpa [get?, hm] using h))

theorem isSome_get?_iff : (get? fs k).isSome ↔ ∃ m ∈ fs, m.1 = k := by
  simp [Option.isSome_iff_ne_none, get?_eq_none_iff]

theorem Distinct.get?_tail {m : String × α} (h : Distinct (m :: fs)) :
    Fields.get? fs m.1 = none :=
  get?_eq_none_iff.2 fun _ hn heq => (List.nodup_cons.1 h).1 (List.mem_map.2 ⟨_, hn, heq⟩)

theorem Distinct.get?_of_mem {v : α} (h : Distinct fs) (hmem : (k, v) ∈ fs) :
    Fields.get? fs k = some v := by
  induction fs with
  | nil => cases hmem
  | cons m fs ih =>
    rw [get?_cons]
    rcases List.mem_cons.1 hmem with rfl | hmem
    · exact if_pos rfl
    · rw [if_neg fun heq => get?_eq_none_iff.1 h.get?_tail _ hmem heq.symm]
      exact ih (List.nodup_cons.1 h).2 hmem

theorem Free.get? (h : Free fs known) (hk : k ∈ known) : Fields.get? fs k = none :=
  get?_eq_none_iff.2 fun m hm heq => h m hm (heq ▸ hk)

theorem Free.without (h : Free fs known) : Fields.without fs known = fs :=
  List.filter_eq_self.2 fun m hm => by simpa using h m hm

theorem without_append (fs gs : Fields α) (known : List String) :
    without (fs ++ gs) known = without fs known ++ without gs known :=
  List.filter_append ..

theorem without_cons (m : String × α) (fs : Fields α) (known : List String) :
    without (m :: fs) known = if m.1 ∈ known then without fs known else m :: without fs known := by
  by_cases h : m.1 ∈ known
  · simp [without, h]
  · simp [without, h]

def values (fs : Fields α) (k : String) : List α :=
  fs.filterMap fun m => if m.1 = k then some m.2 else none

theorem values_cons (m : String × α) (fs : Fields α) (k : String) :
    values (m :: fs) k = if m.1 = k then m.2 :: values fs k else values fs k := by
  by_cases h : m.1 = k
  · simp [values, h]
  · simp [values, h]

@[simp] theorem values_nil (k : String) : values ([] : Fields α) k = [] := rfl

theorem values_append (fs gs : Fields α) (k : String) :
    values (fs ++ gs) k = values fs k ++ values gs k := List.filterMap_append

theorem Free.values (h : Free fs known) (hk : k ∈ known) : Fields.values fs k = [] := by
  refine List.filterMap_eq_nil_iff.2 fun m hm => if_neg ?_
  rintro rfl
  exact h m hm hk

def Single (fs : Fields α) (k : String) : Prop := values fs k = (get? fs k).toList

theorem get?_eq_head? (fs : Fields α) (k : String) : get? fs k = (values fs k).head? := by
  induction fs with
  | nil => rfl
  | cons m fs ih =>
    rw [values_cons, get?_cons, ih]
    by_cases h : m.1 = k
    · simp [h]
    · simp [h]

theorem get?_of_values {o : Option α} (h : values fs k = o.toList) : get? fs k = o := by
  rw [get?_eq_head?, h]
  cases o <;> rfl

theorem single_of_values {o : Option α} (h : values fs k = o.toList) : Single fs k := by
  rw [Single, get?_of_values h, h]

theorem Distinct.single (h : Distinct fs) (k : String) : Single fs k := by
  unfold Single
  induction fs with
  | nil => rfl
  | cons m fs ih =>
    have hrest : Distinct fs := (List.nodup_cons.1 h).2
    rw [values_cons, get?_cons]
    by_cases hk : m.1 = k
    · rw [if_pos hk, if_pos hk, ih hrest, ← hk, h.get?_tail]
      rfl
    · rw [if_neg hk, if_neg hk]
      exact ih hrest

theorem Distinct.values_of_get? {v : α} (h : Distinct fs) (hget : Fields.get? fs k = some v) :
    values fs k = [v] := by
  rw [h.single k, hget]
  rfl

@[simp] theorem without_nil (known : List String) : without ([] : Fields α) known = [] := rfl

theorem put_of_get?_eq_none {v : α} (h : get? fs k = none) : put fs k v = fs ++ [(k, v)] := by
  induction fs with
  | nil => rfl
  | cons m fs ih =>
    rw [get?_eq_none_iff] at h ih
    obtain ⟨hm, hrest⟩ := List.forall_mem_cons.1 h
    rw [put, if_neg hm, ih hrest, List.cons_append]

theorem keys_put (fs : Fields α) (k : String) (v : α) :
    keys (put fs k v) = if k ∈ keys fs then keys fs else keys fs ++ [k] := by
  induction fs with
  | nil => rfl
  | cons m fs ih =>
    change keys (put (m :: fs) k v) =
      if k ∈ m.1 :: keys fs then m.1 :: keys fs else m.1 :: keys fs ++ [k]
    by_cases h : m.1 = k
    · rw [put, if_pos h, if_pos (h ▸ List.mem_cons_self)]
      rfl
    · have htail : keys (put (m :: fs) k v) = m.1 :: keys (put fs k v) := by
        rw [put, if_neg h]
        rfl
      rw [htail, ih]
      by_cases hmem : k ∈ keys fs
      · rw [if_pos hmem, if_pos (List.mem_cons_of_mem _ hmem)]
      · rw [if_neg hmem, if_neg fun hk => hmem (List.mem_of_ne_of_mem (Ne.symm h) hk)]
        rfl

theorem distinct_put (h : Distinct fs) (k : String) (v : α) : Distinct (put fs k v) := by
  rw [Distinct, keys_put]
  split
  · exact h
  · rename_i hnew
    rw [List.nodup_append]
    refine ⟨h, List.pairwise_singleton _ k, fun x hx y hy => ?_⟩
    obtain rfl := List.mem_singleton.1 hy
    exact fun hxk => hnew (hxk ▸ hx)

/-- Mappings with the same names in the same order are told apart by looking up a name. -/
theorem Distinct.ext (hfs : Distinct fs) (hkeys : keys fs = keys gs)
    (hget : ∀ k, Fields.get? fs k = Fields.get? gs k) : fs = gs := by
  induction fs generalizing gs with
  | nil => exact (List.map_eq_nil_iff.1 hkeys.symm).symm
  | cons m fs ih =>
    cases gs with
    | nil => cases hkeys
    | cons n gs =>
      obtain ⟨hname, hrest⟩ := List.cons.inj hkeys
      have hgs : Distinct (n :: gs) := by rwa [Distinct, ← hkeys]
      have hfirst := hget m.1
      rw [get?_cons, get?_cons, if_pos rfl, if_pos hname.symm] at hfirst
      have htail : fs = gs := by
        refine ih (List.nodup_cons.1 hfs).2 hrest fun k => ?_
        by_cases hk : m.1 = k
        · subst hk
          rw [hfs.get?_tail, show m.1 = n.1 from hname, hgs.get?_tail]
        · have hlater := hget k
          rwa [get?_cons, get?_cons, if_neg hk, if_neg fun hn => hk (hname.trans hn)] at hlater
      rw [htail, Prod.ext hname (Option.some.inj hfirst)]

/-- Members with different names stay as they are when they are put one after the other. -/
theorem Distinct.ofList_eq (h : Distinct fs) : ofList fs = fs := by
  have hall : ∀ gs hs : Fields α, Distinct (gs ++ hs) →
      hs.foldl (fun fs m => put fs m.1 m.2) gs = gs ++ hs := by
    intro gs hs
    induction hs generalizing gs with
    | nil => simp
    | cons m hs ih =>
      intro hdistinct
      have hfresh : get? gs m.1 = none := by
        rw [get?_eq_none_iff]
        intro n hn
        rw [Distinct, keys, List.map_append] at hdistinct
        have hapart := (List.nodup_append.1 hdistinct).2.2
        exact hapart n.1 (List.mem_map_of_mem hn) m.1 List.mem_cons_self
      rw [List.foldl_cons, put_of_get?_eq_none hfresh, ih _ (by simpa using hdistinct)]
      simp
  exact hall [] fs h

end Fields

namespace Value

variable {v w : Value} {fs : Fields Value} {items : List Value} {k : String}

theorem wellFormed_of_mem_items (h : WellFormedItems items) (hv : v ∈ items) : v.WellFormed := by
  induction items with
  | nil => cases hv
  | cons w items ih =>
    rcases List.mem_cons.1 hv with rfl | hv
    · exact h.1
    · exact ih h.2 hv

theorem wellFormedItems_append {items' : List Value} (h : WellFormedItems items)
    (h' : WellFormedItems items') : WellFormedItems (items ++ items') := by
  induction items with
  | nil => exact h'
  | cons w items ih => exact ⟨h.1, ih h.2⟩

theorem wellFormed_of_get? (h : WellFormedFields fs) (hv : Fields.get? fs k = some v) :
    v.WellFormed := by
  induction fs with
  | nil => cases hv
  | cons m fs ih =>
    rw [Fields.get?_cons] at hv
    split at hv
    · exact Option.some.inj hv ▸ h.1
    · exact ih h.2 hv

theorem wellFormedFields_iff : WellFormedFields fs ↔ ∀ m ∈ fs, m.2.WellFormed := by
  induction fs with
  | nil => simp [WellFormedFields]
  | cons m fs ih => rw [List.forall_mem_cons, ← ih, WellFormedFields]

theorem wellFormed_mapping_iff :
    (mapping fs).WellFormed ↔
      Fields.Distinct fs ∧ ∀ k w, Fields.get? fs k = some w → w.WellFormed := by
  refine ⟨fun h => ⟨h.1, fun k w => wellFormed_of_get? h.2⟩, fun ⟨hfs, hall⟩ => ⟨hfs, ?_⟩⟩
  exact wellFormedFields_iff.2 fun m hm => hall m.1 m.2 (hfs.get?_of_mem hm)

theorem WellFormed.member? (h : v.WellFormed) (hw : v.member? k = some w) : w.WellFormed := by
  cases v with
  | mapping fs => exact wellFormed_of_get? h.2 hw
  | null | bool _ | number _ | string _ | list _ => cases hw

end Value

namespace Policy

theorem get?_optional (k k' : String) (v : Option Value) :
    Fields.get? (optional k v) k' = if k = k' then v else none := by
  cases v with
  | none => simp [optional]
  | some v => rfl

theorem values_optional (k k' : String) (v : Option Value) :
    Fields.values (optional k v) k' = if k = k' then v.toList else [] := by
  cases v with
  | none => simp [optional]
  | some v => simp [optional, Fields.values_cons]

theorem without_optional {k : String} {known : List String} (v : Option Value) (h : k ∈ known) :
    Fields.without (optional k v) known = [] := by
  cases v with
  | none => rfl
  | some v => simp [optional, Fields.without_cons, h]

end Policy

end GatewayFleet
