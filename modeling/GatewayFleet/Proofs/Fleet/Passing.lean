import GatewayFleet.Fleet.Field

/-! Readings that pass. A reading passes with a value when it finds that value and no issue, which
is to say that it is `pure`. A reading made of steps passes exactly when its steps pass in turn, and
what a member of a mapping has to look like for its reader to pass does not depend on the place
where the mapping stands. -/

namespace GatewayFleet.Fleet

open Policy (Fragment)

namespace Checked

variable {α β : Type}

theorem eq_pure_iff {x : Checked α} {a : α} : x = pure a ↔ x.issues = [] ∧ x.value = a := by
  constructor
  · intro h
    rw [h]
    exact ⟨rfl, rfl⟩
  · intro h
    cases x
    obtain ⟨rfl, rfl⟩ := h
    rfl

@[simp] theorem pure_eq_pure_iff {a b : α} : (pure a : Checked α) = pure b ↔ a = b := by
  simp [eq_pure_iff]

@[simp] theorem bind_eq_pure_iff {x : Checked α} {f : α → Checked β} {b : β} :
    x >>= f = pure b ↔ ∃ a, x = pure a ∧ f a = pure b := by
  constructor
  · intro h
    have hparts := eq_pure_iff.1 h
    simp only [issues_bind, value_bind, List.append_eq_nil_iff] at hparts
    exact ⟨x.value, eq_pure_iff.2 ⟨hparts.1.1, rfl⟩, eq_pure_iff.2 ⟨hparts.1.2, hparts.2⟩⟩
  · intro h
    obtain ⟨a, hx, hf⟩ := h
    rw [hx, pure_bind, hf]

@[simp] theorem map_eq_pure_iff {x : Checked α} {f : α → β} {b : β} :
    f <$> x = pure b ↔ ∃ a, x = pure a ∧ f a = b := by
  rw [← bind_pure_comp]
  simp only [bind_eq_pure_iff, pure_eq_pure_iff]

@[simp] theorem faulty_ne_pure {place : Place} {problem : Problem} {a b : α} :
    ¬ faulty place problem a = pure b := by
  simp [faulty, eq_pure_iff]

@[simp] theorem report_ne_pure {i : Issue} {u : Unit} : ¬ report i = pure u := by
  simp [report, eq_pure_iff]

theorem mk_eq_pure_iff {issues : List Issue} {a b : α} :
    (⟨issues, a⟩ : Checked α) = pure b ↔ issues = [] ∧ a = b := eq_pure_iff

end Checked

/-- A member that may be left out or null, and otherwise stands in the relation. -/
inductive Optional {α : Type} (R : Value → α → Prop) : Option Value → Option α → Prop
  | absent : Optional R none none
  | null : Optional R (some .null) none
  | given {v : Value} {a : α} : R v a → Optional R (some v) (some a)

def IsText (v : Value) (t : String) : Prop := Section.filled? (some v) = some t

def IsTexts (v : Value) (xs : List String) : Prop := v = .ofStrings xs

def IsMapping (v : Value) (fs : Fields Value) : Prop := v = .mapping fs

def IsFragment (v : Value) (f : Fragment) : Prop := Fragment.ofValue? v = .ok f

namespace Section

variable {s : Section} {k : String}

theorem filled?_eq_some_iff {v : Option Value} {t : String} :
    filled? v = some t ↔ v = some (.string t) ∧ Text.isAllBlank t = false := by
  unfold filled?
  split
  · rename_i u
    cases hu : Text.isAllBlank u with
    | true =>
      simp only [if_true, reduceCtorEq, Option.some.injEq, Value.string.injEq, false_iff, not_and]
      intro h
      simp [← h, hu]
    | false =>
      simp only [Bool.false_eq_true, if_false, Option.some.injEq, Value.string.injEq]
      constructor
      · intro h
        exact ⟨h, h ▸ hu⟩
      · exact And.left
  · rename_i hv
    simp only [reduceCtorEq, false_iff, not_and]
    intro h
    exact absurd h (hv t)

theorem string_eq_pure_iff {r : Option String} :
    s.string k = pure r ↔ ∃ t, r = some t ∧ filled? (s.get? k) = some t := by
  unfold string
  cases filled? (s.get? k) with
  | none => simp
  | some t => simp [eq_comm]

theorem mapping_eq_pure_iff {r : Option (Fields Value)} :
    s.mapping k = pure r ↔ ∃ fs, r = some fs ∧ s.get? k = some (.mapping fs) := by
  unfold mapping
  split
  · rename_i fs h
    simp [h, eq_comm]
  · rename_i h
    simp only [Checked.faulty_ne_pure, false_iff, not_exists, not_and]
    intro fs _
    exact h fs

theorem optionalMapping_eq_pure_iff {r : Option (Fields Value)} :
    s.optionalMapping k = pure r ↔ Optional IsMapping (s.get? k) r := by
  unfold optionalMapping
  generalize s.get? k = v
  constructor
  · intro h
    split at h <;> simp only [Checked.pure_eq_pure_iff, Checked.faulty_ne_pure] at h
    · exact h ▸ .absent
    · exact h ▸ .null
    · exact h ▸ .given rfl
  · intro h
    cases h with
    | absent | null => rfl
    | given h => rw [h]

theorem optionalString_eq_pure_iff {r : Option String} :
    s.optionalString k = pure r ↔ Optional IsText (s.get? k) r := by
  unfold optionalString
  generalize s.get? k = v
  constructor
  · intro h
    split at h
    · exact Checked.pure_eq_pure_iff.1 h ▸ .absent
    · exact Checked.pure_eq_pure_iff.1 h ▸ .null
    · split at h
      · rename_i t ht
        exact Checked.pure_eq_pure_iff.1 h ▸ .given ht
      · exact absurd h Checked.faulty_ne_pure
  · intro h
    cases h with
    | absent | null => rfl
    | @given v t h =>
      obtain rfl := Option.some.inj (filled?_eq_some_iff.1 h).1
      have hfilled : filled? (some (.string t)) = some t := h
      simp only [hfilled]

theorem texts_eq_pure_iff {place : Place} {problem : Value → Problem} {i : Nat}
    {items : List Value} {xs : List String} :
    texts place problem i items = pure xs ↔ items = xs.map .string := by
  induction items generalizing i xs with
  | nil => simp [texts]
  | cons item items ih =>
    cases item with
    | string t =>
      simp only [texts, Checked.bind_eq_pure_iff, ih, Checked.pure_eq_pure_iff]
      constructor
      · intro h
        obtain ⟨ys, rfl, rfl⟩ := h
        rfl
      · intro h
        obtain ⟨x, ys, rfl, hx, rfl⟩ := List.map_eq_cons_iff.1 h.symm
        cases hx
        exact ⟨ys, rfl, rfl⟩
    | null | bool _ | number _ | list _ | mapping _ =>
      simp only [texts, Checked.bind_eq_pure_iff, Checked.report_ne_pure, false_and, exists_false,
        false_iff]
      cases xs <;> simp

theorem optionalStrings_eq_pure_iff {r : Option (List String)} :
    s.optionalStrings k = pure r ↔ Optional IsTexts (s.get? k) r := by
  unfold optionalStrings
  generalize s.get? k = v
  constructor
  · intro h
    split at h
    · exact Checked.pure_eq_pure_iff.1 h ▸ .absent
    · exact Checked.pure_eq_pure_iff.1 h ▸ .null
    · simp only [Checked.bind_eq_pure_iff, texts_eq_pure_iff, Checked.pure_eq_pure_iff] at h
      obtain ⟨xs, rfl, rfl⟩ := h
      exact .given rfl
    · exact absurd h Checked.faulty_ne_pure
  · intro h
    cases h with
    | absent | null => rfl
    | @given v xs h =>
      obtain rfl : v = .list (xs.map .string) := h
      simp [texts_eq_pure_iff]

theorem strings_eq_pure_iff {xs : List String} :
    s.strings k = pure xs ↔ ∃ r, Optional IsTexts (s.get? k) r ∧ r.getD [] = xs := by
  simp [strings, optionalStrings_eq_pure_iff]

theorem policy_eq_pure_iff {r : Option Fragment} :
    s.policy k = pure r ↔ Optional IsFragment (s.get? k) r := by
  simp only [policy, Checked.bind_eq_pure_iff, optionalMapping_eq_pure_iff]
  generalize s.get? k = v
  constructor
  · intro h
    obtain ⟨m, hm, h⟩ := h
    cases hm with
    | absent => exact Checked.pure_eq_pure_iff.1 h ▸ .absent
    | null => exact Checked.pure_eq_pure_iff.1 h ▸ .null
    | @given v fs hv =>
      obtain rfl : v = .mapping fs := hv
      simp only at h
      split at h
      · rename_i f hf
        exact Checked.pure_eq_pure_iff.1 h ▸ .given hf
      · exact absurd h Checked.faulty_ne_pure
  · intro h
    cases h with
    | absent => exact ⟨none, .absent, rfl⟩
    | null => exact ⟨none, .null, rfl⟩
    | @given v f hf =>
      cases v with
      | mapping fs =>
        refine ⟨some fs, .given rfl, ?_⟩
        simp only
        rw [show Fragment.ofFields? fs = .ok f from hf]
      | null | bool _ | number _ | string _ | list _ => cases hf

end Section

end GatewayFleet.Fleet
