import Mathlib.Data.List.Nodup

/-! Lists without what they repeat. Of equal items the first one is kept, so it makes no difference
whether repetitions are left out before lists are joined or afterwards. -/

namespace GatewayFleet.Deduplication

variable {α : Type} [BEq α]

variable [LawfulBEq α]

theorem nodup_eraseDups (ys : List α) : ys.eraseDups.Nodup := by
  match ys with
  | [] => simp
  | y :: ys =>
    rw [List.eraseDups_cons, List.nodup_cons]
    constructor
    · intro hmem
      have hkept := List.mem_eraseDups.1 hmem
      simp at hkept
    · exact nodup_eraseDups _
termination_by ys.length
decreasing_by exact Nat.lt_succ_of_le (List.length_filter_le _ _)

theorem eraseDups_of_nodup {ys : List α} (h : ys.Nodup) : ys.eraseDups = ys := by
  induction ys with
  | nil => rfl
  | cons y ys ih =>
    obtain ⟨hy, hys⟩ := List.nodup_cons.1 h
    have hkept : ys.filter (fun x => !x == y) = ys := by
      refine List.filter_eq_self.2 fun x hx => ?_
      have hne : x ≠ y := fun hxy => hy (hxy ▸ hx)
      simpa using hne
    rw [List.eraseDups_cons, hkept, ih hys]

theorem eraseDups_filter (p : α → Bool) (ys : List α) :
    (ys.filter p).eraseDups = ys.eraseDups.filter p := by
  match ys with
  | [] => rfl
  | y :: ys =>
    have hrest := eraseDups_filter p (ys.filter fun x => !x == y)
    rw [List.eraseDups_cons]
    by_cases hy : p y = true
    · rw [List.filter_cons_of_pos hy, List.filter_cons_of_pos hy, List.eraseDups_cons, ← hrest,
        List.filter_filter, List.filter_filter]
      simp only [Bool.and_comm]
    · rw [List.filter_cons_of_neg hy, List.filter_cons_of_neg hy, ← hrest, List.filter_filter]
      congr 1
      refine List.filter_congr fun x _ => ?_
      cases hx : p x with
      | false => rfl
      | true =>
        have hne : x ≠ y := by
          rintro rfl
          exact hy hx
        simpa using hne
termination_by ys.length
decreasing_by exact Nat.lt_succ_of_le (List.length_filter_le _ _)

theorem eraseDups_append_eraseDups (xs ys : List α) :
    (xs ++ ys.eraseDups).eraseDups = (xs ++ ys).eraseDups := by
  rw [List.eraseDups_append, List.eraseDups_append, List.removeAll, List.removeAll,
    eraseDups_filter, eraseDups_filter, eraseDups_of_nodup (nodup_eraseDups ys)]

theorem eraseDups_eraseDups_append (xs ys : List α) :
    (xs.eraseDups ++ ys).eraseDups = (xs ++ ys).eraseDups := by
  have hmem (x : α) : x ∈ xs.eraseDups ↔ x ∈ xs := List.mem_eraseDups
  rw [List.eraseDups_append, List.eraseDups_append, eraseDups_of_nodup (nodup_eraseDups xs)]
  simp only [List.removeAll, List.elem_eq_mem, hmem]

end GatewayFleet.Deduplication
