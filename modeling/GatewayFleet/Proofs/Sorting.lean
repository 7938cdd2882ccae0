import GatewayFleet.Fleet.Record

/-! Members in the order of their names. Inserting a member keeps the order, and members that are
in order stay as they are when they are sorted again. -/

namespace GatewayFleet

namespace Fields

variable {α : Type} {fs : Fields α} {k : String} {v : α}

theorem sorted_cons_iff {m : String × α} :
    Sorted (m :: fs) ↔ (∀ n ∈ fs, m.1 < n.1) ∧ Sorted fs := by
  simp [Sorted, keys]

theorem Sorted.distinct (h : Sorted fs) : Distinct fs :=
  List.Pairwise.imp (fun {a b} (hlt : a < b) (heq : a = b) => String.lt_irrefl b (heq ▸ hlt)) h

theorem mem_insert {m : String × α} (h : m ∈ insert fs k v) : m = (k, v) ∨ m ∈ fs := by
  induction fs with
  | nil => simpa [insert] using h
  | cons n fs ih =>
    unfold insert at h
    split at h
    · rename_i heq
      rcases List.mem_cons.1 h with rfl | h
      · exact .inl (by rw [heq])
      · exact .inr (List.mem_cons_of_mem _ h)
    · split at h
      · exact List.mem_cons.1 h
      · rcases List.mem_cons.1 h with rfl | h
        · exact .inr List.mem_cons_self
        · exact (ih h).imp id (List.mem_cons_of_mem _)

theorem sorted_insert (h : Sorted fs) (k : String) (v : α) : Sorted (insert fs k v) := by
  induction fs with
  | nil => simp [insert, Sorted, keys]
  | cons n fs ih =>
    obtain ⟨hn, hfs⟩ := sorted_cons_iff.1 h
    unfold insert
    split
    · exact sorted_cons_iff.2 ⟨hn, hfs⟩
    · rename_i hne
      split
      · rename_i hlt
        refine sorted_cons_iff.2 ⟨?_, h⟩
        intro m hm
        rcases List.mem_cons.1 hm with rfl | hm
        · exact hlt
        · exact String.lt_trans hlt (hn m hm)
      · rename_i hnlt
        refine sorted_cons_iff.2 ⟨?_, ih hfs⟩
        intro m hm
        rcases mem_insert hm with rfl | hm
        · exact Decidable.byContradiction fun hnlt' =>
            hne (String.le_antisymm (String.not_lt.1 hnlt) (String.not_lt.1 hnlt'))
        · exact hn m hm

theorem sorted_insertNew (h : Sorted fs) (k : String) (v : α) : Sorted (insertNew fs k v) := by
  unfold insertNew
  split
  · exact h
  · exact sorted_insert h k v

/-- A member whose name comes after all others goes to the end. -/
theorem insert_eq_concat (h : ∀ m ∈ fs, m.1 < k) (v : α) : insert fs k v = fs ++ [(k, v)] := by
  induction fs with
  | nil => rfl
  | cons n fs ih =>
    obtain ⟨hn, hfs⟩ := List.forall_mem_cons.1 h
    have hne : n.1 ≠ k := fun heq => String.lt_irrefl k (heq ▸ hn)
    rw [insert, if_neg hne, if_neg (String.lt_asymm hn), ih hfs]
    rfl

end Fields

namespace Fleet

open Fields (Sorted)

variable {α : Type} {fs : Fields α}

theorem sorted_foldl_insert {acc : Fields α} (h : Sorted acc) (fs : Fields α) :
    Sorted (fs.foldl (fun sorted m => Fields.insert sorted m.1 m.2) acc) := by
  induction fs generalizing acc with
  | nil => exact h
  | cons m fs ih => exact ih (Fields.sorted_insert h m.1 m.2)

theorem sorted_sortFields (fs : Fields α) : Sorted (sortFields fs) :=
  sorted_foldl_insert (show Sorted [] from List.Pairwise.nil) fs

theorem mem_foldl_insert {acc : Fields α} {m : String × α}
    (h : m ∈ fs.foldl (fun sorted m => Fields.insert sorted m.1 m.2) acc) : m ∈ acc ∨ m ∈ fs := by
  induction fs generalizing acc with
  | nil => exact .inl h
  | cons n fs ih =>
    rcases ih h with hacc | hfs
    · rcases Fields.mem_insert hacc with rfl | hacc
      · exact .inr List.mem_cons_self
      · exact .inl hacc
    · exact .inr (List.mem_cons_of_mem _ hfs)

theorem mem_sortFields {m : String × α} (h : m ∈ sortFields fs) : m ∈ fs :=
  (mem_foldl_insert h).resolve_left List.not_mem_nil

theorem foldl_insert_of_sorted {acc : Fields α} (h : Sorted (acc ++ fs)) :
    fs.foldl (fun sorted m => Fields.insert sorted m.1 m.2) acc = acc ++ fs := by
  induction fs generalizing acc with
  | nil => simp
  | cons m fs ih =>
    have hlast : ∀ n ∈ acc, n.1 < m.1 := by
      intro n hn
      have hpairs : (acc ++ m :: fs).Pairwise fun a b => a.1 < b.1 := List.pairwise_map.1 h
      exact (List.pairwise_append.1 hpairs).2.2 n hn m List.mem_cons_self
    rw [List.append_cons] at h ⊢
    rw [List.foldl_cons, Fields.insert_eq_concat hlast]
    exact ih h

theorem sortFields_of_sorted (h : Sorted fs) : sortFields fs = fs := foldl_insert_of_sorted h

end Fleet

end GatewayFleet
