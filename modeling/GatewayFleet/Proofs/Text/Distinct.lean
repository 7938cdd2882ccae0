import GatewayFleet.Proofs.Text.Trimming

/-! Lists of texts as sets that keep their order. What counts of a text is what is left without
blank characters at its ends. One pass collects such texts, each at its first place, and because
the pass only looks at what is collected, it may be made list by list or over all of them. -/

namespace GatewayFleet.Deduplication

variable {α : Type} [BEq α] [LawfulBEq α]

theorem pairwise_idxOf_eraseDups (ys : List α) :
    ys.eraseDups.Pairwise fun a b => ys.idxOf a < ys.idxOf b := by
  induction ys with
  | nil => exact .nil
  | cons y ys ih =>
    have hne {b : α} (hb : b ∈ ys.eraseDups.filter fun x => !x == y) : y ≠ b := by
      rintro rfl
      simp at hb
    have hlater {b : α} (hb : b ∈ ys.eraseDups.filter fun x => !x == y) :
        (y :: ys).idxOf b = ys.idxOf b + 1 := List.idxOf_cons_ne ys (hne hb)
    rw [List.eraseDups_cons, eraseDups_filter, List.pairwise_cons]
    constructor
    · intro b hb
      rw [List.idxOf_cons_self, hlater hb]
      exact Nat.succ_pos _
    · refine (ih.filter _).imp_of_mem fun ha hb hab => ?_
      rw [hlater ha, hlater hb]
      exact Nat.succ_lt_succ hab

end GatewayFleet.Deduplication

namespace GatewayFleet.Text

variable {xs ys : List String} {s t : String}

structure Trims (s t : String) : Prop where
  cut : ∃ front back, s.toList = front ++ t.toList ++ back ∧
    (∀ c ∈ front, isBlank c = true) ∧ ∀ c ∈ back, isBlank c = true
  head : ∀ c, t.toList.head? = some c → isBlank c = false
  last : ∀ c, t.toList.getLast? = some c → isBlank c = false

theorem dropWhile_isBlank_append {front cs : List Char} (hfront : ∀ c ∈ front, isBlank c = true)
    (hcs : ∀ c, cs.head? = some c → isBlank c = false) :
    (front ++ cs).dropWhile isBlank = cs := by
  rw [List.dropWhile_append_of_pos hfront]
  cases cs with
  | nil => rfl
  | cons c cs => simp [hcs c rfl]

theorem rdropWhile_isBlank_append {back cs : List Char} (hback : ∀ c ∈ back, isBlank c = true)
    (hcs : ∀ c, cs.getLast? = some c → isBlank c = false) :
    (cs ++ back).rdropWhile isBlank = cs := by
  rw [List.rdropWhile, List.reverse_append, dropWhile_isBlank_append, List.reverse_reverse]
  · simpa using hback
  · simpa using hcs

theorem Trims.trim_eq (h : Trims s t) : trim s = t := by
  obtain ⟨front, back, hcut, hfront, hback⟩ := h.cut
  have hdrop : s.toList.dropWhile isBlank = if t = "" then [] else t.toList ++ back := by
    rw [hcut, List.append_assoc]
    split
    · rename_i ht
      simpa [ht] using List.dropWhile_eq_nil_iff.2 (List.forall_mem_append.2 ⟨hfront, hback⟩)
    · rename_i ht
      have hchars : t.toList ≠ [] := by simpa using ht
      refine dropWhile_isBlank_append hfront fun c hc => h.head c ?_
      rwa [List.head?_append_of_ne_nil _ hchars] at hc
  have hchars : trimChars s.toList = t.toList := by
    rw [trimChars_eq, hdrop]
    split
    · rename_i ht
      simp [ht]
    · exact rdropWhile_isBlank_append hback h.last
  rw [trim, hchars, String.ofList_toList]

theorem trims_trim (s : String) : Trims s (trim s) := by
  have hchars : (trim s).toList = (s.toList.dropWhile isBlank).rdropWhile isBlank := by
    rw [trim, String.toList_ofList, trimChars_eq]
  constructor
  · refine ⟨s.toList.takeWhile isBlank, (s.toList.dropWhile isBlank).rtakeWhile isBlank, ?_,
      fun c hc => List.mem_takeWhile_imp hc, fun c hc => List.mem_rtakeWhile_imp hc⟩
    rw [hchars, List.append_assoc, List.rdropWhile_append_rtakeWhile,
      List.takeWhile_append_dropWhile]
  · intro c hc
    -- what is first in the end is first after the front has been cut off
    obtain ⟨back, hback⟩ := List.rdropWhile_prefix isBlank (l := s.toList.dropWhile isBlank)
    have hstop := List.head?_dropWhile_not isBlank s.toList
    rw [← hback, ← hchars, List.head?_append, hc] at hstop
    exact hstop
  · intro c hc
    rw [hchars] at hc
    have hne : (s.toList.dropWhile isBlank).rdropWhile isBlank ≠ [] := by
      intro hnil
      rw [hnil] at hc
      cases hc
    have hstop := List.rdropWhile_last_not isBlank _ hne
    rw [List.getLast?_eq_some_getLast hne, Option.some.injEq] at hc
    rw [← hc]
    exact Bool.eq_false_iff.2 hstop

theorem trims_iff : Trims s t ↔ trim s = t :=
  ⟨Trims.trim_eq, fun h => h ▸ trims_trim s⟩

/-- One step of the pass: the text is collected, unless it is empty or there already. -/
def collect (kept : List String) (s : String) : List String :=
  if trim s = "" ∨ trim s ∈ kept then kept else kept ++ [trim s]

theorem named_cons (s : String) (xs : List String) :
    named (s :: xs) = if trim s = "" then named xs else trim s :: named xs := by
  unfold named
  rw [List.map_cons, List.filter_cons]
  by_cases h : trim s = "" <;> simp [h]

/-- Whatever is collected already, the pass adds the new texts among those that are left. -/
theorem foldl_collect (kept xs : List String) :
    xs.foldl collect kept = kept ++ ((named xs).filter (· ∉ kept)).eraseDups := by
  induction xs generalizing kept with
  | nil => simp [named]
  | cons s xs ih =>
    rw [List.foldl_cons, ih, named_cons]
    by_cases hempty : trim s = ""
    · rw [collect, if_pos (.inl hempty), if_pos hempty]
    · rw [if_neg hempty]
      by_cases hkept : trim s ∈ kept
      · rw [collect, if_pos (.inr hkept), List.filter_cons_of_neg (by simpa using hkept)]
      · have hnew : collect kept s = kept ++ [trim s] := if_neg (not_or.2 ⟨hempty, hkept⟩)
        rw [hnew, List.filter_cons_of_pos (by simpa using hkept), List.eraseDups_cons,
          List.filter_filter, List.append_assoc, List.singleton_append]
        congr 3
        refine List.filter_congr fun x _ => ?_
        by_cases hx : x = trim s <;> simp [hx]

theorem distinct_eq_foldl (xs : List String) : distinct xs = xs.foldl collect [] := by
  rw [foldl_collect, distinct]
  simp [named]

theorem distinct_append (xs ys : List String) :
    distinct (xs ++ ys) = ys.foldl collect (distinct xs) := by
  rw [distinct_eq_foldl, List.foldl_append, ← distinct_eq_foldl]

theorem distinct_prefix_append (xs ys : List String) : distinct xs <+: distinct (xs ++ ys) := by
  rw [distinct_append, foldl_collect]
  exact List.prefix_append _ _

theorem named_append (xs ys : List String) : named (xs ++ ys) = named xs ++ named ys := by
  rw [named, List.map_append, List.filter_append]
  rfl

theorem named_distinct (xs : List String) : named (distinct xs) = distinct xs := by
  have hall : ∀ t ∈ distinct xs, trim t = t ∧ t ≠ "" := fun t ht =>
    trim_of_mem_named (mem_distinct.1 ht)
  have hmap : (distinct xs).map trim = distinct xs :=
    (List.map_congr_left fun t ht => (hall t ht).1).trans (List.map_id _)
  rw [named, hmap, List.filter_eq_self]
  exact fun t ht => by simpa using (hall t ht).2

theorem distinct_distinct (xs : List String) : distinct (distinct xs) = distinct xs := by
  have hnamed := Deduplication.eraseDups_of_nodup (nodup_distinct xs)
  rw [← named_distinct xs] at hnamed
  exact hnamed.trans (named_distinct xs)

theorem distinct_distinct_append (xs ys : List String) :
    distinct (distinct xs ++ ys) = distinct (xs ++ ys) := by
  rw [distinct_append, distinct_distinct, distinct_append]

theorem distinct_append_distinct (xs ys : List String) :
    distinct (xs ++ distinct ys) = distinct (xs ++ ys) := by
  change (named (xs ++ distinct ys)).eraseDups = (named (xs ++ ys)).eraseDups
  rw [named_append, named_append, named_distinct]
  exact Deduplication.eraseDups_append_eraseDups (named xs) (named ys)

theorem distinct_flatMap_distinct (xss : List (List String)) :
    distinct (xss.flatMap distinct) = distinct xss.flatten := by
  induction xss with
  | nil => rfl
  | cons xs xss ih =>
    rw [List.flatMap_cons, List.flatten_cons, distinct_distinct_append,
      ← distinct_append_distinct, ih, distinct_append_distinct]

theorem pairwise_distinct (xs : List String) :
    (distinct xs).Pairwise fun a b => (xs.map trim).idxOf a < (xs.map trim).idxOf b := by
  rw [distinct, Deduplication.eraseDups_filter]
  exact (Deduplication.pairwise_idxOf_eraseDups _).filter _

/-- The distinct texts of a list are the trimmed ones that are not empty, each once and in the order
in which they first occur. That is what one pass collects, and it comes to the same whether texts
that repeat are left out list by list or in the end. -/
theorem distinct_regroups (xs ys : List String) :
    (∀ t, t ∈ distinct xs ↔ t ≠ "" ∧ ∃ s ∈ xs, Trims s t) ∧
      (∀ t ∈ distinct xs, (distinct xs).count t = 1) ∧
      (distinct xs).Pairwise (fun a b => (xs.map trim).idxOf a < (xs.map trim).idxOf b) ∧
      distinct xs = xs.foldl collect [] ∧
      distinct (distinct xs) = distinct xs ∧
      distinct (distinct xs ++ ys) = distinct (xs ++ ys) ∧
      distinct (xs ++ distinct ys) = distinct (xs ++ ys) ∧
      distinct xs <+: distinct (xs ++ ys) ∧
      ∀ xss, distinct (List.flatMap distinct xss) = distinct xss.flatten := by
  refine ⟨fun t => ?_, fun t ht => List.count_eq_one_of_mem (nodup_distinct xs) ht,
    pairwise_distinct xs, distinct_eq_foldl xs, distinct_distinct xs,
    distinct_distinct_append xs ys, distinct_append_distinct xs ys, distinct_prefix_append xs ys,
    distinct_flatMap_distinct⟩
  simp only [mem_distinct, named, List.mem_filter, List.mem_map, trims_iff, decide_eq_true_eq,
    and_comm]

example : distinct [" b", "a", "", "b\u00a0", "a"] = ["b", "a"] := by decide

end GatewayFleet.Text
