import Mathlib.Data.List.Basic
import Mathlib.Logic.Function.Iterate
import GatewayFleet.Layer.Dialect

/-! The rounds that take commas away come to an end, and what they leave is what a single pass
leaves that looks past the commas behind a comma. -/

namespace GatewayFleet.Layer

variable {c : Char} {s : List Char} {scan : Scan}

def closesNext (s : List Char) : Bool :=
  ((s.dropWhile fun c => Text.isBlank c || c = ',').head?.map isCloser).getD false

/-- Drops the commas behind which a bracket closes. -/
def dropCommas : Scan → List Char → List Char
  | _, [] => []
  | scan, c :: rest =>
    if scan = .outside ∧ c = ',' ∧ closesNext rest then dropCommas scan rest
    else c :: dropCommas (scan.next c) rest

theorem closesNext_blank (h : Text.isBlank c = true) (s : List Char) :
    closesNext (c :: s) = closesNext s := by
  simp [closesNext, h]

theorem closesNext_comma (s : List Char) : closesNext (',' :: s) = closesNext s := by
  simp [closesNext]

theorem closesNext_cons (hb : Text.isBlank c = false) (hc : c ≠ ',') (s : List Char) :
    closesNext (c :: s) = isCloser c := by
  simp [closesNext, hb, hc]

theorem bracketNext_blank (h : Text.isBlank c = true) (s : List Char) :
    bracketNext (c :: s) = bracketNext s := by
  simp [bracketNext, h]

theorem bracketNext_cons (h : Text.isBlank c = false) (s : List Char) :
    bracketNext (c :: s) = isCloser c := by
  simp [bracketNext, h]

theorem Scan.inside_ne_outside (quote : Char) : Scan.inside quote ≠ .outside := by
  intro h
  cases h

theorem Scan.escaped_ne_outside (quote : Char) : Scan.escaped quote ≠ .outside := by
  intro h
  cases h

theorem next_of_not_isQuote (h : isQuote c = false) : Scan.outside.next c = .outside := by
  simp [Scan.next, h]

theorem not_isQuote_of_isBlank (h : Text.isBlank c = true) : isQuote c = false := by
  rw [Bool.eq_false_iff]
  intro hq
  simp only [isQuote, Bool.or_eq_true, decide_eq_true_eq] at hq
  rcases hq with rfl | rfl <;> cases h

theorem next_blank (h : Text.isBlank c = true) : Scan.outside.next c = .outside :=
  next_of_not_isQuote (not_isQuote_of_isBlank h)

theorem dropCommas_sublist (scan : Scan) (s : List Char) : (dropCommas scan s).Sublist s := by
  induction s generalizing scan with
  | nil => exact .slnil
  | cons c rest ih =>
    rw [dropCommas]
    split
    · exact (ih scan).cons c
    · exact (ih (scan.next c)).cons_cons c

theorem closesNext_of_bracketNext (h : bracketNext s = true) : closesNext s = true := by
  induction s with
  | nil => cases h
  | cons c rest ih =>
    cases hb : Text.isBlank c with
    | true =>
      rw [bracketNext_blank hb] at h
      rw [closesNext_blank hb]
      exact ih h
    | false =>
      rw [bracketNext_cons hb] at h
      rw [closesNext_cons hb (by rintro rfl; cases h)]
      exact h

theorem closesNext_commaRound (s : List Char) :
    closesNext (commaRound .outside s) = closesNext s := by
  induction s with
  | nil => rfl
  | cons c rest ih =>
    rw [commaRound]
    split
    · rename_i h
      obtain ⟨-, rfl, -⟩ := h
      rw [closesNext_comma]
      exact ih
    · cases hb : Text.isBlank c with
      | true => rw [closesNext_blank hb, closesNext_blank hb, next_blank hb, ih]
      | false =>
        by_cases hc : c = ','
        · subst hc
          rw [closesNext_comma, closesNext_comma, next_of_not_isQuote rfl, ih]
        · rw [closesNext_cons hb hc, closesNext_cons hb hc]

theorem dropCommas_commaRound (scan : Scan) (s : List Char) :
    dropCommas scan (commaRound scan s) = dropCommas scan s := by
  induction s generalizing scan with
  | nil => rfl
  | cons c rest ih =>
    by_cases hround : scan = .outside ∧ c = ',' ∧ bracketNext rest = true
    · obtain ⟨rfl, rfl, hnext⟩ := hround
      rw [commaRound, if_pos ⟨rfl, rfl, hnext⟩, ih, dropCommas,
        if_pos ⟨rfl, rfl, closesNext_of_bracketNext hnext⟩]
    · rw [commaRound, if_neg hround, dropCommas, dropCommas]
      by_cases hcomma : scan = .outside ∧ c = ','
      · obtain ⟨rfl, rfl⟩ := hcomma
        rw [next_of_not_isQuote rfl, closesNext_commaRound, ih]
      · rw [if_neg fun h => hcomma ⟨h.1, h.2.1⟩, if_neg fun h => hcomma ⟨h.1, h.2.1⟩, ih]

theorem bracketNext_of_dropCommas_eq (h : closesNext s = true) (hs : dropCommas .outside s = s) :
    bracketNext s = true := by
  induction s with
  | nil => cases h
  | cons c rest ih =>
    cases hb : Text.isBlank c with
    | true =>
      rw [dropCommas, if_neg (by rintro ⟨-, rfl, -⟩; cases hb), next_blank hb] at hs
      rw [closesNext_blank hb] at h
      rw [bracketNext_blank hb]
      exact ih h (List.cons.inj hs).2
    | false =>
      by_cases hc : c = ','
      · -- The pass would drop this comma.
        subst hc
        rw [closesNext_comma] at h
        rw [dropCommas, if_pos ⟨rfl, rfl, h⟩] at hs
        have hlength := (dropCommas_sublist .outside rest).length_le
        rw [hs, List.length_cons] at hlength
        omega
      · rw [closesNext_cons hb hc] at h
        rw [bracketNext_cons hb]
        exact h

theorem dropCommas_eq_of_commaRound_eq (h : commaRound scan s = s) : dropCommas scan s = s := by
  induction s generalizing scan with
  | nil => rfl
  | cons c rest ih =>
    rw [commaRound] at h
    split at h
    · have hlength := (commaRound_sublist scan rest).length_le
      rw [h, List.length_cons] at hlength
      omega
    · rename_i hround
      have hrest := ih (List.cons.inj h).2
      rw [dropCommas, if_neg, hrest]
      rintro ⟨rfl, rfl, hcloses⟩
      exact hround ⟨rfl, rfl, bracketNext_of_dropCommas_eq hcloses hrest⟩

theorem settleCommas_eq_dropCommas (s : List Char) : settleCommas s = dropCommas .outside s := by
  induction s using settleCommas.induct with
  | case1 s h => rw [settleCommas, if_pos h, dropCommas_eq_of_commaRound_eq h]
  | case2 s h ih => rw [settleCommas, if_neg h, ih, dropCommas_commaRound]

theorem strictChars_eq (s : List Char) : strictChars s =
    quoteKeys (.plain .outside) (dropCommas .outside (stripComments (.text .outside) s)) := by
  rw [strictChars, settleCommas_eq_dropCommas, dropCommas_commaRound]

theorem commaRound_settleCommas (s : List Char) :
    commaRound .outside (settleCommas s) = settleCommas s := by
  induction s using settleCommas.induct with
  | case1 s h => rw [settleCommas, if_pos h, h]
  | case2 s h ih =>
    rw [settleCommas, if_neg h]
    exact ih

/-- What is dropped does not hide what follows from the commas in front of it. -/
theorem closesNext_dropCommas (s : List Char) :
    closesNext (dropCommas .outside s) = closesNext s := by
  rw [← settleCommas_eq_dropCommas]
  induction s using settleCommas.induct with
  | case1 s h => rw [settleCommas, if_pos h]
  | case2 s h ih => rw [settleCommas, if_neg h, ih, closesNext_commaRound]

theorem filter_commaRound (scan : Scan) (s : List Char) :
    (commaRound scan s).filter (· ≠ ',') = s.filter (· ≠ ',') := by
  induction s generalizing scan with
  | nil => rfl
  | cons c rest ih =>
    rw [commaRound]
    split
    · rename_i h
      obtain ⟨-, rfl, -⟩ := h
      exact ih scan
    · rw [List.filter_cons, List.filter_cons, ih]

theorem length_eq_count_add (s : List Char) :
    s.length = s.count ',' + (s.filter (· ≠ ',')).length := by
  rw [List.length_eq_countP_add_countP (· == ','), List.count, ← List.countP_eq_length_filter]
  simp

/-- Every round but the last one drops a comma. -/
theorem exists_rounds (s : List Char) :
    ∃ n ≤ s.count ',', settleCommas s = (commaRound .outside)^[n] s := by
  induction s using settleCommas.induct with
  | case1 s h =>
    rw [settleCommas, if_pos h]
    exact ⟨0, Nat.zero_le _, rfl⟩
  | case2 s h ih =>
    obtain ⟨n, hn, hrounds⟩ := ih
    have hlength := commaRound_length_lt h
    rw [length_eq_count_add, length_eq_count_add s, filter_commaRound] at hlength
    rw [settleCommas, if_neg h]
    exact ⟨n + 1, by omega, hrounds⟩

end GatewayFleet.Layer
