import Mathlib.Data.List.DropRight
import GatewayFleet.Proofs.Deduplication
import GatewayFleet.Text.Blank

/-! Trimmed texts. A trimmed text that is not empty has something in it besides blank characters,
and the distinct ones of a list are those that are named in it, each once and in order. -/

namespace GatewayFleet.Text

variable {xs : List String} {t : String}

theorem isAllBlank_trim (h : trim t ≠ "") : isAllBlank (trim t) = false := by
  have hchars : (t.toList.dropWhile isBlank).reverse.dropWhile isBlank ≠ [] := by
    intro hnil
    apply h
    rw [trim, trimChars, hnil]
    rfl
  have hhead := List.head_dropWhile_not isBlank hchars
  have hmem := List.head_mem hchars
  rw [isAllBlank, trim, String.toList_ofList, List.all_eq_false]
  exact ⟨_, List.mem_reverse.2 hmem, by simp [hhead]⟩

theorem trimChars_eq (cs : List Char) :
    trimChars cs = (cs.dropWhile isBlank).rdropWhile isBlank := rfl

theorem trim_trim (s : String) : trim (trim s) = trim s := by
  have hfront : (trimChars s.toList).dropWhile isBlank = trimChars s.toList := by
    rw [List.dropWhile_eq_self_iff]
    intro hlength
    -- what is left at the front is what the first pass has stopped at
    have hprefix := List.rdropWhile_prefix isBlank (l := s.toList.dropWhile isBlank)
    rw [← trimChars_eq] at hprefix
    have hstop := List.dropWhile_get_zero_not isBlank s.toList (hlength.trans_le hprefix.length_le)
    have hhead := hprefix.getElem hlength
    simpa [hhead] using hstop
  rw [trim, trim, String.toList_ofList, trimChars_eq (trimChars _), hfront, trimChars_eq,
    List.rdropWhile_idempotent]

/-- The trimmed texts that are not empty, as often as they occur. -/
def named (xs : List String) : List String := (xs.map trim).filter (· ≠ "")

theorem mem_named_of_mem (hmem : t ∈ xs) (htrim : trim t = t) (hne : t ≠ "") : t ∈ named xs :=
  List.mem_filter.2 ⟨List.mem_map.2 ⟨t, hmem, htrim⟩, by simpa using hne⟩

theorem trim_of_mem_named (h : t ∈ named xs) : trim t = t ∧ t ≠ "" := by
  obtain ⟨hmem, hne⟩ := List.mem_filter.1 h
  obtain ⟨s, -, rfl⟩ := List.mem_map.1 hmem
  exact ⟨trim_trim s, of_decide_eq_true hne⟩

theorem mem_distinct : t ∈ distinct xs ↔ t ∈ named xs := List.mem_eraseDups

theorem nodup_distinct (xs : List String) : (distinct xs).Nodup := Deduplication.nodup_eraseDups _

theorem distinct_eq_nil_iff : distinct xs = [] ↔ named xs = [] := by
  simp only [List.eq_nil_iff_forall_not_mem, mem_distinct]

end GatewayFleet.Text
