import GatewayFleet.Json.Printer

/-! The compact form of a value is a single line: line breaks inside strings are escaped, and
neither numbers nor punctuation have any. -/

namespace GatewayFleet.Json

def OneLine (s : String) : Prop := '\n' ∉ s.toList

instance (s : String) : Decidable (OneLine s) := inferInstanceAs (Decidable ('\n' ∉ s.toList))

theorem OneLine.append {s r : String} (hs : OneLine s) (hr : OneLine r) : OneLine (s ++ r) := by
  unfold OneLine
  rw [String.toList_append, List.mem_append, not_or]
  exact ⟨hs, hr⟩

theorem oneLine_ofList {cs : List Char} (h : '\n' ∉ cs) : OneLine (String.ofList cs) := by
  unfold OneLine
  rwa [String.toList_ofList]

theorem hexDigit_ne_break : ∀ n < 16, '\n' ≠ hexDigit n := by decide

theorem not_mem_escape (c : Char) : '\n' ∉ escape c := by
  unfold escape
  split
  case h_8 hbreak _ _ =>
    split
    · rename_i hcontrol
      have hhigh := hexDigit_ne_break (c.toNat / 16) (by omega)
      have hlow := hexDigit_ne_break (c.toNat % 16) (by omega)
      simp [hhigh, hlow]
    · rw [List.mem_singleton]
      exact fun h => hbreak h.symm
  all_goals decide

theorem oneLine_quote (s : String) : OneLine (quote s) := by
  apply oneLine_ofList
  simp [not_mem_escape]

theorem not_mem_toDigits (n : Nat) : '\n' ∉ Nat.toDigits 10 n := by
  intro h
  have hdigit := Nat.isDigit_of_mem_toDigits (by decide) (by decide) h
  exact absurd hdigit (by decide)

theorem oneLine_int (n : Int) : OneLine (toString n) := by
  have hnat (m : Nat) : OneLine m.repr := by
    unfold OneLine
    rw [Nat.toList_repr]
    exact not_mem_toDigits m
  rw [Int.toString_eq_repr, Int.repr_eq_if]
  split
  · exact hnat _
  · exact OneLine.append (by decide) (hnat _)

theorem not_mem_zeros (n : Nat) : '\n' ∉ Number.zeros n := by
  intro h
  exact absurd (List.eq_of_mem_replicate h) (by decide)

theorem not_mem_writtenOut {ds : List Char} (hds : '\n' ∉ ds) (point : Int) :
    '\n' ∉ Number.writtenOut ds point := by
  unfold Number.writtenOut
  split
  · simp [not_mem_zeros, hds]
  · dsimp only
    split
    · simp [not_mem_zeros, hds]
    · rw [List.mem_append, List.mem_cons, not_or, not_or]
      exact ⟨fun h => hds (List.mem_of_mem_take h), by decide,
        fun h => hds (List.mem_of_mem_drop h)⟩

theorem not_mem_scientific {ds : List Char} (hds : '\n' ∉ ds) (plus : Bool) (point : Int) :
    '\n' ∉ Number.scientific plus ds point := by
  have hsign : '\n' ∉ (if point - 1 < 0 then ['-'] else if plus then ['+'] else []) := by
    split
    · decide
    · split <;> decide
  unfold Number.scientific
  simp only [List.mem_append, List.mem_cons, not_or]
  refine ⟨⟨?_, by decide, hsign⟩, not_mem_toDigits _⟩
  cases ds with
  | nil => exact List.not_mem_nil
  | cons d rest =>
    rw [List.mem_cons, not_or] at hds
    dsimp only
    split
    · rw [List.mem_singleton]
      exact hds.1
    · simp [hds]

theorem not_mem_decimal (l : Number.Layout) (d : Binary64.Decimal) : '\n' ∉ l.decimal d := by
  have hds := not_mem_toDigits d.digits
  unfold Number.Layout.decimal
  split
  · decide
  · dsimp only
    split
    · exact not_mem_writtenOut hds _
    · exact not_mem_scientific hds _ _

theorem oneLine_number : (n : Number) → OneLine (number n)
  | .int n => oneLine_int n
  | .float x => by
    unfold number
    dsimp only
    split
    · apply oneLine_ofList
      rw [List.mem_append, not_or]
      exact ⟨by split <;> decide, not_mem_decimal _ _⟩
    · decide

mutual

theorem oneLine_compact : (v : Value) → OneLine (compact v)
  | .null => by decide
  | .bool true => by decide
  | .bool false => by decide
  | .number n => oneLine_number n
  | .string s => oneLine_quote s
  | .list items => by
    have hitems := oneLine_compactItems items
    exact (OneLine.append (s := "[") (by decide) hitems).append (by decide)
  | .mapping fields => by
    have hfields := oneLine_compactFields fields
    exact (OneLine.append (s := "\x7b") (by decide) hfields).append (by decide)

theorem oneLine_compactItems : (items : List Value) → OneLine (compactItems items)
  | [] => by decide
  | [v] => oneLine_compact v
  | v :: w :: rest =>
    ((oneLine_compact v).append (by decide)).append (oneLine_compactItems (w :: rest))

theorem oneLine_compactFields :
    (fields : List (String × Value)) → OneLine (compactFields fields)
  | [] => by decide
  | [(k, v)] => ((oneLine_quote k).append (by decide)).append (oneLine_compact v)
  | (k, v) :: m :: rest =>
    ((((oneLine_quote k).append (by decide)).append (oneLine_compact v)).append
      (by decide)).append (oneLine_compactFields (m :: rest))

end

end GatewayFleet.Json
