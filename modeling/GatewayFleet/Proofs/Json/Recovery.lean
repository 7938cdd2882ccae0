import GatewayFleet.Json.Printer
import GatewayFleet.Proofs.Json.Acceptance
import GatewayFleet.Proofs.Members

/-! What is printed is read back. Escapes undo themselves character by character, digits spell the
number they came from, and the punctuation between items and members is what the readers look for.
Doubles are left out, and so are integers beyond 64 bits. -/

namespace GatewayFleet.Json

variable {d : Nat} {v : Value} {items : List Value} {fields : Fields Value} {t : List Char}

theorem hexValue?_hexDigit : ∀ n < 16, hexValue? (hexDigit n) = some n := by decide

theorem readHex_control {n : Nat} (h : n < 0x20) (t : List Char) :
    readHex ('0' :: '0' :: hexDigit (n / 16) :: hexDigit (n % 16) :: t) = .ok (n, t) := by
  have hzero : hexValue? '0' = some 0 := rfl
  have hhigh := hexValue?_hexDigit (n / 16) (by omega)
  have hlow := hexValue?_hexDigit (n % 16) (by omega)
  have hsum : ((0 * 16 + 0) * 16 + n / 16) * 16 + n % 16 = n := by omega
  simp only [readHex, hzero, hhigh, hlow, hsum]

theorem readEscape_control {c : Char} (h : c.toNat < 0x20) (t : List Char) :
    readEscape ('u' :: '0' :: '0' :: hexDigit (c.toNat / 16) :: hexDigit (c.toNat % 16) :: t) =
      .ok (c, t) := by
  have hread := readUnicode_single (readHex_control h t) (by omega) (by omega)
  rw [Char.ofNat_toNat] at hread
  exact hread

theorem readString_escape_append (c : Char) (t : List Char) :
    readString (escape c ++ t) = (readString t).map fun (cs, rest) => (c :: cs, rest) := by
  unfold escape
  split
  case h_8 hquote hback _ _ _ _ _ =>
    split
    · rename_i hcontrol
      exact readString_escape (readEscape_control hcontrol t)
    · rename_i hprinted
      rw [List.singleton_append, readString.eq_4 _ _ hquote hback, if_neg hprinted]
  all_goals exact readString_escape rfl

theorem readString_escaped (cs t : List Char) :
    readString (cs.flatMap escape ++ '"' :: t) = .ok (cs, t) := by
  induction cs with
  | nil => simp [readString]
  | cons c cs ih =>
    rw [List.flatMap_cons, List.append_assoc, readString_escape_append, ih]
    rfl

theorem toList_quote (s : String) :
    (quote s).toList = '"' :: (s.toList.flatMap escape ++ ['"']) := by
  rw [quote, String.toList_ofList, List.cons_append]

theorem quote_append (s : String) (t : List Char) :
    (quote s).toList ++ t = '"' :: (s.toList.flatMap escape ++ '"' :: t) := by
  rw [toList_quote, List.cons_append, List.append_assoc]
  rfl

theorem le_ofDigitChars (ds : List Char) (n : Nat) : n ≤ Nat.ofDigitChars 10 ds n := by
  induction ds generalizing n with
  | nil => exact Nat.le_refl n
  | cons c ds ih =>
    rw [Nat.ofDigitChars_cons]
    exact Nat.le_trans (by omega) (ih _)

theorem absorb_eq {ds : List Char} {n : Nat} (h : Nat.ofDigitChars 10 ds n ≤ maxUnsigned) :
    absorb n ds = (Nat.ofDigitChars 10 ds n, []) := by
  induction ds generalizing n with
  | nil => rfl
  | cons c ds ih =>
    have hcons : Nat.ofDigitChars 10 (c :: ds) n =
        Nat.ofDigitChars 10 ds (n * 10 + digitValue c) := by
      rw [Nat.ofDigitChars_cons, Nat.mul_comm]
      rfl
    rw [hcons] at h ⊢
    have hfits : ¬ maxUnsigned < n * 10 + digitValue c :=
      Nat.not_lt.2 (Nat.le_trans (le_ofDigitChars ds _) h)
    rw [absorb, if_neg hfits, ih h]

theorem head_toDigits_ne_zero {n : Nat} (h : n ≠ 0) : (Nat.toDigits 10 n).head? ≠ some '0' := by
  induction n using Nat.strongRecOn with
  | _ n ih =>
    rw [Nat.toDigits_eq_if (by decide)]
    split
    · have hsmall : ∀ n < 10, n ≠ 0 → [Nat.digitChar n].head? ≠ some '0' := by decide
      exact hsmall n (by assumption) h
    · rw [List.head?_append_of_ne_nil _ Nat.toDigits_ne_nil]
      exact ih (n / 10) (by omega) (by omega)

theorem leading_toDigits (n : Nat) : Leading (Nat.toDigits 10 n) := by
  obtain ⟨c, r, heq⟩ := List.exists_cons_of_ne_nil (Nat.toDigits_ne_nil (n := n) (b := 10))
  refine ⟨c, r, heq, fun _ hd => Nat.isDigit_of_mem_toDigits (by decide) (by decide) hd, ?_⟩
  rintro rfl
  by_cases hn : n = 0
  · subst hn
    exact (List.cons.inj (heq.symm.trans (Nat.toDigits_zero 10))).2
  · exact absurd (by rw [heq]; rfl) (head_toDigits_ne_zero hn)

theorem readNumber_toDigits {n : Nat} (negative : Bool) (hn : n ≤ maxUnsigned)
    (ht : goesOn t = false) :
    readNumber negative (Nat.toDigits 10 n ++ t) = .ok (integer negative n, t) := by
  have hvalue := Nat.ofDigitChars_ten_toDigits (n := n)
  have habsorb := absorb_eq (hvalue.symm ▸ hn)
  rw [hvalue] at habsorb
  rw [readNumber_append (leading_toDigits n) (takeWhile_isDigit_eq_nil ht), numberOf, habsorb,
    readFractionOrExponent_eq_none ht]
  rfl

/-- The value is read back from its compact form, in front of any text that ends it. -/
structure ReadsBack (d : Nat) (v : Value) : Prop where
  read : ∀ t, goesOn t = false → readValue d ((compact v).toList ++ t) = .ok (v, t)
  begins : ∃ c r, (compact v).toList = c :: r ∧ isSpace c = false ∧ c ≠ ']'

theorem skipSpace_quote (s : String) (t : List Char) :
    skipSpace ((quote s).toList ++ t) = '"' :: (s.toList.flatMap escape ++ '"' :: t) := by
  rw [quote_append]
  exact skipSpace_cons rfl _

theorem readsBack_null (d : Nat) : ReadsBack d .null where
  read t _ := by
    have hs : skipSpace ((compact .null).toList ++ t) = 'n' :: (['u', 'l', 'l'] ++ t) :=
      skipSpace_cons rfl _
    rw [readValue_null hs, readWord_append]
    rfl
  begins := ⟨'n', _, rfl, rfl, by decide⟩

theorem readsBack_bool (d : Nat) : (b : Bool) → ReadsBack d (.bool b)
  | true => {
    read := fun t _ => by
      have hs : skipSpace ((compact (.bool true)).toList ++ t) = 't' :: (['r', 'u', 'e'] ++ t) :=
        skipSpace_cons rfl _
      rw [readValue_true hs, readWord_append]
      rfl
    begins := ⟨'t', _, rfl, rfl, by decide⟩ }
  | false => {
    read := fun t _ => by
      have hs : skipSpace ((compact (.bool false)).toList ++ t) =
          'f' :: (['a', 'l', 's', 'e'] ++ t) := skipSpace_cons rfl _
      rw [readValue_false hs, readWord_append]
      rfl
    begins := ⟨'f', _, rfl, rfl, by decide⟩ }

theorem readsBack_string (d : Nat) (s : String) : ReadsBack d (.string s) where
  read t _ := by
    rw [compact, readValue_quoted (skipSpace_quote s t), readString_escaped]
    simp only [Except.map, String.ofList_toList]
  begins := ⟨'"', _, toList_quote s, rfl, by decide⟩

theorem toList_compact_nat (n : Nat) :
    (compact (.number (.int n))).toList = Nat.toDigits 10 n := by
  rw [compact, number, Int.toString_eq_repr, Int.repr_eq_if, if_pos (Int.natCast_nonneg n),
    Int.toNat_natCast, Nat.toList_repr]

theorem readsBack_nat {n : Nat} (d : Nat) (h : n ≤ maxUnsigned) :
    ReadsBack d (.number (.int n)) := by
  have htext := toList_compact_nat n
  obtain ⟨c, r, heq, hdigits, -⟩ := leading_toDigits n
  have hc : c.isDigit = true := hdigits c (heq ▸ List.mem_cons_self)
  have hspace := not_isSpace_of_isBare (isBare_of_isDigit hc)
  refine ⟨fun t ht => ?_, c, r, htext.trans heq, hspace, ?_⟩
  · have hs : skipSpace (Nat.toDigits 10 n ++ t) = c :: (r ++ t) := by
      rw [heq, List.cons_append]
      exact skipSpace_cons hspace _
    rw [htext, readValue_digit hs hc, ← List.cons_append, ← heq, readNumber_toDigits false h ht]
    rfl
  · rintro rfl
    cases hc

theorem readsBack_negative {n : Nat} (d : Nat) (hpos : 0 < n) (h : n ≤ 0x8000000000000000) :
    ReadsBack d (.number (.int (-n))) := by
  have htext : (compact (.number (.int (-n)))).toList = '-' :: Nat.toDigits 10 n := by
    rw [compact, number, Int.toString_eq_repr, Int.repr_eq_if, if_neg (by omega),
      String.toList_append, Nat.toList_repr, Int.neg_neg, Int.toNat_natCast]
    rfl
  refine ⟨fun t ht => ?_, '-', _, htext, rfl, by decide⟩
  have hs : skipSpace ('-' :: (Nat.toDigits 10 n ++ t)) = '-' :: (Nat.toDigits 10 n ++ t) :=
    skipSpace_cons rfl _
  have hfits : n ≤ maxUnsigned := Nat.le_trans h (by decide)
  rw [htext, List.cons_append, readValue_negative hs, readNumber_toDigits true hfits ht, integer,
    if_neg nofun, if_pos ⟨hpos, h⟩]
  rfl

theorem readItems_compact {items : List Value} (hne : items ≠ [])
    (h : ∀ v ∈ items, ReadsBack d v) (t : List Char) :
    readItems d ((compactItems items).toList ++ ']' :: t) = .ok (items, t) := by
  induction items with
  | nil => exact absurd rfl hne
  | cons v rest ih =>
    have hv := (h v List.mem_cons_self).read
    cases rest with
    | nil => exact readItems_last (hv (']' :: t) rfl) (skipSpace_cons rfl _)
    | cons w rest =>
      have hrest : ∀ x ∈ w :: rest, ReadsBack d x := fun x hx => h x (List.mem_cons_of_mem v hx)
      have htext : (compactItems (v :: w :: rest)).toList ++ ']' :: t =
          (compact v).toList ++ ',' :: ((compactItems (w :: rest)).toList ++ ']' :: t) := by
        simp [compactItems]
      -- the next item begins where the comma ends
      obtain ⟨c, r, hbegins, hspace, hclose⟩ := (hrest w List.mem_cons_self).begins
      obtain ⟨u, hnext⟩ : ∃ u, (compactItems (w :: rest)).toList ++ ']' :: t = c :: u := by
        cases rest <;> simp [compactItems, hbegins]
      have hlist := ih (List.cons_ne_nil w rest) hrest
      rw [hnext] at htext hlist
      rw [htext, readItems_item (hv _ rfl) (skipSpace_cons rfl _) (skipSpace_cons hspace u) hclose
        (by simp; omega), hlist]
      rfl

theorem readMembers_compact (hne : fields ≠ []) (h : ∀ m ∈ fields, ReadsBack d m.2)
    (t : List Char) :
    readMembers d ((compactFields fields).toList ++ '}' :: t) = .ok (fields, t) := by
  induction fields with
  | nil => exact absurd rfl hne
  | cons m rest ih =>
    obtain ⟨k, v⟩ := m
    have hv := (h (k, v) List.mem_cons_self).read
    cases rest with
    | nil =>
      have htext : (compactFields [(k, v)]).toList ++ '}' :: t =
          (quote k).toList ++ ':' :: ((compact v).toList ++ '}' :: t) := by
        simp [compactFields]
      rw [htext, readMembers_last (skipSpace_quote k _) (readString_escaped _ _)
        (skipSpace_cons rfl _) (by simp; omega) (hv _ rfl) (skipSpace_cons rfl _),
        String.ofList_toList]
    | cons m rest =>
      have hrest : ∀ x ∈ m :: rest, ReadsBack d x.2 := fun x hx => h x (List.mem_cons_of_mem _ hx)
      have htext : (compactFields ((k, v) :: m :: rest)).toList ++ '}' :: t =
          (quote k).toList ++ ':' :: ((compact v).toList ++
            ',' :: ((compactFields (m :: rest)).toList ++ '}' :: t)) := by
        simp [compactFields]
      obtain ⟨u, hnext⟩ : ∃ u, (compactFields (m :: rest)).toList ++ '}' :: t = '"' :: u := by
        cases rest <;> simp [compactFields, toList_quote]
      have hlist := ih (List.cons_ne_nil m rest) hrest
      rw [hnext] at htext hlist
      rw [htext, readMembers_member (skipSpace_quote k _) (readString_escaped _ _)
        (skipSpace_cons rfl _) (by simp; omega) (hv _ rfl) (skipSpace_cons rfl _)
        (skipSpace_cons rfl u) (by decide) (by simp; omega), hlist]
      simp only [Except.map, String.ofList_toList]

theorem readsBack_list {items : List Value} (h : ∀ v ∈ items, ReadsBack d v) :
    ReadsBack (d + 1) (.list items) := by
  refine ⟨fun t _ => ?_, '[', _, by rw [compact, String.toList_append, String.toList_append]; rfl,
    rfl, by decide⟩
  have htext : (compact (.list items)).toList ++ t =
      '[' :: ((compactItems items).toList ++ ']' :: t) := by
    simp [compact]
  have hs := skipSpace_cons (c := '[') rfl ((compactItems items).toList ++ ']' :: t)
  rw [htext]
  cases items with
  | nil => exact readValue_emptyList hs (skipSpace_cons rfl t)
  | cons v rest =>
    obtain ⟨c, r, hbegins, hspace, hclose⟩ := (h v List.mem_cons_self).begins
    have hlist := readItems_compact (List.cons_ne_nil v rest) h t
    obtain ⟨u, hnext⟩ : ∃ u, (compactItems (v :: rest)).toList ++ ']' :: t = c :: u := by
      cases rest <;> simp [compactItems, hbegins]
    rw [hnext] at hs hlist ⊢
    rw [readValue_list hs (skipSpace_cons hspace u) hclose, hlist]
    rfl

theorem readsBack_mapping (hnames : Fields.Distinct fields)
    (h : ∀ m ∈ fields, ReadsBack d m.2) : ReadsBack (d + 1) (.mapping fields) := by
  refine ⟨fun t _ => ?_, '{', _, by rw [compact, String.toList_append, String.toList_append]; rfl,
    rfl, by decide⟩
  have htext : (compact (.mapping fields)).toList ++ t =
      '{' :: ((compactFields fields).toList ++ '}' :: t) := by
    simp [compact]
  have hs := skipSpace_cons (c := '{') rfl ((compactFields fields).toList ++ '}' :: t)
  rw [htext]
  cases fields with
  | nil => exact readValue_emptyMapping hs (skipSpace_cons rfl t)
  | cons m rest =>
    have hmembers := readMembers_compact (List.cons_ne_nil m rest) h t
    obtain ⟨u, hnext⟩ : ∃ u, (compactFields (m :: rest)).toList ++ '}' :: t = '"' :: u := by
      cases rest <;> simp [compactFields, toList_quote]
    rw [hnext] at hs hmembers ⊢
    rw [readValue_mapping hs (skipSpace_cons rfl u) (by decide), hmembers]
    simp only [Except.map, hnames.ofList_eq]

/-- Values that JSON holds as they are, with at most so many containers open at once. -/
inductive Exact : Nat → Value → Prop
  | null {d : Nat} : Exact d .null
  | bool {d : Nat} (b : Bool) : Exact d (.bool b)
  | integer {d : Nat} {n : Int} (low : -0x8000000000000000 ≤ n) (high : n ≤ maxUnsigned) :
      Exact d (.number (.int n))
  | string {d : Nat} (s : String) : Exact d (.string s)
  | list {d : Nat} {items : List Value} (h : ∀ v ∈ items, Exact d v) : Exact (d + 1) (.list items)
  | mapping {d : Nat} {fields : Fields Value} (names : Fields.Distinct fields)
      (h : ∀ m ∈ fields, Exact d m.2) : Exact (d + 1) (.mapping fields)

theorem readsBack_integer {n : Int} (d : Nat) (hlow : -0x8000000000000000 ≤ n)
    (hhigh : n ≤ maxUnsigned) : ReadsBack d (.number (.int n)) := by
  by_cases hsign : 0 ≤ n
  · obtain ⟨m, rfl⟩ := Int.eq_ofNat_of_zero_le hsign
    exact readsBack_nat d (Int.ofNat_le.1 hhigh)
  · obtain ⟨m, hm⟩ := Int.eq_ofNat_of_zero_le (a := -n) (by omega)
    obtain rfl : n = -m := by omega
    exact readsBack_negative d (by omega) (by omega)

theorem Exact.readsBack (h : Exact d v) : ReadsBack d v := by
  induction h with
  | null => exact readsBack_null _
  | bool b => exact readsBack_bool _ b
  | integer low high => exact readsBack_integer _ low high
  | string s => exact readsBack_string _ s
  | list _ ih => exact readsBack_list ih
  | mapping names _ ih => exact readsBack_mapping names ih

theorem Exact.read_compact (h : Exact maxDepth v) : read (compact v) = .ok v := by
  have hread := h.readsBack.read [] rfl
  rw [List.append_nil] at hread
  rw [read, readChars, hread]
  rfl

end GatewayFleet.Json
