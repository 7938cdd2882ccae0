import GatewayFleet.Proofs.Outcome
import GatewayFleet.Proofs.Json.Token

/-! Quoted literals are read alone: the reader stops behind the quote that closes the literal, and
what it returns depends on nothing behind that quote. -/

namespace GatewayFleet.Json

open Outcome (map_rest_eq_ok)

/-- A reader of a part of a literal: what it takes is a literal, and it takes the same in front of
any other text. -/
def ReadsLiteral {α : Type} (f : List Char → Step α) : Prop :=
  ∀ s a r, f s = .ok (a, r) → ∃ raw, s = raw ++ r ∧ Literal raw ∧
    ∀ t, f (raw ++ t) = .ok (a, t)

theorem hexValue?_ne_none {c : Char} {n : Nat} (h : hexValue? c = some n) :
    c ≠ '"' ∧ c ≠ '\\' := by
  constructor <;> rintro rfl <;> cases h

theorem readHex_readsLiteral : ReadsLiteral readHex := by
  intro s n r h
  unfold readHex at h
  split at h
  · rename_i a b c d r'
    split at h
    · rename_i a' b' c' d' ha hb hc hd
      simp only [Except.ok.injEq, Prod.mk.injEq] at h
      obtain ⟨hn, rfl⟩ := h
      obtain ⟨haq, has⟩ := hexValue?_ne_none ha
      obtain ⟨hbq, hbs⟩ := hexValue?_ne_none hb
      obtain ⟨hcq, hcs⟩ := hexValue?_ne_none hc
      obtain ⟨hdq, hds⟩ := hexValue?_ne_none hd
      refine ⟨[a, b, c, d], rfl, ?_, fun t => ?_⟩
      · exact .plain haq has (.plain hbq hbs (.plain hcq hcs (.plain hdq hds .nil)))
      · simp [readHex, ha, hb, hc, hd, hn]
    · cases h
  · split at h <;> cases h

theorem expectInPair_eq_ok {c : Char} {s r : List Char} (h : expectInPair c s = .ok r) :
    s = c :: r := by
  cases s with
  | nil => cases h
  | cons d s =>
    by_cases hd : d = c
    · simp only [expectInPair, hd, if_true, Except.ok.injEq] at h
      rw [hd, h]
    · simp [expectInPair, stopped, hd] at h

theorem expectInPair_cons (c : Char) (t : List Char) : expectInPair c (c :: t) = .ok t := by
  simp [expectInPair]

theorem readUnicode_single {s r : List Char} {n : Nat} (h : readHex s = .ok (n, r))
    (hn : n < 0xD800 ∨ 0xDBFF < n) (hlow : ¬ (0xDC00 ≤ n ∧ n ≤ 0xDFFF)) :
    readUnicode s = .ok (Char.ofNat n, r) := by
  simp only [readUnicode, bind, Except.bind, h, hlow, hn, if_true, if_false]

theorem readUnicode_pair {s r u : List Char} {n m : Nat}
    (h : readHex s = .ok (n, '\\' :: 'u' :: u)) (hn : ¬ (n < 0xD800 ∨ 0xDBFF < n))
    (hu : readHex u = .ok (m, r)) (hm : 0xDC00 ≤ m ∧ m ≤ 0xDFFF) :
    readUnicode s = .ok (Char.ofNat ((n - 0xD800) * 0x400 + (m - 0xDC00) + 0x10000), r) := by
  have hlow : ¬ (0xDC00 ≤ n ∧ n ≤ 0xDFFF) := by omega
  simp only [readUnicode, bind, Except.bind, h, hlow, hn, if_false, expectInPair_cons, hu, hm,
    and_self, if_true]

theorem readUnicode_cases {s r : List Char} {c : Char} (h : readUnicode s = .ok (c, r)) :
    (∃ n, readHex s = .ok (n, r) ∧ (n < 0xD800 ∨ 0xDBFF < n) ∧ ¬ (0xDC00 ≤ n ∧ n ≤ 0xDFFF)) ∨
      ∃ n m u, readHex s = .ok (n, '\\' :: 'u' :: u) ∧ ¬ (n < 0xD800 ∨ 0xDBFF < n) ∧
        readHex u = .ok (m, r) ∧ 0xDC00 ≤ m ∧ m ≤ 0xDFFF := by
  simp only [readUnicode, bind, Except.bind] at h
  split at h
  · cases h
  · rename_i v hv
    obtain ⟨n, s₁⟩ := v
    split at h
    · cases h
    · rename_i hlow
      split at h
      · rename_i hsingle
        obtain ⟨-, rfl⟩ := Prod.mk.inj (Except.ok.inj h)
        exact .inl ⟨n, hv, hsingle, hlow⟩
      · rename_i hpair
        split at h
        · cases h
        · rename_i s₂ hback
          split at h
          · cases h
          · rename_i u hu
            split at h
            · cases h
            · rename_i w hw
              obtain ⟨m, s₄⟩ := w
              split at h
              · rename_i htrail
                obtain ⟨-, rfl⟩ := Prod.mk.inj (Except.ok.inj h)
                obtain rfl := expectInPair_eq_ok hu
                obtain rfl := expectInPair_eq_ok hback
                exact .inr ⟨n, m, u, hv, hpair, hw, htrail⟩
              · cases h

theorem readUnicode_readsLiteral : ReadsLiteral readUnicode := by
  intro s c r h
  rcases readUnicode_cases h with ⟨n, hn, hsingle, hlow⟩ | ⟨n, m, u, hn, hpair, hm, htrail⟩
  · obtain ⟨raw, rfl, hraw, hall⟩ := readHex_readsLiteral s n r hn
    rw [readUnicode_single hn hsingle hlow] at h
    obtain ⟨rfl, -⟩ := Prod.mk.inj (Except.ok.inj h)
    exact ⟨raw, rfl, hraw, fun t => readUnicode_single (hall t) hsingle hlow⟩
  · obtain ⟨raw, rfl, hraw, hall⟩ := readHex_readsLiteral s n _ hn
    obtain ⟨raw', rfl, hraw', hall'⟩ := readHex_readsLiteral u m r hm
    rw [readUnicode_pair hn hpair hm htrail] at h
    obtain ⟨rfl, -⟩ := Prod.mk.inj (Except.ok.inj h)
    refine ⟨raw ++ '\\' :: 'u' :: raw', by simp, hraw.append (.escaped hraw'), fun t => ?_⟩
    rw [List.append_assoc]
    exact readUnicode_pair (hall _) hpair (hall' t) htrail

theorem readEscape_eq_ok {s r : List Char} {c : Char} (h : readEscape s = .ok (c, r)) :
    ∃ d raw, s = d :: raw ++ r ∧ Literal raw ∧ ∀ t, readEscape (d :: raw ++ t) = .ok (c, t) := by
  unfold readEscape at h
  split at h
  · cases h
  · rename_i r'
    obtain ⟨raw, rfl, hraw, hall⟩ := readUnicode_readsLiteral r' c r h
    exact ⟨'u', raw, rfl, hraw, hall⟩
  · rename_i d r' hu
    split at h
    · rename_i hd
      simp only [Except.ok.injEq, Prod.mk.injEq] at h
      obtain ⟨rfl, rfl⟩ := h
      exact ⟨d, [], rfl, .nil, fun t => by simp [readEscape, hd]⟩
    · cases h

theorem readString_escape {s r : List Char} {c : Char} (h : readEscape s = .ok (c, r)) :
    readString ('\\' :: s) = (readString r).map fun (cs, rest) => (c :: cs, rest) := by
  rw [readString]
  split
  · rename_i e he
    rw [h] at he
    cases he
  · rename_i d r' he
    rw [h] at he
    cases he
    rfl

theorem readString_eq_ok {s r cs : List Char} (h : readString s = .ok (cs, r)) :
    ∃ raw, s = raw ++ '"' :: r ∧ Literal raw ∧
      ∀ t, readString (raw ++ '"' :: t) = .ok (cs, t) := by
  fun_induction readString s generalizing cs with
  | case1 => cases h
  | case2 r' =>
    simp only [Except.ok.injEq, Prod.mk.injEq] at h
    obtain ⟨rfl, rfl⟩ := h
    exact ⟨[], rfl, .nil, fun t => by simp [readString]⟩
  | case3 _ _ _ => cases h
  | case4 s c s' hesc ih =>
    obtain ⟨ds, hr, rfl⟩ := map_rest_eq_ok h
    obtain ⟨raw, rfl, hraw, hall⟩ := ih hr
    obtain ⟨d, raw', rfl, hraw', hall'⟩ := readEscape_eq_ok hesc
    refine ⟨'\\' :: d :: raw' ++ raw, by simp, .escaped (hraw'.append hraw), fun t => ?_⟩
    have hstep := hall' (raw ++ '"' :: t)
    rw [List.append_assoc, List.cons_append, List.cons_append, ← List.cons_append,
      readString_escape hstep, hall t]
    rfl
  | case5 _ _ _ _ _ => cases h
  | case6 c s hq hb hc ih =>
    obtain ⟨ds, hr, rfl⟩ := map_rest_eq_ok h
    obtain ⟨raw, rfl, hraw, hall⟩ := ih hr
    refine ⟨c :: raw, rfl, .plain hq hb hraw, fun t => ?_⟩
    rw [List.cons_append, readString.eq_4 _ _ hq hb, if_neg hc, hall t]
    rfl

end GatewayFleet.Json
