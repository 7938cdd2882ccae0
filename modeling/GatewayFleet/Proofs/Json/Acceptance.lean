import GatewayFleet.Proofs.Json.Grammar
import GatewayFleet.Proofs.Json.NumberText
import GatewayFleet.Proofs.Json.LiteralText

/-! The readers of strict JSON accept exactly what the grammar derives: a text is read as a value
when and only when it spells tokens that spell the value. So the value depends on the tokens alone
and not on the blank characters around them. -/

namespace GatewayFleet.Json

open Outcome (map_eq_ok map_rest_eq_ok)

section Steps

variable {d : Nat} {s r t u : List Char} {c : Char} {v : Value}

theorem readValue_null (hs : skipSpace s = 'n' :: r) :
    readValue d s = (readWord ['u', 'l', 'l'] r).map (Value.null, ·) := by
  rw [readValue]
  split <;> simp_all

theorem readValue_true (hs : skipSpace s = 't' :: r) :
    readValue d s = (readWord ['r', 'u', 'e'] r).map (Value.bool true, ·) := by
  rw [readValue]
  split <;> simp_all

theorem readValue_false (hs : skipSpace s = 'f' :: r) :
    readValue d s = (readWord ['a', 'l', 's', 'e'] r).map (Value.bool false, ·) := by
  rw [readValue]
  split <;> simp_all

theorem readValue_quoted (hs : skipSpace s = '"' :: r) :
    readValue d s =
      (readString r).map fun (cs, rest) => (.string (String.ofList cs), rest) := by
  rw [readValue]
  split <;> simp_all

theorem readValue_negative (hs : skipSpace s = '-' :: r) :
    readValue d s = (readNumber true r).map fun (n, rest) => (.number n, rest) := by
  rw [readValue]
  split <;> simp_all

theorem readValue_digit (hs : skipSpace s = c :: r) (hc : c.isDigit = true) :
    readValue d s = (readNumber false (c :: r)).map fun (n, rest) => (.number n, rest) := by
  rw [readValue]
  split <;> simp_all <;> exact absurd (hs.1 ▸ hc) (by decide)

theorem readValue_emptyList (hs : skipSpace s = '[' :: r) (hr : skipSpace r = ']' :: t) :
    readValue (d + 1) s = .ok (.list [], t) := by
  rw [readValue]
  split <;> simp_all

theorem readValue_list (hs : skipSpace s = '[' :: r) (hr : skipSpace r = c :: t) (hc : c ≠ ']') :
    readValue (d + 1) s = (readItems d r).map fun (items, rest) => (.list items, rest) := by
  rw [readValue]
  split <;> simp_all

theorem readValue_emptyMapping (hs : skipSpace s = '{' :: r) (hr : skipSpace r = '}' :: t) :
    readValue (d + 1) s = .ok (.mapping [], t) := by
  rw [readValue]
  split <;> simp_all

theorem readValue_mapping (hs : skipSpace s = '{' :: r) (hr : skipSpace r = c :: t)
    (hc : c ≠ '}') :
    readValue (d + 1) s =
      (readMembers d r).map fun (ms, rest) => (.mapping (Fields.ofList ms), rest) := by
  rw [readValue]
  split <;> simp_all

theorem readItems_last (hv : readValue d s = .ok (v, r)) (hr : skipSpace r = ']' :: t) :
    readItems d s = .ok ([v], t) := by
  rw [readItems]
  split <;> simp_all

theorem readItems_item (hv : readValue d s = .ok (v, r)) (hr : skipSpace r = ',' :: t)
    (ht : skipSpace t = c :: u) (hc : c ≠ ']') (hl : (c :: u).length < s.length) :
    readItems d s = (readItems d (c :: u)).map fun (vs, rest) => (v :: vs, rest) := by
  rw [readItems]
  split <;> simp_all

variable {r₁ r₂ r₃ cs : List Char}

theorem readMembers_last (hs : skipSpace s = '"' :: r) (hk : readString r = .ok (cs, r₁))
    (h₁ : skipSpace r₁ = ':' :: r₂) (h₂ : r₂.length < s.length)
    (hv : readValue d r₂ = .ok (v, r₃)) (h₃ : skipSpace r₃ = '}' :: t) :
    readMembers d s = .ok ([(String.ofList cs, v)], t) := by
  rw [readMembers]
  simp [hs, hk, h₁, h₂, hv, h₃]

theorem readMembers_member (hs : skipSpace s = '"' :: r) (hk : readString r = .ok (cs, r₁))
    (h₁ : skipSpace r₁ = ':' :: r₂) (h₂ : r₂.length < s.length)
    (hv : readValue d r₂ = .ok (v, r₃)) (h₃ : skipSpace r₃ = ',' :: t)
    (ht : skipSpace t = c :: u) (hc : c ≠ '}') (hl : (c :: u).length < s.length) :
    readMembers d s =
      (readMembers d (c :: u)).map fun (ms, rest) => ((String.ofList cs, v) :: ms, rest) := by
  rw [readMembers]
  split <;> simp_all

end Steps

def Phrase.ReadFrom (d : Nat) (s r : List Char) : Phrase → Prop
  | .value v => readValue d s = .ok (v, r)
  | .items vs => readItems d s = .ok (vs, r)
  | .members ms => readMembers d s = .ok (ms, r)

theorem readNumber_of_scalar {negative : Bool} {raw t : List Char} {n : Number}
    (h : readNumber negative raw = .ok (n, [])) (ht : goesOn t = false) :
    readNumber negative (raw ++ t) = .ok (n, t) := by
  obtain ⟨raw', hraw, -, hall⟩ := readNumber_readsAlone negative raw n [] h
  rw [List.append_nil] at hraw
  rw [hraw]
  exact hall t ht

theorem readString_of_scalar {raw cs t : List Char} (hraw : Literal raw)
    (h : readString (raw ++ ['"']) = .ok (cs, [])) :
    readString (raw ++ '"' :: t) = .ok (cs, t) := by
  obtain ⟨raw', heq, hraw', hall⟩ := readString_eq_ok h
  obtain ⟨rfl, -⟩ := hraw.append_quote_inj hraw' heq
  exact hall t

theorem isDigit_of_readNumber {negative : Bool} {s r : List Char} {n : Number}
    (h : readNumber negative s = .ok (n, r)) : ∃ c u, s = c :: u ∧ c.isDigit = true := by
  obtain ⟨ds, t, rfl, ⟨c, u, rfl, hall, -⟩, -⟩ := readNumber_eq_ok h
  exact ⟨c, u ++ t, rfl, hall c List.mem_cons_self⟩

theorem readValue_of_scalar {d : Nat} {k : Token} {v : Value} {s t : List Char}
    (hk : Scalar k v) (hs : skipSpace s = k.text ++ t) (ht : k.isBare = true → goesOn t = false) :
    readValue d s = .ok (v, t) := by
  cases hk with
  | nullWord =>
    have hs : skipSpace s = 'n' :: (['u', 'l', 'l'] ++ t) := hs
    rw [readValue_null hs, readWord_append]
    rfl
  | trueWord =>
    have hs : skipSpace s = 't' :: (['r', 'u', 'e'] ++ t) := hs
    rw [readValue_true hs, readWord_append]
    rfl
  | falseWord =>
    have hs : skipSpace s = 'f' :: (['a', 'l', 's', 'e'] ++ t) := hs
    rw [readValue_false hs, readWord_append]
    rfl
  | number h =>
    have hread := readNumber_of_scalar h (ht rfl)
    obtain ⟨c, u, rfl, hc⟩ := isDigit_of_readNumber h
    have hs : skipSpace s = c :: (u ++ t) := hs
    rw [readValue_digit hs hc, ← List.cons_append, hread]
    rfl
  | @negative raw _ n h =>
    have hs : skipSpace s = '-' :: (raw ++ t) := hs
    rw [readValue_negative hs, readNumber_of_scalar h (ht rfl)]
    rfl
  | @text raw cs hraw h =>
    have hs : skipSpace s = '"' :: (raw ++ '"' :: t) := by
      rw [hs, Token.text, List.cons_append, List.append_assoc]
      rfl
    rw [readValue_quoted hs, readString_of_scalar hraw h]
    rfl

theorem readString_of_name {k : Token} {name : String} {s t : List Char}
    (hk : Scalar k (.string name)) (hs : skipSpace s = k.text ++ t) :
    ∃ r cs, skipSpace s = '"' :: r ∧ readString r = .ok (cs, t) ∧ name = String.ofList cs := by
  cases hk with
  | @text raw cs hraw h =>
    refine ⟨raw ++ '"' :: t, cs, ?_, readString_of_scalar hraw h, rfl⟩
    rw [hs, Token.text, List.cons_append, List.append_assoc]
    rfl

theorem Token.text_of_begins {k : Token} (h : k.begins = true) :
    ∃ c r, k.text = c :: r ∧ c ≠ ']' ∧ c ≠ '}' := by
  cases k with
  | mark m => cases m <;> first | exact ⟨_, [], rfl, by decide, by decide⟩ | cases h
  | quoted raw _ => exact ⟨'"', raw ++ ['"'], rfl, by decide, by decide⟩
  | bare raw hraw =>
    obtain ⟨hne, hall⟩ := hraw
    obtain ⟨c, r, rfl⟩ := List.exists_cons_of_ne_nil hne
    have hc := hall c List.mem_cons_self
    refine ⟨c, r, rfl, ?_, ?_⟩ <;> rintro rfl <;> exact absurd hc (by decide)

theorem Spells.skipSpace_eq_cons {d : Nat} {p : Phrase} {ts us : List Token} {s : List Char}
    (h : Spells d p ts) (hs : Spaced (ts ++ us) s) :
    ∃ c r, skipSpace s = c :: r ∧ c ≠ ']' ∧ c ≠ '}' := by
  obtain ⟨k, ts', rfl, hk⟩ := h.begins
  obtain ⟨t, hst, -, -⟩ := Spaced.skipSpace_cons hs
  obtain ⟨c, r, hc, hlist, hmapping⟩ := Token.text_of_begins hk
  exact ⟨c, r ++ t, by rw [hst, hc]; rfl, hlist, hmapping⟩

/-- A text that spells a phrase first is read as that phrase. -/
theorem Spells.readFrom {d : Nat} {p : Phrase} {ts us : List Token} {s : List Char}
    (h : Spells d p ts) (hs : Spaced (ts ++ us) s) :
    ∃ r, p.ReadFrom d s r ∧ Spaced us r ∧ r.length < s.length := by
  induction h generalizing us s with
  | scalar hk =>
    obtain ⟨t, hst, ht, hus⟩ := hs.skipSpace_cons
    exact ⟨t, readValue_of_scalar hk hst ht, hus, length_lt_of_skipSpace hst⟩
  | emptyList =>
    obtain ⟨t, hst, ht, hlt⟩ := hs.skipSpace_mark
    obtain ⟨u, htu, hu, hlu⟩ := ht.skipSpace_mark
    exact ⟨u, readValue_emptyList hst htu, hu, by omega⟩
  | @list d vs ts h ih =>
    obtain ⟨t, hst, ht, hlt⟩ := hs.skipSpace_mark
    obtain ⟨c, u, hc, hne, -⟩ := h.skipSpace_eq_cons ht
    obtain ⟨r, hr, hus, hlr⟩ := ih ht
    have hr : readItems d t = .ok (vs, r) := hr
    refine ⟨r, ?_, hus, by omega⟩
    rw [Phrase.ReadFrom, readValue_list hst hc hne, hr]
    rfl
  | emptyMapping =>
    obtain ⟨t, hst, ht, hlt⟩ := hs.skipSpace_mark
    obtain ⟨u, htu, hu, hlu⟩ := ht.skipSpace_mark
    exact ⟨u, readValue_emptyMapping hst htu, hu, by omega⟩
  | @mapping d ms ts h ih =>
    obtain ⟨t, hst, ht, hlt⟩ := hs.skipSpace_mark
    obtain ⟨c, u, hc, -, hne⟩ := h.skipSpace_eq_cons ht
    obtain ⟨r, hr, hus, hlr⟩ := ih ht
    have hr : readMembers d t = .ok (ms, r) := hr
    refine ⟨r, ?_, hus, by omega⟩
    rw [Phrase.ReadFrom, readValue_mapping hst hc hne, hr]
    rfl
  | lastItem _ ih =>
    rw [List.append_assoc] at hs
    obtain ⟨r, hr, hus, hlr⟩ := ih hs
    obtain ⟨t, hrt, ht, hlt⟩ := hus.skipSpace_mark
    exact ⟨t, readItems_last hr hrt, ht, by omega⟩
  | @item d v vs ts us' _ h ihv ih =>
    rw [List.append_assoc] at hs
    obtain ⟨r, hr, hus, hlr⟩ := ihv hs
    obtain ⟨t, hrt, ht, hlt⟩ := hus.skipSpace_mark
    have hle := skipSpace_length_le t
    obtain ⟨c, u, hc, hne, -⟩ := h.skipSpace_eq_cons ht
    obtain ⟨r', hr', hus', hlr'⟩ := ih ht.to_skipSpace
    rw [hc] at hr' hlr' hle
    have hr' : readItems d (c :: u) = .ok (vs, r') := hr'
    refine ⟨r', ?_, hus', by omega⟩
    rw [Phrase.ReadFrom, readItems_item hr hrt hc hne (by omega), hr']
    rfl
  | lastMember hk _ ih =>
    rw [List.cons_append, List.cons_append, List.append_assoc] at hs
    obtain ⟨r₁, hs₁, -, h₁⟩ := hs.skipSpace_cons
    obtain ⟨r₂, hs₂, h₂, hl₂⟩ := h₁.skipSpace_mark
    obtain ⟨r₃, hr₃, h₃, hl₃⟩ := ih h₂
    obtain ⟨t, hs₃, ht, hlt⟩ := h₃.skipSpace_mark
    obtain ⟨r, cs, hs, hread, rfl⟩ := readString_of_name hk hs₁
    have hl₁ := length_lt_of_skipSpace hs₁
    exact ⟨t, readMembers_last hs hread hs₂ (by omega) hr₃ hs₃, ht, by omega⟩
  | @member d k name v ms ts us' hk _ h ihv ih =>
    rw [List.cons_append, List.cons_append, List.append_assoc] at hs
    obtain ⟨r₁, hs₁, -, h₁⟩ := hs.skipSpace_cons
    obtain ⟨r₂, hs₂, h₂, hl₂⟩ := h₁.skipSpace_mark
    obtain ⟨r₃, hr₃, h₃, hl₃⟩ := ihv h₂
    obtain ⟨t, hs₃, ht, hlt⟩ := h₃.skipSpace_mark
    obtain ⟨r, cs, hs, hread, rfl⟩ := readString_of_name hk hs₁
    have hl₁ := length_lt_of_skipSpace hs₁
    have hle := skipSpace_length_le t
    obtain ⟨c, u, hc, -, hne⟩ := h.skipSpace_eq_cons ht
    obtain ⟨r', hr', hus', hlr'⟩ := ih ht.to_skipSpace
    rw [hc] at hr' hlr' hle
    have hr' : readMembers d (c :: u) = .ok (ms, r') := hr'
    refine ⟨r', ?_, hus', by omega⟩
    rw [Phrase.ReadFrom, readMembers_member hs hread hs₂ (by omega) hr₃ hs₃ hc hne (by omega), hr']
    rfl

theorem length_lt_of_skipSpace_cons {c : Char} {s t : List Char} (h : skipSpace s = c :: t) :
    t.length < s.length := by
  have hle := skipSpace_length_le s
  rw [h, List.length_cons] at hle
  omega

theorem Bare.negative {raw : List Char} (h : Bare raw) : Bare ('-' :: raw) := by
  refine ⟨nofun, fun c hc => ?_⟩
  rcases List.mem_cons.1 hc with rfl | hc
  · rfl
  · exact h.2 c hc

/-- The text in front of the rest spells the phrase. -/
def Derives (d : Nat) (p : Phrase) (s r : List Char) : Prop :=
  ∃ ts, Spells d p ts ∧ ∀ us, Spaced us r → Spaced (ts ++ us) s

namespace Derives

variable {d : Nat} {s r t u : List Char} {v : Value} {vs : List Value}
  {ms : List (String × Value)}

theorem scalar {k : Token} (hk : Scalar k v) (hs : skipSpace s = k.text ++ r)
    (hr : k.isBare = true → goesOn r = false) : Derives d (.value v) s r :=
  ⟨[k], .scalar hk, fun _ hus => .cons hs hr hus⟩

theorem mark {m : Mark} {ts : List Token} (hs : skipSpace s = m.char :: r) (hr : Spaced ts r) :
    Spaced (.mark m :: ts) s :=
  .cons hs nofun hr

theorem emptyList (hs : skipSpace s = '[' :: t) (ht : skipSpace t = ']' :: r) :
    Derives (d + 1) (.value (.list [])) s r :=
  ⟨_, .emptyList, fun _ hus => mark hs (mark ht hus)⟩

theorem emptyMapping (hs : skipSpace s = '{' :: t) (ht : skipSpace t = '}' :: r) :
    Derives (d + 1) (.value (.mapping [])) s r :=
  ⟨_, .emptyMapping, fun _ hus => mark hs (mark ht hus)⟩

theorem list (hs : skipSpace s = '[' :: t) (h : Derives d (.items vs) t r) :
    Derives (d + 1) (.value (.list vs)) s r := by
  obtain ⟨ts, hts, hall⟩ := h
  exact ⟨_, .list hts, fun us hus => mark hs (hall us hus)⟩

theorem mapping (hs : skipSpace s = '{' :: t) (h : Derives d (.members ms) t r) :
    Derives (d + 1) (.value (.mapping (Fields.ofList ms))) s r := by
  obtain ⟨ts, hts, hall⟩ := h
  exact ⟨_, .mapping hts, fun us hus => mark hs (hall us hus)⟩

theorem lastItem (h : Derives d (.value v) s t) (ht : skipSpace t = ']' :: r) :
    Derives d (.items [v]) s r := by
  obtain ⟨ts, hts, hall⟩ := h
  refine ⟨_, .lastItem hts, fun us hus => ?_⟩
  rw [List.append_assoc]
  exact hall _ (mark ht hus)

theorem item (h : Derives d (.value v) s t) (ht : skipSpace t = ',' :: u)
    (h' : Derives d (.items vs) (skipSpace u) r) : Derives d (.items (v :: vs)) s r := by
  obtain ⟨ts, hts, hall⟩ := h
  obtain ⟨us', hus', hall'⟩ := h'
  refine ⟨_, .item hts hus', fun us hus => ?_⟩
  rw [List.append_assoc]
  exact hall _ (mark ht (.of_skipSpace (hall' us hus)))

theorem name {cs r₁ r₂ : List Char} (hs : skipSpace s = '"' :: r)
    (hr : readString r = .ok (cs, r₁)) (h₁ : skipSpace r₁ = ':' :: r₂) :
    ∃ k, Scalar k (.string (String.ofList cs)) ∧
      ∀ us, Spaced us r₂ → Spaced (k :: .mark .colon :: us) s := by
  obtain ⟨raw, rfl, hraw, hall⟩ := readString_eq_ok hr
  refine ⟨.quoted raw hraw, .text (hall []), fun us hus => ?_⟩
  refine .cons (t := r₁) ?_ nofun (mark h₁ hus)
  rw [hs, Token.text, List.cons_append, List.append_assoc]
  rfl

theorem lastMember {cs r₁ r₂ r₃ : List Char} (hs : skipSpace s = '"' :: t)
    (ht : readString t = .ok (cs, r₁)) (h₁ : skipSpace r₁ = ':' :: r₂)
    (h : Derives d (.value v) r₂ r₃) (h₃ : skipSpace r₃ = '}' :: r) :
    Derives d (.members [(String.ofList cs, v)]) s r := by
  obtain ⟨k, hk, hname⟩ := name hs ht h₁
  obtain ⟨ts, hts, hall⟩ := h
  refine ⟨_, .lastMember hk hts, fun us hus => ?_⟩
  rw [List.cons_append, List.cons_append, List.append_assoc]
  exact hname _ (hall _ (mark h₃ hus))

theorem member {cs r₁ r₂ r₃ : List Char} (hs : skipSpace s = '"' :: t)
    (ht : readString t = .ok (cs, r₁)) (h₁ : skipSpace r₁ = ':' :: r₂)
    (h : Derives d (.value v) r₂ r₃) (h₃ : skipSpace r₃ = ',' :: u)
    (h' : Derives d (.members ms) (skipSpace u) r) :
    Derives d (.members ((String.ofList cs, v) :: ms)) s r := by
  obtain ⟨k, hk, hname⟩ := name hs ht h₁
  obtain ⟨ts, hts, hall⟩ := h
  obtain ⟨us', hus', hall'⟩ := h'
  refine ⟨_, .member hk hts hus', fun us hus => ?_⟩
  rw [List.cons_append, List.cons_append, List.append_assoc]
  exact hname _ (hall _ (mark h₃ (.of_skipSpace (hall' us hus))))

theorem number {negative : Bool} {n : Number} (h : readNumber negative s = .ok (n, r)) :
    ∃ raw, s = raw ++ r ∧ Bare raw ∧ readNumber negative raw = .ok (n, []) := by
  obtain ⟨raw, rfl, hraw, hall⟩ := readNumber_readsAlone negative s n r h
  have hnil : readNumber negative raw = .ok (n, []) := by
    rw [← List.append_nil raw]
    exact hall [] rfl
  refine ⟨raw, rfl, ⟨?_, hraw⟩, hnil⟩
  rintro rfl
  cases hnil

theorem word {c : Char} {cs : List Char} {hw : Bare (c :: cs)} {w : Value}
    (hk : Scalar (.bare (c :: cs) hw) w) (hs : skipSpace s = c :: t)
    (h : (readWord cs t).map (fun r => (w, r)) = .ok (v, r)) (hr : goesOn r = false) :
    Derives d (.value v) s r := by
  obtain ⟨r', hread, heq⟩ := map_eq_ok h
  obtain ⟨rfl, rfl⟩ := Prod.mk.inj heq
  rw [readWord_eq_ok hread] at hs
  exact .scalar hk hs fun _ => hr

theorem text {cs : List Char} (hs : skipSpace s = '"' :: t) (ht : readString t = .ok (cs, r)) :
    Derives d (.value (.string (String.ofList cs))) s r := by
  obtain ⟨raw, rfl, hraw, hall⟩ := readString_eq_ok ht
  refine .scalar (k := .quoted raw hraw) (.text (hall [])) ?_ nofun
  rw [hs, Token.text, List.cons_append, List.append_assoc]
  rfl

end Derives

mutual

theorem derives_of_readValue {d : Nat} {s r : List Char} {v : Value}
    (h : readValue d s = .ok (v, r)) (hr : goesOn r = false) : Derives d (.value v) s r := by
  rw [readValue] at h
  split at h
  · cases h
  · rename_i t hs
    exact .word (.nullWord (h := ⟨nofun, List.all_eq_true.1 rfl⟩)) hs h hr
  · rename_i t hs
    exact .word (.trueWord (h := ⟨nofun, List.all_eq_true.1 rfl⟩)) hs h hr
  · rename_i t hs
    exact .word (.falseWord (h := ⟨nofun, List.all_eq_true.1 rfl⟩)) hs h hr
  · rename_i t hs
    obtain ⟨cs, ht, rfl⟩ := map_rest_eq_ok (f := Value.string ∘ String.ofList) h
    exact .text hs ht
  · rename_i t hs
    obtain ⟨n, ht, rfl⟩ := map_rest_eq_ok h
    obtain ⟨raw, rfl, hraw, hn⟩ := Derives.number ht
    exact .scalar (.negative (h := hraw.negative) hn) hs fun _ => hr
  · rename_i t hs
    split at h
    · cases h
    · split at h
      · cases h
      · rename_i ht
        cases h
        exact .emptyList hs ht
      · obtain ⟨vs, ht, rfl⟩ := map_rest_eq_ok h
        have hlt := length_lt_of_skipSpace_cons hs
        exact .list hs (derives_of_readItems ht)
  · rename_i t hs
    split at h
    · cases h
    · split at h
      · cases h
      · rename_i ht
        cases h
        exact .emptyMapping hs ht
      · obtain ⟨ms, ht, rfl⟩ := map_rest_eq_ok (f := Value.mapping ∘ Fields.ofList) h
        have hlt := length_lt_of_skipSpace_cons hs
        exact .mapping hs (derives_of_readMembers ht)
  · rename_i c t _ _ _ _ _ _ _ hs
    split at h
    · obtain ⟨n, ht, rfl⟩ := map_rest_eq_ok h
      obtain ⟨raw, heq, hraw, hn⟩ := Derives.number ht
      rw [heq] at hs
      exact .scalar (.number (h := hraw) hn) hs fun _ => hr
    · cases h
termination_by (s.length, 0)

theorem derives_of_readItems {d : Nat} {s r : List Char} {vs : List Value}
    (h : readItems d s = .ok (vs, r)) : Derives d (.items vs) s r := by
  rw [readItems] at h
  split at h
  · cases h
  · rename_i v t hv
    split at h
    · cases h
    · rename_i u ht
      cases h
      exact .lastItem (derives_of_readValue hv (goesOn_of_skipSpace_cons ht rfl)) ht
    · rename_i u ht
      split at h
      · cases h
      · cases h
      · split at h
        · rename_i hlt
          obtain ⟨vs', hu, rfl⟩ := map_rest_eq_ok h
          exact .item (derives_of_readValue hv (goesOn_of_skipSpace_cons ht rfl)) ht
            (derives_of_readItems hu)
        · cases h
    · cases h
termination_by (s.length, 1)

theorem derives_of_readMembers {d : Nat} {s r : List Char} {ms : List (String × Value)}
    (h : readMembers d s = .ok (ms, r)) : Derives d (.members ms) s r := by
  rw [readMembers] at h
  split at h
  · rename_i t hs
    split at h
    · cases h
    · rename_i cs r₁ hk
      split at h
      · cases h
      · rename_i r₂ h₁
        split at h
        · rename_i hlt
          split at h
          · cases h
          · rename_i v r₃ hv
            split at h
            · cases h
            · rename_i u h₃
              cases h
              exact .lastMember hs hk h₁
                (derives_of_readValue hv (goesOn_of_skipSpace_cons h₃ rfl)) h₃
            · rename_i u h₃
              split at h
              · cases h
              · cases h
              · split at h
                · rename_i hlu
                  obtain ⟨ms', hu, rfl⟩ := map_rest_eq_ok h
                  exact .member hs hk h₁
                    (derives_of_readValue hv (goesOn_of_skipSpace_cons h₃ rfl)) h₃
                    (derives_of_readMembers hu)
                · cases h
            · cases h
        · cases h
      · cases h
  · cases h
termination_by (s.length, 1)

end

theorem readChars_eq_ok_iff {s : List Char} {v : Value} :
    readChars s = .ok v ↔ ∃ ts, Spells maxDepth (.value v) ts ∧ Spaced ts s := by
  constructor
  · intro h
    unfold readChars at h
    split at h
    · cases h
    · rename_i w r hw
      split at h
      · rename_i hr
        cases h
        obtain ⟨ts, hts, hall⟩ := derives_of_readValue hw (goesOn_of_skipSpace (by rw [hr]; rfl))
        have hdone : Spaced [] r := .of_skipSpace (hr ▸ .done (fun _ hc => nomatch hc))
        exact ⟨ts, hts, by simpa using hall [] hdone⟩
      · cases h
  · rintro ⟨ts, hts, hs⟩
    rw [← List.append_nil ts] at hs
    obtain ⟨r, hr, hdone, -⟩ := hts.readFrom hs
    have hr : readValue maxDepth s = .ok (v, r) := hr
    rw [readChars, hr]
    simp only [hdone.skipSpace_nil]

theorem read_eq_ok_iff {text : String} {v : Value} :
    read text = .ok v ↔ ∃ ts, Spells maxDepth (.value v) ts ∧ Spaced ts text.toList :=
  readChars_eq_ok_iff

end GatewayFleet.Json
