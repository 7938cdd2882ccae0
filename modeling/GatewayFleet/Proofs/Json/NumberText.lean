import GatewayFleet.Json.Skip
import GatewayFleet.Proofs.Json.Token

/-! Words and numbers are read alone: what their readers take off a text depends on nothing behind
it, as long as no further character of a number follows. -/

namespace GatewayFleet.Json

/-- A reader that takes only characters of words and numbers, and reads the same in front of any
text that does not go on. -/
def ReadsAlone {α : Type} (f : List Char → Step α) : Prop :=
  ∀ s a r, f s = .ok (a, r) → ∃ raw, s = raw ++ r ∧ (∀ c ∈ raw, isBare c = true) ∧
    ∀ t, goesOn t = false → f (raw ++ t) = .ok (a, t)

theorem takeWhile_isDigit_eq_nil {t : List Char} (h : goesOn t = false) :
    t.takeWhile Char.isDigit = [] := by
  cases t with
  | nil => rfl
  | cons c t =>
    have hc : c.isDigit = false := by
      rw [Bool.eq_false_iff]
      intro hd
      rw [goesOn, isBare_of_isDigit hd] at h
      exact Bool.false_ne_true h.symm
    simp [hc]

theorem takeWhile_isDigit_append {raw r t : List Char}
    (h : (raw ++ r).takeWhile Char.isDigit = []) (ht : goesOn t = false) :
    (raw ++ t).takeWhile Char.isDigit = [] := by
  cases raw with
  | nil => exact takeWhile_isDigit_eq_nil ht
  | cons c raw =>
    cases hc : c.isDigit with
    | false => simp [hc]
    | true => simp [hc] at h

theorem isDigit_of_mem_takeWhile {s : List Char} : ∀ c ∈ s.takeWhile Char.isDigit,
    c.isDigit = true :=
  List.all_eq_true.1 List.all_takeWhile

theorem takeWhile_digits_append {ds t : List Char} (hd : ∀ c ∈ ds, c.isDigit = true)
    (ht : t.takeWhile Char.isDigit = []) : (ds ++ t).takeWhile Char.isDigit = ds := by
  rw [List.takeWhile_append_of_pos hd, ht, List.append_nil]

theorem dropWhile_digits_append {ds t : List Char} (hd : ∀ c ∈ ds, c.isDigit = true)
    (ht : t.takeWhile Char.isDigit = []) : (ds ++ t).dropWhile Char.isDigit = t := by
  have hs := List.takeWhile_append_dropWhile (p := Char.isDigit) (l := t)
  rw [ht, List.nil_append] at hs
  rw [List.dropWhile_append_of_pos hd, hs]

theorem takeWhile_dropWhile_isDigit (s : List Char) :
    (s.dropWhile Char.isDigit).takeWhile Char.isDigit = [] := by
  induction s with
  | nil => rfl
  | cons c s ih =>
    by_cases hc : c.isDigit = true
    · rw [List.dropWhile_cons_of_pos hc, ih]
    · rw [List.dropWhile_cons_of_neg hc, List.takeWhile_cons_of_neg hc]

theorem floatOfParts_eq_ok {negative : Bool} {n : Nat} {e : Int} {s r : List Char} {x : Number}
    (h : floatOfParts negative n e s = .ok (x, r)) :
    r = s ∧ ∀ t, floatOfParts negative n e t = .ok (x, t) := by
  unfold floatOfParts at h ⊢
  split at h
  · simp only [Except.ok.injEq, Prod.mk.injEq] at h
    exact ⟨h.2.symm, fun t => by rw [h.1]⟩
  · cases h

def exponentOf (negative : Bool) (n : Nat) (e : Int) (down : Bool) (ds t : List Char) :
    Step Number :=
  match absorbExponent 0 ds with
  | .ok x => floatOfParts negative n (if down then e - x else e + x) t
  | .error left =>
    if n ≠ 0 && !down then stopped .numberOutOfRange (left ++ t) 0
    else .ok (.float (signed negative ⟨0⟩), t)

theorem exponentOf_eq_ok {negative down : Bool} {n : Nat} {e : Int} {ds s r : List Char}
    {x : Number} (h : exponentOf negative n e down ds s = .ok (x, r)) :
    r = s ∧ ∀ t, exponentOf negative n e down ds t = .ok (x, t) := by
  unfold exponentOf at h ⊢
  split at h
  · exact floatOfParts_eq_ok h
  · split at h
    · cases h
    · simp only [Except.ok.injEq, Prod.mk.injEq] at h
      rename_i hn
      exact ⟨h.2.symm, fun t => by rw [if_neg hn, h.1]⟩

inductive ExponentSign : Bool → List Char → Prop
  | none : ExponentSign false []
  | plus : ExponentSign false ['+']
  | minus : ExponentSign true ['-']

theorem readExponent_append {negative down : Bool} {n : Nat} {e : Int} {sign ds t : List Char}
    (hs : ExponentSign down sign) (hne : ds ≠ []) (hd : ∀ c ∈ ds, c.isDigit = true)
    (ht : t.takeWhile Char.isDigit = []) :
    readExponent negative n e (sign ++ (ds ++ t)) = exponentOf negative n e down ds t := by
  obtain ⟨c, ds, rfl⟩ := List.exists_cons_of_ne_nil hne
  have hc := hd c List.mem_cons_self
  have htake := takeWhile_digits_append hd ht
  have hdrop := dropWhile_digits_append hd ht
  have hsign : (c ≠ '+' ∧ c ≠ '-') := by
    constructor <;> rintro rfl <;> exact absurd hc (by decide)
  rw [List.cons_append] at htake hdrop ⊢
  cases hs with
  | none =>
    cases hx : absorbExponent 0 (c :: ds) <;>
      simp [readExponent, exponentOf, hsign, hc, htake, hdrop, hx]
  | plus =>
    cases hx : absorbExponent 0 (c :: ds) <;> simp [readExponent, exponentOf, hc, htake, hdrop, hx]
  | minus =>
    cases hx : absorbExponent 0 (c :: ds) <;> simp [readExponent, exponentOf, hc, htake, hdrop, hx]

theorem exists_digits_append {c : Char} (s : List Char) (hc : c.isDigit = true) :
    ∃ ds t, c :: s = c :: ds ++ t ∧ (∀ d ∈ c :: ds, d.isDigit = true) ∧
      t.takeWhile Char.isDigit = [] := by
  refine ⟨s.takeWhile Char.isDigit, s.dropWhile Char.isDigit, ?_, ?_,
    takeWhile_dropWhile_isDigit s⟩
  · rw [List.cons_append, List.takeWhile_append_dropWhile]
  · intro d hd
    rcases List.mem_cons.1 hd with rfl | hd
    · exact hc
    · exact isDigit_of_mem_takeWhile d hd

theorem exists_digit_of_readExponent {negative : Bool} {n : Nat} {e : Int} {s r : List Char}
    {x : Number} (h : readExponent negative n e s = .ok (x, r)) :
    ∃ down sign c u, ExponentSign down sign ∧ s = sign ++ c :: u ∧ c.isDigit = true := by
  cases s with
  | nil => simp [readExponent, stopped] at h
  | cons c u =>
    by_cases hp : c = '+'
    · subst hp
      cases u with
      | nil => simp [readExponent, stopped] at h
      | cons d v =>
        cases hd : d.isDigit with
        | false => simp [readExponent, stopped, hd] at h
        | true => exact ⟨false, ['+'], d, v, .plus, rfl, hd⟩
    · by_cases hm : c = '-'
      · subst hm
        cases u with
        | nil => simp [readExponent, stopped] at h
        | cons d v =>
          cases hd : d.isDigit with
          | false => simp [readExponent, stopped, hd] at h
          | true => exact ⟨true, ['-'], d, v, .minus, rfl, hd⟩
      · cases hd : c.isDigit with
        | false => simp [readExponent, stopped, hp, hm, hd] at h
        | true => exact ⟨false, [], c, u, .none, rfl, hd⟩

theorem readExponent_readsAlone (negative : Bool) (n : Nat) (e : Int) :
    ReadsAlone (readExponent negative n e) := by
  intro s x r h
  obtain ⟨down, sign, c, u, hsign, rfl, hc⟩ := exists_digit_of_readExponent h
  obtain ⟨ds, t, hu, hd, ht⟩ := exists_digits_append u hc
  rw [hu, readExponent_append hsign (List.cons_ne_nil c ds) hd ht] at h
  obtain ⟨rfl, hall⟩ := exponentOf_eq_ok h
  refine ⟨sign ++ c :: ds, by rw [hu, List.append_assoc], ?_, fun w hw => ?_⟩
  · intro d hmem
    rcases List.mem_append.1 hmem with hmem | hmem
    · cases hsign <;> simp_all [isBare]
    · exact isBare_of_isDigit (hd d hmem)
  · rw [List.append_assoc, readExponent_append hsign (List.cons_ne_nil c ds) hd
      (takeWhile_isDigit_eq_nil hw)]
    exact hall w

def fractionOf (negative : Bool) (n : Nat) (e : Int) : List Char → Step Number
  | [] => floatOfParts negative n e []
  | c :: r =>
    if isExponentMark c then readExponent negative n e r else floatOfParts negative n e (c :: r)

theorem not_isExponentMark_of_goesOn {c : Char} {t : List Char} (h : goesOn (c :: t) = false) :
    isExponentMark c = false := by
  rw [Bool.eq_false_iff]
  intro hc
  simp only [isExponentMark, Bool.or_eq_true, decide_eq_true_eq] at hc
  rcases hc with rfl | rfl <;> cases h

theorem fractionOf_of_goesOn {negative : Bool} {n : Nat} {e : Int} {t : List Char}
    (h : goesOn t = false) : fractionOf negative n e t = floatOfParts negative n e t := by
  cases t with
  | nil => rfl
  | cons c t => simp [fractionOf, not_isExponentMark_of_goesOn h]

theorem isBare_of_isExponentMark {c : Char} (h : isExponentMark c = true) : isBare c = true := by
  simp only [isExponentMark, Bool.or_eq_true, decide_eq_true_eq] at h
  rcases h with rfl | rfl <;> rfl

theorem fractionOf_readsAlone (negative : Bool) (n : Nat) (e : Int) :
    ReadsAlone (fractionOf negative n e) := by
  intro s x r h
  have stays (hs : floatOfParts negative n e s = .ok (x, r)) : ∃ raw, s = raw ++ r ∧
      (∀ c ∈ raw, isBare c = true) ∧
      ∀ t, goesOn t = false → fractionOf negative n e (raw ++ t) = .ok (x, t) := by
    obtain ⟨rfl, hall⟩ := floatOfParts_eq_ok hs
    refine ⟨[], rfl, fun _ hc => absurd hc List.not_mem_nil, fun t ht => ?_⟩
    rw [List.nil_append, fractionOf_of_goesOn ht]
    exact hall t
  cases s with
  | nil => exact stays h
  | cons c s =>
    by_cases hc : isExponentMark c = true
    · simp only [fractionOf, hc, if_true] at h
      obtain ⟨raw, rfl, hraw, hall⟩ := readExponent_readsAlone negative n e s x r h
      refine ⟨c :: raw, rfl, ?_, fun t ht => ?_⟩
      · intro d hd
        rcases List.mem_cons.1 hd with rfl | hd
        · exact isBare_of_isExponentMark hc
        · exact hraw d hd
      · simp only [List.cons_append, fractionOf, hc, if_true]
        exact hall t ht
    · simp only [fractionOf, hc, if_false, Bool.false_eq_true] at h
      exact stays h

theorem readFractionOrExponent_point {negative : Bool} {n : Nat} {e : Int} {ds t : List Char}
    (hne : ds ≠ []) (hd : ∀ c ∈ ds, c.isDigit = true) (ht : t.takeWhile Char.isDigit = []) :
    readFractionOrExponent negative n e ('.' :: (ds ++ t)) =
      some (fractionOf negative (absorb n ds).1
        (e - (ds.length - (absorb n ds).2.length : Nat)) t) := by
  have htake := takeWhile_digits_append hd ht
  have hdrop := dropWhile_digits_append hd ht
  cases t with
  | nil =>
    rw [List.append_nil] at htake hdrop ⊢
    simp [readFractionOrExponent, fractionOf, htake, hdrop, hne]
  | cons c t =>
    by_cases hc : isExponentMark c = true
    · simp_all [readFractionOrExponent, fractionOf, isExponentMark]
    · simp_all [readFractionOrExponent, fractionOf, isExponentMark]

theorem readFractionOrExponent_mark {negative : Bool} {n : Nat} {e : Int} {c : Char}
    {t : List Char} (hc : isExponentMark c = true) :
    readFractionOrExponent negative n e (c :: t) = some (readExponent negative n e t) := by
  simp only [isExponentMark, Bool.or_eq_true, decide_eq_true_eq] at hc
  rcases hc with rfl | rfl <;> rfl

theorem readFractionOrExponent_eq_none {negative : Bool} {n : Nat} {e : Int} {t : List Char}
    (h : goesOn t = false) : readFractionOrExponent negative n e t = none := by
  cases t with
  | nil => rfl
  | cons c t =>
    have hp : c ≠ '.' := by
      rintro rfl
      cases h
    have hc := not_isExponentMark_of_goesOn h
    rw [isExponentMark] at hc
    simp [readFractionOrExponent, hc]

theorem digit_of_readFractionOrExponent_point {negative : Bool} {n : Nat} {e : Int}
    {s r : List Char} {x : Number}
    (h : readFractionOrExponent negative n e ('.' :: s) = some (.ok (x, r))) :
    ∃ c u, s = c :: u ∧ c.isDigit = true := by
  cases s with
  | nil => simp [readFractionOrExponent, peeked] at h
  | cons c u =>
    cases hc : c.isDigit with
    | false => simp [readFractionOrExponent, peeked, hc] at h
    | true => exact ⟨c, u, rfl, hc⟩

theorem readFractionOrExponent_eq_ok {negative : Bool} {n : Nat} {e : Int} {s r : List Char}
    {x : Number} (h : readFractionOrExponent negative n e s = some (.ok (x, r))) :
    ∃ c raw, s = c :: raw ++ r ∧ c.isDigit = false ∧ (∀ d ∈ c :: raw, isBare d = true) ∧
      ∀ t, goesOn t = false →
        readFractionOrExponent negative n e (c :: raw ++ t) = some (.ok (x, t)) := by
  cases s with
  | nil => cases h
  | cons c s =>
    by_cases hp : c = '.'
    · subst hp
      obtain ⟨c, u, rfl, hc⟩ := digit_of_readFractionOrExponent_point h
      obtain ⟨ds, t, hu, hd, ht⟩ := exists_digits_append u hc
      rw [hu, readFractionOrExponent_point (List.cons_ne_nil c ds) hd ht] at h
      obtain ⟨raw, rfl, hraw, hall⟩ := fractionOf_readsAlone _ _ _ t x r (Option.some.inj h)
      refine ⟨'.', c :: ds ++ raw, by rw [hu]; simp, rfl, ?_, fun w hw => ?_⟩
      · intro d hmem
        rcases List.mem_cons.1 hmem with rfl | hmem
        · rfl
        · rcases List.mem_append.1 hmem with hmem | hmem
          · exact isBare_of_isDigit (hd d hmem)
          · exact hraw d hmem
      · rw [List.cons_append, List.append_assoc,
          readFractionOrExponent_point (List.cons_ne_nil c ds) hd (takeWhile_isDigit_append ht hw),
          hall w hw]
    · by_cases hm : isExponentMark c = true
      · rw [readFractionOrExponent_mark hm] at h
        obtain ⟨raw, rfl, hraw, hall⟩ := readExponent_readsAlone _ _ _ s x r (Option.some.inj h)
        refine ⟨c, raw, rfl, ?_, ?_, fun w hw => ?_⟩
        · simp only [isExponentMark, Bool.or_eq_true, decide_eq_true_eq] at hm
          rcases hm with rfl | rfl <;> rfl
        · intro d hd
          rcases List.mem_cons.1 hd with rfl | hd
          · exact isBare_of_isExponentMark hm
          · exact hraw d hd
        · rw [List.cons_append, readFractionOrExponent_mark hm, hall w hw]
      · rw [isExponentMark] at hm
        simp [readFractionOrExponent, hm] at h

def numberOf (negative : Bool) (ds t : List Char) : Step Number :=
  match readFractionOrExponent negative (absorb 0 ds).1 (absorb 0 ds).2.length t with
  | some result => result
  | none =>
    if (absorb 0 ds).2.isEmpty then .ok (integer negative (absorb 0 ds).1, t)
    else floatOfParts negative (absorb 0 ds).1 (absorb 0 ds).2.length t

theorem numberOf_eq_ok {negative : Bool} {ds s r : List Char} {x : Number}
    (h : numberOf negative ds s = .ok (x, r)) :
    ∃ raw, s = raw ++ r ∧ (∀ c ∈ raw, isBare c = true) ∧
      ∀ t, goesOn t = false → numberOf negative ds (raw ++ t) = .ok (x, t) := by
  unfold numberOf at h
  split at h
  · rename_i result hresult
    subst h
    obtain ⟨c, raw, rfl, -, hraw, hall⟩ := readFractionOrExponent_eq_ok hresult
    exact ⟨c :: raw, rfl, hraw, fun t ht => by rw [numberOf, hall t ht]⟩
  · have whole : r = s ∧ ∀ t, goesOn t = false → numberOf negative ds t = .ok (x, t) := by
      split at h
      · rename_i hleft
        simp only [Except.ok.injEq, Prod.mk.injEq] at h
        refine ⟨h.2.symm, fun t ht => ?_⟩
        rw [numberOf, readFractionOrExponent_eq_none ht]
        simp only [hleft, if_true, h.1]
      · rename_i hleft
        obtain ⟨rfl, hall⟩ := floatOfParts_eq_ok h
        refine ⟨rfl, fun t ht => ?_⟩
        rw [numberOf, readFractionOrExponent_eq_none ht]
        simp only [hleft, if_false, Bool.false_eq_true]
        exact hall t
    obtain ⟨rfl, hall⟩ := whole
    exact ⟨[], rfl, fun _ hc => absurd hc List.not_mem_nil, hall⟩

/-- The digits in front of a fraction: a zero stands alone. -/
def Leading (ds : List Char) : Prop :=
  ∃ c r, ds = c :: r ∧ (∀ d ∈ ds, d.isDigit = true) ∧ (c = '0' → r = [])

theorem isDigit_head_eq_false {t : List Char} (ht : t.takeWhile Char.isDigit = []) :
    (t.head?.map Char.isDigit).getD false = false := by
  cases t with
  | nil => rfl
  | cons c t =>
    cases hc : c.isDigit with
    | false => simp [hc]
    | true => simp [hc] at ht

theorem readNumber_append {negative : Bool} {ds t : List Char} (hd : Leading ds)
    (ht : t.takeWhile Char.isDigit = []) :
    readNumber negative (ds ++ t) = numberOf negative ds t := by
  obtain ⟨c, r, rfl, hall, hz⟩ := hd
  have hc := hall c List.mem_cons_self
  by_cases h0 : c = '0'
  · rw [hz h0]
    subst h0
    have hhead := isDigit_head_eq_false ht
    cases hx : readFractionOrExponent negative (absorb 0 ['0']).1 (absorb 0 ['0']).2.length t <;>
      simp [readNumber, numberOf, hhead, hx]
  · have htake := takeWhile_digits_append hall ht
    have hdrop := dropWhile_digits_append hall ht
    rw [List.cons_append] at htake hdrop ⊢
    cases hx : readFractionOrExponent negative (absorb 0 (c :: r)).1
      (absorb 0 (c :: r)).2.length t <;>
      simp [readNumber, numberOf, hc, h0, htake, hdrop, hx]

theorem readNumber_eq_ok {negative : Bool} {s r : List Char} {x : Number}
    (h : readNumber negative s = .ok (x, r)) :
    ∃ ds t, s = ds ++ t ∧ Leading ds ∧ t.takeWhile Char.isDigit = [] := by
  cases s with
  | nil => simp [readNumber, stopped] at h
  | cons c s =>
    cases hc : c.isDigit with
    | false => simp [readNumber, stopped, hc] at h
    | true =>
      by_cases h0 : c = '0'
      · subst h0
        refine ⟨['0'], s, rfl, ⟨'0', [], rfl, by simp [hc], fun _ => rfl⟩, ?_⟩
        cases s with
        | nil => rfl
        | cons d s =>
          cases hd : d.isDigit with
          | false => simp [hd]
          | true => simp [readNumber, peeked, hd] at h
      · obtain ⟨ds, t, hs, hall, ht⟩ := exists_digits_append s hc
        exact ⟨c :: ds, t, hs, ⟨c, ds, rfl, hall, fun h => absurd h h0⟩, ht⟩

theorem readNumber_readsAlone (negative : Bool) : ReadsAlone (readNumber negative) := by
  intro s x r h
  obtain ⟨ds, t, rfl, hd, ht⟩ := readNumber_eq_ok h
  rw [readNumber_append hd ht] at h
  obtain ⟨raw, rfl, hraw, hall⟩ := numberOf_eq_ok h
  refine ⟨ds ++ raw, by rw [List.append_assoc], ?_, fun w hw => ?_⟩
  · intro c hc
    rcases List.mem_append.1 hc with hc | hc
    · obtain ⟨-, -, -, hall, -⟩ := hd
      exact isBare_of_isDigit (hall c hc)
    · exact hraw c hc
  · rw [List.append_assoc, readNumber_append hd (takeWhile_isDigit_append ht hw), hall w hw]

theorem readWord_eq_ok {w s r : List Char} (h : readWord w s = .ok r) : s = w ++ r := by
  induction w generalizing s with
  | nil =>
    simp only [readWord, Except.ok.injEq] at h
    rw [h, List.nil_append]
  | cons c w ih =>
    cases s with
    | nil => simp [readWord, stopped] at h
    | cons d s =>
      by_cases hd : d = c
      · simp only [readWord, hd, if_true] at h
        rw [ih h, hd, List.cons_append]
      · simp [readWord, stopped, hd] at h

theorem readWord_append (w t : List Char) : readWord w (w ++ t) = .ok t := by
  induction w with
  | nil => rfl
  | cons c w ih => simpa [readWord] using ih

end GatewayFleet.Json
