import GatewayFleet.Json.Reader

/-! The tokens of strict JSON and the texts that spell them. A text spells its tokens one after the
other with blank characters in between; a word or a number goes on for as long as its characters
do. No text spells two different lists of tokens. -/

namespace GatewayFleet.Json

inductive Mark
  | openList | closeList | openMapping | closeMapping | comma | colon
deriving DecidableEq

def Mark.char : Mark → Char
  | .openList => '['
  | .closeList => ']'
  | .openMapping => '{'
  | .closeMapping => '}'
  | .comma => ','
  | .colon => ':'

def Mark.closes : Mark → Bool
  | .closeList | .closeMapping => true
  | _ => false

theorem Mark.char_injective : Function.Injective Mark.char := by
  intro m n h
  cases m <;> cases n <;> first | rfl | exact absurd h (by decide)

def isBare (c : Char) : Bool := c.isAlphanum || c = '+' || c = '-' || c = '.'

/-- Whether a word or number in front of a text would take more of it. -/
def goesOn : List Char → Bool
  | [] => false
  | c :: _ => isBare c

def Bare (raw : List Char) : Prop := raw ≠ [] ∧ ∀ c ∈ raw, isBare c = true

/-- What may stand between two double quotes: a backslash takes the next character along. -/
inductive Literal : List Char → Prop
  | nil : Literal []
  | plain {c : Char} {raw : List Char} : c ≠ '"' → c ≠ '\\' → Literal raw → Literal (c :: raw)
  | escaped {c : Char} {raw : List Char} : Literal raw → Literal ('\\' :: c :: raw)

inductive Token
  | mark (m : Mark)
  | quoted (raw : List Char) (closed : Literal raw)
  | bare (raw : List Char) (proper : Bare raw)

namespace Token

def text : Token → List Char
  | .mark m => [m.char]
  | .quoted raw _ => '"' :: (raw ++ ['"'])
  | .bare raw _ => raw

def isBare : Token → Bool
  | .bare _ _ => true
  | _ => false

end Token

theorem Literal.append {a b : List Char} (ha : Literal a) (hb : Literal b) : Literal (a ++ b) := by
  induction ha with
  | nil => exact hb
  | plain hq hs _ ih => exact .plain hq hs ih
  | escaped _ ih => exact .escaped ih

theorem Literal.append_quote_inj {a b r t : List Char} (ha : Literal a) (hb : Literal b)
    (h : a ++ '"' :: r = b ++ '"' :: t) : a = b ∧ r = t := by
  induction ha generalizing b with
  | nil =>
    cases hb with
    | nil => simpa using h
    | plain hq _ _ => exact absurd (List.cons.inj h).1.symm hq
    | escaped _ => exact absurd (List.cons.inj h).1 (by decide)
  | plain hq hs _ ih =>
    cases hb with
    | nil => exact absurd (List.cons.inj h).1 hq
    | plain _ _ hb =>
      obtain ⟨hc, h⟩ := List.cons.inj h
      obtain ⟨ha, hr⟩ := ih hb h
      exact ⟨by rw [hc, ha], hr⟩
    | escaped _ => exact absurd (List.cons.inj h).1 hs
  | escaped _ ih =>
    cases hb with
    | nil => exact absurd (List.cons.inj h).1 (by decide)
    | plain _ hs _ => exact absurd (List.cons.inj h).1.symm hs
    | escaped hb =>
      obtain ⟨hc, h⟩ := List.cons.inj (List.cons.inj h).2
      obtain ⟨ha, hr⟩ := ih hb h
      exact ⟨by rw [hc, ha], hr⟩

theorem bare_append_inj {a b r t : List Char} (ha : ∀ c ∈ a, isBare c = true)
    (hb : ∀ c ∈ b, isBare c = true) (hr : goesOn r = false) (ht : goesOn t = false)
    (h : a ++ r = b ++ t) : a = b ∧ r = t := by
  induction a generalizing b with
  | nil =>
    cases b with
    | nil => exact ⟨rfl, h⟩
    | cons c b =>
      rw [List.nil_append] at h
      rw [h] at hr
      exact absurd (hb c List.mem_cons_self) (by simpa [goesOn] using hr)
  | cons c a ih =>
    cases b with
    | nil =>
      rw [List.nil_append] at h
      rw [← h] at ht
      exact absurd (ha c List.mem_cons_self) (by simpa [goesOn] using ht)
    | cons d b =>
      obtain ⟨hc, h⟩ := List.cons.inj h
      obtain ⟨ha, hr⟩ := ih (fun x hx => ha x (List.mem_cons_of_mem _ hx))
        (fun x hx => hb x (List.mem_cons_of_mem _ hx)) h
      exact ⟨by rw [hc, ha], hr⟩

theorem isBare_iff {c : Char} : isBare c = true ↔
    (65 ≤ c.toNat ∧ c.toNat ≤ 90) ∨ (97 ≤ c.toNat ∧ c.toNat ≤ 122) ∨
      (48 ≤ c.toNat ∧ c.toNat ≤ 57) ∨ c.toNat = 43 ∨ c.toNat = 45 ∨ c.toNat = 46 := by
  have hupper : c.isUpper = decide (65 ≤ c.val ∧ c.val ≤ 90) := rfl
  have hlower : c.isLower = (decide (97 ≤ c.val) && decide (c.val ≤ 122)) := rfl
  have halpha : c.isAlpha = (c.isUpper || c.isLower) := rfl
  simp [isBare, Char.isAlphanum, halpha, hupper, hlower, Char.isDigit, UInt32.le_iff_toNat_le,
    ← Char.toNat_val, ← Char.toNat_inj, or_assoc]

theorem isBare_of_isDigit {c : Char} (h : c.isDigit = true) : isBare c = true := by
  simp [isBare, Char.isAlphanum, h]

theorem isSpace_iff {c : Char} :
    isSpace c = true ↔ c = ' ' ∨ c = '\n' ∨ c = '\t' ∨ c = '\r' := by
  simp only [isSpace, Bool.or_eq_true, decide_eq_true_eq, or_assoc]

theorem not_isSpace_of_isBare {c : Char} (h : isBare c = true) : isSpace c = false := by
  rw [Bool.eq_false_iff]
  intro hs
  rcases isSpace_iff.1 hs with rfl | rfl | rfl | rfl <;> exact absurd h (by decide)

theorem not_isSpace_char (m : Mark) : isSpace m.char = false := by
  cases m <;> rfl

theorem not_isBare_char (m : Mark) : isBare m.char = false := by
  cases m <;> rfl

theorem not_isBare_of_isSpace {c : Char} (h : isSpace c = true) : isBare c = false := by
  rw [Bool.eq_false_iff]
  intro hb
  rw [not_isSpace_of_isBare hb] at h
  exact Bool.false_ne_true h

def Space (g : List Char) : Prop := ∀ c ∈ g, isSpace c = true

theorem skipSpace_append {g : List Char} (hg : Space g) (s : List Char) :
    skipSpace (g ++ s) = skipSpace s :=
  List.dropWhile_append_of_pos hg

theorem skipSpace_cons {c : Char} (hc : isSpace c = false) (s : List Char) :
    skipSpace (c :: s) = c :: s := by
  simp [skipSpace, hc]

theorem skipSpace_of_space {g : List Char} (hg : Space g) : skipSpace g = [] := by
  simpa [skipSpace] using skipSpace_append hg []

theorem exists_space_append_skipSpace (s : List Char) : ∃ g, Space g ∧ s = g ++ skipSpace s :=
  ⟨s.takeWhile isSpace, List.all_eq_true.1 List.all_takeWhile,
    (List.takeWhile_append_dropWhile).symm⟩

theorem goesOn_space_append {g s : List Char} (hg : Space g) (hs : goesOn s = false) :
    goesOn (g ++ s) = false := by
  cases g with
  | nil => exact hs
  | cons c g => exact not_isBare_of_isSpace (hg c List.mem_cons_self)

theorem goesOn_of_skipSpace {s : List Char} (h : goesOn (skipSpace s) = false) :
    goesOn s = false := by
  obtain ⟨g, hg, hs⟩ := exists_space_append_skipSpace s
  rw [hs]
  exact goesOn_space_append hg h

theorem goesOn_of_skipSpace_cons {c : Char} {s t : List Char} (h : skipSpace s = c :: t)
    (hc : isBare c = false) : goesOn s = false := by
  refine goesOn_of_skipSpace ?_
  rw [h]
  exact hc

/-- The text spells the tokens, with nothing but blank characters around them. -/
inductive Spaced : List Token → List Char → Prop
  | done {g : List Char} : Space g → Spaced [] g
  | token {k : Token} {ts : List Token} {g t : List Char} : Space g →
      (k.isBare = true → goesOn t = false) → Spaced ts t → Spaced (k :: ts) (g ++ (k.text ++ t))

theorem Token.text_eq_cons (k : Token) : ∃ c r, k.text = c :: r ∧ isSpace c = false := by
  cases k with
  | mark m => exact ⟨m.char, [], rfl, not_isSpace_char m⟩
  | quoted raw _ => exact ⟨'"', raw ++ ['"'], rfl, rfl⟩
  | bare raw proper =>
    obtain ⟨hne, hall⟩ := proper
    obtain ⟨c, r, rfl⟩ := List.exists_cons_of_ne_nil hne
    exact ⟨c, r, rfl, not_isSpace_of_isBare (hall c List.mem_cons_self)⟩

theorem skipSpace_text_append (k : Token) (t : List Char) :
    skipSpace (k.text ++ t) = k.text ++ t := by
  obtain ⟨c, r, hk, hc⟩ := k.text_eq_cons
  rw [hk]
  exact skipSpace_cons hc _

theorem Spaced.skipSpace_nil {s : List Char} (h : Spaced [] s) : skipSpace s = [] := by
  cases h with
  | done hg => exact skipSpace_of_space hg

theorem Spaced.skipSpace_cons {k : Token} {ts : List Token} {s : List Char}
    (h : Spaced (k :: ts) s) :
    ∃ t, skipSpace s = k.text ++ t ∧ (k.isBare = true → goesOn t = false) ∧ Spaced ts t := by
  cases h with
  | token hg hk ht =>
    refine ⟨_, ?_, hk, ht⟩
    rw [skipSpace_append hg, skipSpace_text_append]

theorem length_lt_of_skipSpace {k : Token} {s t : List Char} (h : skipSpace s = k.text ++ t) :
    t.length < s.length := by
  have hle := skipSpace_length_le s
  obtain ⟨c, r, hk, -⟩ := k.text_eq_cons
  rw [h, hk, List.length_append, List.length_cons] at hle
  omega

theorem Spaced.skipSpace_mark {m : Mark} {ts : List Token} {s : List Char}
    (h : Spaced (.mark m :: ts) s) :
    ∃ t, skipSpace s = m.char :: t ∧ Spaced ts t ∧ t.length < s.length := by
  obtain ⟨t, hs, -, ht⟩ := h.skipSpace_cons
  exact ⟨t, hs, ht, length_lt_of_skipSpace hs⟩

theorem Spaced.to_skipSpace {ts : List Token} {s : List Char} (h : Spaced ts s) :
    Spaced ts (skipSpace s) := by
  have hnil : Space [] := fun _ hc => absurd hc List.not_mem_nil
  cases h with
  | done hg =>
    rw [skipSpace_of_space hg]
    exact .done hnil
  | token hg hk ht =>
    rw [skipSpace_append hg, skipSpace_text_append]
    exact .token hnil hk ht

theorem Spaced.of_skipSpace {ts : List Token} {s : List Char} (h : Spaced ts (skipSpace s)) :
    Spaced ts s := by
  obtain ⟨g, hg, hs⟩ := exists_space_append_skipSpace s
  generalize skipSpace s = u at h hs
  subst hs
  cases h with
  | done hu => exact .done fun c hc => (List.mem_append.1 hc).elim (hg c) (hu c)
  | token hu hk ht =>
    rw [← List.append_assoc]
    exact .token (fun c hc => (List.mem_append.1 hc).elim (hg c) (hu c)) hk ht

theorem Spaced.cons {k : Token} {ts : List Token} {s t : List Char}
    (hs : skipSpace s = k.text ++ t) (hk : k.isBare = true → goesOn t = false)
    (ht : Spaced ts t) : Spaced (k :: ts) s := by
  refine .of_skipSpace ?_
  rw [hs]
  exact .token (g := []) (fun _ hc => absurd hc List.not_mem_nil) hk ht

theorem Mark.char_ne_quote (m : Mark) : m.char ≠ '"' := by
  cases m <;> decide

theorem Bare.ne_cons {raw r t : List Char} {c : Char} (h : Bare raw) (hc : isBare c = false) :
    raw ++ r ≠ c :: t := by
  obtain ⟨hne, hall⟩ := h
  obtain ⟨d, raw, rfl⟩ := List.exists_cons_of_ne_nil hne
  intro heq
  obtain ⟨rfl, -⟩ := List.cons.inj heq
  rw [hall d List.mem_cons_self] at hc
  exact Bool.false_ne_true hc.symm

theorem Token.text_append_inj {k l : Token} {r t : List Char} (h : k.text ++ r = l.text ++ t)
    (hk : k.isBare = true → goesOn r = false) (hl : l.isBare = true → goesOn t = false) :
    k = l ∧ r = t := by
  cases k with
  | mark m =>
    cases l with
    | mark n =>
      obtain ⟨hc, hr⟩ := List.cons.inj h
      exact ⟨by rw [Mark.char_injective hc], hr⟩
    | quoted b _ => exact absurd (List.cons.inj h).1 m.char_ne_quote
    | bare b hb => exact absurd h.symm (hb.ne_cons (not_isBare_char m))
  | quoted a ha =>
    cases l with
    | mark n => exact absurd (List.cons.inj h).1.symm n.char_ne_quote
    | quoted b hb =>
      have h : a ++ ['"'] ++ r = b ++ ['"'] ++ t := (List.cons.inj h).2
      rw [List.append_assoc, List.append_assoc] at h
      obtain ⟨rfl, rfl⟩ := ha.append_quote_inj hb h
      exact ⟨rfl, rfl⟩
    | bare b hb => exact absurd h.symm (hb.ne_cons rfl)
  | bare a ha =>
    cases l with
    | mark n => exact absurd h (ha.ne_cons (not_isBare_char n))
    | quoted b _ => exact absurd h (ha.ne_cons rfl)
    | bare b hb =>
      obtain ⟨rfl, rfl⟩ := bare_append_inj ha.2 hb.2 (hk rfl) (hl rfl) h
      exact ⟨rfl, rfl⟩

theorem Spaced.unique {ts us : List Token} {s : List Char} (ht : Spaced ts s)
    (hu : Spaced us s) : ts = us := by
  induction ts generalizing us s with
  | nil =>
    cases us with
    | nil => rfl
    | cons l us =>
      obtain ⟨t, hs, -, -⟩ := hu.skipSpace_cons
      obtain ⟨c, r, hl, -⟩ := l.text_eq_cons
      rw [ht.skipSpace_nil, hl] at hs
      cases hs
  | cons k ts ih =>
    obtain ⟨t, hs, hk, ht⟩ := ht.skipSpace_cons
    cases us with
    | nil =>
      obtain ⟨c, r, hk, -⟩ := k.text_eq_cons
      rw [hu.skipSpace_nil, hk] at hs
      cases hs
    | cons l us =>
      obtain ⟨t', hs', hl, hu⟩ := hu.skipSpace_cons
      obtain ⟨rfl, rfl⟩ := Token.text_append_inj (hs.symm.trans hs') hk hl
      rw [ih ht hu]

end GatewayFleet.Json
