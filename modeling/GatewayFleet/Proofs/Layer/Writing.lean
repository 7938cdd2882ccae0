import GatewayFleet.Proofs.Json.Grammar
import GatewayFleet.Proofs.Layer.Commas

/-! Writings of the tokens of strict JSON. A style tells which liberties a writing takes: comments
between tokens, commas in front of brackets that close, names of members without quotes. Without
any of them the writing is strict text. -/

namespace GatewayFleet.Layer

open Json (Token Mark Space Spaced Literal Stops Placed isSpace isBare goesOn)

structure Style where
  comments : Bool
  commas : Bool
  bareKeys : Bool

def Style.permissive : Style := ⟨true, true, true⟩

/-- What stands between two tokens: blank characters and, in some styles, comments. A comment runs
to the end of its line, or to the first mark that closes it. -/
inductive Gap (comments : Bool) : List Char → Prop
  | nil : Gap comments []
  | space {c : Char} {g : List Char} : isSpace c = true → Gap comments g → Gap comments (c :: g)
  | line {body g : List Char} : comments = true → '\n' ∉ body → Gap comments g →
      Gap comments ('/' :: '/' :: (body ++ '\n' :: g))
  | block {body g : List Char} : comments = true → ¬ ['*', '/'] <:+: body → Gap comments g →
      Gap comments ('/' :: '*' :: (body ++ '*' :: '/' :: g))

def IsIdentifier (raw : List Char) : Prop :=
  ∃ c r, raw = c :: r ∧ isKeyStart c = true ∧ ∀ d ∈ r, isKeyChar d = true

/-- The text writes the tokens in the style. A quoted token in front of a colon is the name of a
member. -/
inductive Written (σ : Style) : List Token → List Char → Prop
  | done {g : List Char} : Gap σ.comments g → Written σ [] g
  | token {k : Token} {ts : List Token} {g t : List Char} : Gap σ.comments g →
      (k.isBare = true → goesOn t = false) → Written σ ts t →
        Written σ (k :: ts) (g ++ (k.text ++ t))
  | comma {m : Mark} {ts : List Token} {g t : List Char} : σ.commas = true →
      Gap σ.comments g → m.closes = true → Written σ (.mark m :: ts) t →
        Written σ (.mark m :: ts) (g ++ ',' :: t)
  | bareKey {raw : List Char} {h : Literal raw} {ts : List Token} {g t : List Char} :
      σ.bareKeys = true → Gap σ.comments g → IsIdentifier raw →
        Written σ (.mark .colon :: ts) t →
          Written σ (.quoted raw h :: .mark .colon :: ts) (g ++ (raw ++ t))

theorem Gap.of_space {b : Bool} {g : List Char} (h : Space g) : Gap b g := by
  induction g with
  | nil => exact .nil
  | cons c g ih =>
    exact .space (h c List.mem_cons_self) (ih fun d hd => h d (List.mem_cons_of_mem _ hd))

theorem Gap.isSpace {b : Bool} {g : List Char} (h : Gap b g) (hb : b = false) : Space g := by
  induction h with
  | nil => exact fun _ hc => absurd hc List.not_mem_nil
  | space hc _ ih =>
    intro d hd
    rcases List.mem_cons.1 hd with rfl | hd
    · exact hc
    · exact ih d hd
  | line h _ _ _ => cases h.symm.trans hb
  | block h _ _ _ => cases h.symm.trans hb

theorem Written.of_spaced {σ : Style} {ts : List Token} {s : List Char} (h : Spaced ts s) :
    Written σ ts s := by
  induction h with
  | done hg => exact .done (.of_space hg)
  | token hg hk _ ih => exact .token (.of_space hg) hk ih

theorem Written.spaced {ts : List Token} {s : List Char}
    (h : Written ⟨false, false, false⟩ ts s) : Spaced ts s := by
  induction h with
  | done hg => exact .done (hg.isSpace rfl)
  | token hg hk _ ih => exact .token (hg.isSpace rfl) hk ih
  | comma h _ _ _ _ => cases h
  | bareKey h _ _ _ _ => cases h

theorem Gap.append {b : Bool} {g g' : List Char} (hg : Gap b g) (hg' : Gap b g') :
    Gap b (g ++ g') := by
  induction hg with
  | nil => exact hg'
  | space hc _ ih => exact .space hc ih
  | @line body g h hbody _ ih =>
    rw [List.cons_append, List.cons_append, List.append_assoc]
    exact .line h hbody ih
  | @block body g h hbody _ ih =>
    rw [List.cons_append, List.cons_append, List.append_assoc]
    exact .block h hbody ih

theorem Written.gap_append {σ : Style} {ts : List Token} {g t : List Char}
    (hg : Gap σ.comments g) (h : Written σ ts t) : Written σ ts (g ++ t) := by
  cases h with
  | done hg' => exact .done (hg.append hg')
  | token hg' hk ht =>
    rw [← List.append_assoc]
    exact .token (hg.append hg') hk ht
  | comma hc hg' hm ht =>
    rw [← List.append_assoc]
    exact .comma hc (hg.append hg') hm ht
  | bareKey hb hg' hraw ht =>
    rw [← List.append_assoc]
    exact .bareKey hb (hg.append hg') hraw ht

theorem Gap.goesOn_append {b : Bool} {g s : List Char} (hg : Gap b g) (hs : goesOn s = false) :
    goesOn (g ++ s) = false := by
  cases hg with
  | nil => exact hs
  | space hc _ => exact Json.not_isBare_of_isSpace hc
  | line _ _ _ => rfl
  | block _ _ _ => rfl

theorem Written.goesOn_of_stops {σ : Style} {ts : List Token} {t : List Char}
    (h : Written σ ts t) (hs : Stops ts) : goesOn t = false := by
  cases h with
  | done hg =>
    have hend := hg.goesOn_append (s := []) rfl
    rwa [List.append_nil] at hend
  | token hg _ _ =>
    refine hg.goesOn_append ?_
    cases hs with
    | comma => rfl
    | @closes m _ _ => exact Json.not_isBare_char m
  | comma _ hg _ _ => exact hg.goesOn_append rfl
  | bareKey _ _ _ _ => nomatch hs

def isActive (c : Char) : Bool := c = '/' || c = ',' || c = '{'

/-- A scanner that copies the insides of literals and, outside of them, whatever no pass reacts
to. -/
structure Copies (f : Scan → List Char → List Char) : Prop where
  inside : ∀ scan c r, scan ≠ .outside → f scan (c :: r) = c :: f (scan.next c) r
  outside : ∀ c r, isActive c = false → f .outside (c :: r) = c :: f (Scan.outside.next c) r

def NoComment (c : Char) (rest : List Char) : Prop :=
  c = '/' → rest.head? ≠ some '/' ∧ rest.head? ≠ some '*'

theorem stripComments_cons {scan : Scan} {c : Char} {rest : List Char}
    (h : scan = .outside → NoComment c rest) :
    stripComments (.text scan) (c :: rest) = c :: stripComments (.text (scan.next c)) rest := by
  cases scan with
  | inside q => rw [stripComments] <;> simp
  | escaped q => rw [stripComments] <;> simp
  | outside =>
    rw [stripComments]
    · rintro r - rfl rfl
      exact (h rfl rfl).1 rfl
    · rintro r - rfl rfl
      exact (h rfl rfl).2 rfl

theorem stripComments_copies : Copies fun scan => stripComments (.text scan) where
  inside scan c r h := stripComments_cons fun hscan => absurd hscan h
  outside c r h := by
    refine stripComments_cons fun _ => ?_
    rintro rfl
    cases h

theorem dropCommas_copies : Copies dropCommas where
  inside scan c r h := by simp [dropCommas, h]
  outside c r h := by
    have hc : c ≠ ',' := by
      rintro rfl
      cases h
    simp [dropCommas, hc]

theorem not_opensKey_of_not_isActive {c : Char} (h : isActive c = false) : opensKey c = false := by
  rw [Bool.eq_false_iff]
  intro ho
  simp only [opensKey, Bool.or_eq_true, decide_eq_true_eq] at ho
  rcases ho with rfl | rfl <;> cases h

theorem quoteKeys_copies : Copies fun scan => quoteKeys (.plain scan) where
  inside scan c r h := by simp [quoteKeys, Spot.after, h]
  outside c r h := by simp [quoteKeys, Spot.after, not_opensKey_of_not_isActive h]

namespace Copies

variable {f : Scan → List Char → List Char}

theorem literal (hf : Copies f) {raw : List Char} (h : Literal raw) (r : List Char) :
    f (.inside '"') (raw ++ '"' :: r) = raw ++ '"' :: f .outside r := by
  induction h with
  | nil => exact hf.inside _ _ _ (Scan.inside_ne_outside _)
  | plain hq hb _ ih =>
    rw [List.cons_append, hf.inside _ _ _ (Scan.inside_ne_outside _)]
    simp [Scan.next, hq, hb, ih]
  | escaped _ ih =>
    rw [List.cons_append, List.cons_append, hf.inside _ _ _ (Scan.inside_ne_outside _)]
    simp only [Scan.next, if_true]
    rw [hf.inside _ _ _ (Scan.escaped_ne_outside _)]
    simp [Scan.next, ih]

theorem append (hf : Copies f) {w : List Char}
    (hw : ∀ c ∈ w, isActive c = false ∧ isQuote c = false) (r : List Char) :
    f .outside (w ++ r) = w ++ f .outside r := by
  induction w with
  | nil => rfl
  | cons c w ih =>
    obtain ⟨ha, hq⟩ := hw c List.mem_cons_self
    rw [List.cons_append, hf.outside c _ ha]
    simp [Scan.next, hq, ih fun d hd => hw d (List.mem_cons_of_mem _ hd)]

theorem quoted (hf : Copies f) {raw : List Char} (h : Literal raw) (r : List Char) :
    f .outside ('"' :: (raw ++ ['"']) ++ r) = '"' :: (raw ++ ['"']) ++ f .outside r := by
  rw [List.cons_append, List.append_assoc, hf.outside _ _ rfl]
  exact congrArg _ ((hf.literal h r).trans (by simp))

end Copies

theorem copied_of_ne {c : Char} (hs : c ≠ '/') (hc : c ≠ ',') (ho : c ≠ '{') (hd : c ≠ '"')
    (hq : c ≠ '\'') : isActive c = false ∧ isQuote c = false := by
  simp [isActive, isQuote, hs, hc, ho, hd, hq]

theorem isBlank_copied {c : Char} (h : Text.isBlank c = true) :
    isActive c = false ∧ isQuote c = false := by
  apply copied_of_ne <;> rintro rfl <;> cases h

theorem isBlank_of_isSpace {c : Char} (h : isSpace c = true) : Text.isBlank c = true := by
  rcases Json.isSpace_iff.1 h with rfl | rfl | rfl | rfl <;> decide

theorem isSpace_copied {c : Char} (h : isSpace c = true) :
    isActive c = false ∧ isQuote c = false :=
  isBlank_copied (isBlank_of_isSpace h)

theorem isBare_copied {c : Char} (h : isBare c = true) :
    isActive c = false ∧ isQuote c = false := by
  apply copied_of_ne <;> rintro rfl <;> exact absurd h (by decide)

theorem isKeyChar_copied {c : Char} (h : isKeyChar c = true) :
    isActive c = false ∧ isQuote c = false := by
  apply copied_of_ne <;> rintro rfl <;> exact absurd h (by decide)

end GatewayFleet.Layer
