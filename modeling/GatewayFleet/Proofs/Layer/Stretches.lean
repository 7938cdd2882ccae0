import GatewayFleet.Proofs.Layer.Writing

/-! The stretches of a text in the dialect: quoted literals, comments, and the characters outside of
both. A pass over a text that copies the insides of literals keeps every literal as a stretch of its
own. -/

namespace GatewayFleet.Layer

variable {c : Char} {s rest w : List Char} {scan : Scan} {comments : Bool}

/-- The rest of a literal, with the quote that ends it if there is one, and the text behind it. -/
def literalSpan : Scan → List Char → List Char × List Char
  | _, [] => ([], [])
  | scan, c :: rest =>
    if scan.next c = .outside then ([c], rest)
    else (c :: (literalSpan (scan.next c) rest).1, (literalSpan (scan.next c) rest).2)

theorem literalSpan_append (scan : Scan) (s : List Char) :
    (literalSpan scan s).1 ++ (literalSpan scan s).2 = s := by
  induction s generalizing scan with
  | nil => rfl
  | cons c rest ih =>
    rw [literalSpan]
    split
    · rfl
    · exact congrArg (c :: ·) (ih (scan.next c))

theorem literalSpan_length (scan : Scan) (s : List Char) :
    (literalSpan scan s).2.length ≤ s.length := by
  have hlength := congrArg List.length (literalSpan_append scan s)
  rw [List.length_append] at hlength
  omega

/-- The literal is found again in front of any other text, unless it is cut off by the end. -/
theorem literalSpan_replace (scan : Scan) (s : List Char) {t : List Char}
    (h : (literalSpan scan s).2 = [] → t = []) :
    literalSpan scan ((literalSpan scan s).1 ++ t) = ((literalSpan scan s).1, t) := by
  induction s generalizing scan with
  | nil =>
    rw [h rfl]
    rfl
  | cons c rest ih =>
    by_cases hc : scan.next c = .outside
    · simp [literalSpan, hc]
    · simp only [literalSpan, hc, if_false] at h ⊢
      rw [List.cons_append, literalSpan, if_neg hc, ih (scan.next c) h]

def blockSpan : List Char → List Char × List Char
  | [] => ([], [])
  | '*' :: '/' :: rest => (['*', '/'], rest)
  | c :: rest => (c :: (blockSpan rest).1, (blockSpan rest).2)

theorem blockSpan_append (s : List Char) : (blockSpan s).1 ++ (blockSpan s).2 = s := by
  induction s using blockSpan.induct with
  | case1 => rfl
  | case2 rest => rfl
  | case3 c rest hc ih =>
    rw [blockSpan]
    · exact congrArg (c :: ·) ih
    · exact hc

def commentSpan? : Bool → List Char → Option (List Char × List Char)
  | true, '/' :: '/' :: rest =>
    some ('/' :: '/' :: rest.takeWhile (· ≠ '\n'), rest.dropWhile (· ≠ '\n'))
  | true, '/' :: '*' :: rest => some ('/' :: '*' :: (blockSpan rest).1, (blockSpan rest).2)
  | _, _ => none

theorem append_of_commentSpan? (h : commentSpan? comments s = some (w, rest)) : w ++ rest = s := by
  unfold commentSpan? at h
  split at h
  · obtain ⟨rfl, rfl⟩ := Prod.mk.inj (Option.some.inj h)
    rw [List.cons_append, List.cons_append, List.takeWhile_append_dropWhile]
  · obtain ⟨rfl, rfl⟩ := Prod.mk.inj (Option.some.inj h)
    rw [List.cons_append, List.cons_append, blockSpan_append]
  · cases h

theorem length_of_commentSpan? (h : commentSpan? comments s = some (w, rest)) :
    rest.length < s.length := by
  have happend := append_of_commentSpan? h
  have hw : w ≠ [] := by
    unfold commentSpan? at h
    split at h
    · exact (Prod.mk.inj (Option.some.inj h)).1 ▸ List.cons_ne_nil _ _
    · exact (Prod.mk.inj (Option.some.inj h)).1 ▸ List.cons_ne_nil _ _
    · cases h
  rw [← happend, List.length_append]
  have hpos := List.length_pos_iff.2 hw
  omega

inductive Stretch
  | literal (w : List Char)
  | comment (w : List Char)
  | bare (c : Char)
deriving DecidableEq

def Stretch.text : Stretch → List Char
  | .literal w | .comment w => w
  | .bare c => [c]

/-- A text cut into its literals, its comments where they count, and its other characters. -/
def stretches (comments : Bool) (s : List Char) : List Stretch :=
  match s with
  | [] => []
  | c :: rest =>
    if isQuote c then
      .literal (c :: (literalSpan (.inside c) rest).1) ::
        stretches comments (literalSpan (.inside c) rest).2
    else
      match _h : commentSpan? comments (c :: rest) with
      | some (w, behind) => .comment w :: stretches comments behind
      | none => .bare c :: stretches comments rest
termination_by s.length
decreasing_by
  · exact Nat.lt_succ_of_le (literalSpan_length _ _)
  · exact length_of_commentSpan? _h
  · exact Nat.lt_succ_self _

theorem stretches_nil (comments : Bool) : stretches comments [] = [] := by
  rw [stretches]

theorem stretches_quote (h : isQuote c = true) (comments : Bool) (rest : List Char) :
    stretches comments (c :: rest) =
      .literal (c :: (literalSpan (.inside c) rest).1) ::
        stretches comments (literalSpan (.inside c) rest).2 := by
  rw [stretches, if_pos h]

theorem stretches_comment {behind : List Char} (hc : isQuote c = false)
    (h : commentSpan? comments (c :: rest) = some (w, behind)) :
    stretches comments (c :: rest) = .comment w :: stretches comments behind := by
  rw [stretches, hc]
  simp only [Bool.false_eq_true, if_false]
  split
  · rename_i hspan
    obtain ⟨rfl, rfl⟩ := Prod.mk.inj (Option.some.inj (hspan.symm.trans h))
    rfl
  · rename_i hspan
    cases hspan.symm.trans h

theorem stretches_bare (hc : isQuote c = false)
    (h : commentSpan? comments (c :: rest) = none) :
    stretches comments (c :: rest) = .bare c :: stretches comments rest := by
  rw [stretches, hc]
  simp only [Bool.false_eq_true, if_false]
  split
  · rename_i hspan
    cases hspan.symm.trans h
  · rfl

theorem commentSpan?_false (s : List Char) : commentSpan? false s = none := rfl

theorem flatMap_stretches (comments : Bool) (s : List Char) :
    (stretches comments s).flatMap Stretch.text = s := by
  induction s using stretches.induct comments with
  | case1 => rw [stretches_nil, List.flatMap_nil]
  | case2 c rest hc ih =>
    rw [stretches_quote hc, List.flatMap_cons, ih, Stretch.text, List.cons_append,
      literalSpan_append]
  | case3 c rest hc w behind hspan ih =>
    rw [stretches_comment (Bool.eq_false_iff.2 hc) hspan, List.flatMap_cons, ih]
    exact append_of_commentSpan? hspan
  | case4 c rest hc hspan ih =>
    rw [stretches_bare (Bool.eq_false_iff.2 hc) hspan, List.flatMap_cons, ih]
    rfl

example : stretches true "a/*'*/\"\\\"b\"//".toList =
    [.bare 'a', .comment "/*'*/".toList, .literal "\"\\\"b\"".toList, .comment "//".toList] := by
  decide +kernel

namespace Copies

variable {f : Scan → List Char → List Char}

theorem literalSpan (hf : Copies f) (hnil : ∀ scan, f scan [] = []) (h : scan ≠ .outside)
    (s : List Char) :
    f scan s = (Layer.literalSpan scan s).1 ++ f .outside (Layer.literalSpan scan s).2 := by
  induction s generalizing scan with
  | nil => rw [hnil, Layer.literalSpan, hnil, List.append_nil]
  | cons c rest ih =>
    rw [hf.inside scan c rest h, Layer.literalSpan]
    split
    · rename_i hc
      rw [hc]
      rfl
    · rename_i hc
      exact congrArg (c :: ·) (ih hc)

theorem stretches_quote (hf : Copies f) (hnil : ∀ scan, f scan [] = []) (hc : isQuote c = true)
    (comments : Bool) (rest : List Char) :
    stretches comments (f .outside (c :: rest)) =
      .literal (c :: (Layer.literalSpan (.inside c) rest).1) ::
        stretches comments (f .outside (Layer.literalSpan (.inside c) rest).2) := by
  have hactive : isActive c = false := by
    simp only [isQuote, Bool.or_eq_true, decide_eq_true_eq] at hc
    rcases hc with rfl | rfl <;> rfl
  have hnext : Scan.outside.next c = .inside c := by simp [Scan.next, hc]
  rw [hf.outside c rest hactive, hnext, hf.literalSpan hnil (Scan.inside_ne_outside c),
    Layer.stretches_quote hc, literalSpan_replace]
  intro hbehind
  rw [hbehind, hnil]

end Copies

end GatewayFleet.Layer
