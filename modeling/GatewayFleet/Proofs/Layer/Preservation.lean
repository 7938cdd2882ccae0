import Mathlib.Data.List.TakeWhile
import GatewayFleet.Proofs.Layer.Idempotence
import GatewayFleet.Proofs.Layer.Stretches

/-! What becomes of the literals of a text. Every pass works on the stretches between them: the
first leaves out the comments, the second some of the commas, and the third turns a key into a
literal of its own. So the literals of the strict text are those of the text, in their order, and
the keys. -/

namespace GatewayFleet.Layer

variable {c : Char} {s rest w : List Char}

def Stretch.remains : Stretch → Bool
  | .comment _ => false
  | _ => true

theorem stripComments_line_eq (s : List Char) :
    stripComments .line s = stripComments (.text .outside) (s.dropWhile (· ≠ '\n')) := by
  induction s with
  | nil => rw [stripComments, List.dropWhile_nil, stripComments]
  | cons c rest ih =>
    by_cases hc : c = '\n'
    · subst hc
      have hcopy := stripComments_copies.outside '\n' rest rfl
      rw [stripComments, List.dropWhile_cons_of_neg (by decide)]
      exact hcopy.symm
    · rw [stripComments, ih, List.dropWhile_cons_of_pos (by simpa using hc)]
      exact hc

theorem stripComments_block_eq (s : List Char) :
    stripComments .block s = stripComments (.text .outside) (blockSpan s).2 := by
  induction s using blockSpan.induct with
  | case1 => rw [stripComments, blockSpan, stripComments]
  | case2 rest => rw [stripComments, blockSpan]
  | case3 c rest hc ih =>
    rw [stripComments, blockSpan, ih]
    · exact hc
    · exact hc

theorem stripComments_comment (h : commentSpan? true s = some (w, rest)) :
    stripComments (.text .outside) s = stripComments (.text .outside) rest := by
  unfold commentSpan? at h
  split at h
  · obtain ⟨-, rfl⟩ := Prod.mk.inj (Option.some.inj h)
    rw [stripComments, stripComments_line_eq]
  · obtain ⟨-, rfl⟩ := Prod.mk.inj (Option.some.inj h)
    rw [stripComments, stripComments_block_eq]
  · cases h

theorem noComment_of_commentSpan? (h : commentSpan? true (c :: rest) = none) :
    NoComment c rest := by
  rintro rfl
  constructor
  · intro hhead
    obtain ⟨r, rfl⟩ := List.head?_eq_some_iff.1 hhead
    cases h
  · intro hhead
    obtain ⟨r, rfl⟩ := List.head?_eq_some_iff.1 hhead
    cases h

theorem stretches_stripComments (s : List Char) :
    stretches false (stripComments (.text .outside) s) =
      (stretches true s).filter Stretch.remains := by
  induction s using stretches.induct true with
  | case1 =>
    rw [stripComments, stretches_nil, stretches_nil]
    rfl
  | case2 c rest hc ih =>
    have hnil : ∀ scan, stripComments (.text scan) [] = [] := fun _ => by rw [stripComments]
    have hpass := stripComments_copies.stretches_quote hnil hc false rest
    rw [stretches_quote hc, List.filter_cons, ← ih]
    exact hpass
  | case3 c rest hc w behind hspan ih =>
    rw [stretches_comment (Bool.eq_false_iff.2 hc) hspan, stripComments_comment hspan, ih]
    rfl
  | case4 c rest hc hspan ih =>
    have hquote := Bool.eq_false_iff.2 hc
    rw [stretches_bare hquote hspan, stripComments_cons fun _ => noComment_of_commentSpan? hspan,
      next_of_not_isQuote hquote, stretches_bare hquote (commentSpan?_false _), ih]
    rfl

def closesBehind : List Stretch → Bool
  | .bare c :: rest => if Text.isBlank c || c = ',' then closesBehind rest else isCloser c
  | _ => false

/-- The stretches without the commas behind which a bracket closes. -/
def withoutTrailing : List Stretch → List Stretch
  | [] => []
  | x :: rest =>
    if x = .bare ',' ∧ closesBehind rest then withoutTrailing rest else x :: withoutTrailing rest

theorem stretches_false_bare (hc : isQuote c = false) (rest : List Char) :
    stretches false (c :: rest) = .bare c :: stretches false rest :=
  stretches_bare hc (commentSpan?_false _)

theorem closesNext_of_isQuote (h : isQuote c = true) (rest : List Char) :
    closesNext (c :: rest) = false := by
  simp only [isQuote, Bool.or_eq_true, decide_eq_true_eq] at h
  rcases h with rfl | rfl <;> rfl

theorem closesBehind_stretches (s : List Char) :
    closesBehind (stretches false s) = closesNext s := by
  induction s with
  | nil =>
    rw [stretches_nil]
    rfl
  | cons c rest ih =>
    cases hc : isQuote c with
    | true =>
      rw [stretches_quote hc, closesNext_of_isQuote hc]
      rfl
    | false =>
      rw [stretches_false_bare hc, closesBehind, ih]
      by_cases hgap : Text.isBlank c = true ∨ c = ','
      · rcases hgap with hb | rfl
        · rw [closesNext_blank hb]
          simp [hb]
        · rw [closesNext_comma]
          simp
      · rw [not_or, Bool.not_eq_true] at hgap
        rw [closesNext_cons hgap.1 hgap.2]
        simp [hgap]

theorem stretches_dropCommas (s : List Char) :
    stretches false (dropCommas .outside s) = withoutTrailing (stretches false s) := by
  induction s using stretches.induct false with
  | case1 =>
    rw [dropCommas, stretches_nil]
    rfl
  | case2 c rest hc ih =>
    have hpass := dropCommas_copies.stretches_quote (fun _ => rfl) hc false rest
    rw [hpass, stretches_quote hc, withoutTrailing, if_neg (by rintro ⟨⟨⟩, -⟩), ih]
  | case3 c rest hc w behind hspan ih => cases hspan
  | case4 c rest hc hspan ih =>
    have hquote := Bool.eq_false_iff.2 hc
    rw [stretches_false_bare hquote, withoutTrailing, closesBehind_stretches, dropCommas]
    by_cases hdrop : c = ',' ∧ closesNext rest = true
    · obtain ⟨rfl, hcloses⟩ := hdrop
      rw [if_pos ⟨rfl, rfl, hcloses⟩, if_pos ⟨rfl, hcloses⟩, ih]
    · rw [if_neg fun h => hdrop h.2, if_neg, next_of_not_isQuote hquote,
        stretches_false_bare hquote, ih]
      rintro ⟨hbare, hcloses⟩
      exact hdrop ⟨Stretch.bare.inj hbare, hcloses⟩

/-- A stretch of the strict text: one of the text, or a key that has been given quotes. -/
inductive Mark
  | kept (x : Stretch)
  | made (name : List Char)

def Mark.seen : Mark → Stretch
  | .kept x => x
  | .made name => .literal ('"' :: (name ++ ['"']))

def Mark.source : Mark → List Stretch
  | .kept x => [x]
  | .made name => name.map .bare

def Stretch.opens (key : Bool) : Stretch → Bool
  | .bare c => if Text.isBlank c then key else opensKey c
  | _ => false

def colonBehind : List Stretch → Bool
  | .bare c :: rest => if Text.isBlank c then colonBehind rest else c = ':'
  | _ => false

/-- Quotes are put around identifiers only, between an opening brace or a comma and a colon. -/
def Quotes : Bool → List Mark → Prop
  | _, [] => True
  | key, .kept x :: rest => Quotes (x.opens key) rest
  | key, .made name :: rest => key = true ∧ IsIdentifier name ∧
      colonBehind (rest.flatMap Mark.source) = true ∧ Quotes false rest

theorem literalSpan_key {name : List Char} (h : ∀ d ∈ name, isKeyChar d = true) (t : List Char) :
    literalSpan (.inside '"') (name ++ '"' :: t) = (name ++ ['"'], t) := by
  induction name with
  | nil => rfl
  | cons c name ih =>
    have hnext := next_inside_of_isKeyChar (h c List.mem_cons_self)
    rw [List.cons_append, literalSpan, hnext, if_neg (Scan.inside_ne_outside _),
      ih fun d hd => h d (List.mem_cons_of_mem _ hd)]
    rfl

theorem stretches_keyChars {name : List Char} (h : ∀ d ∈ name, isKeyChar d = true)
    (t : List Char) : stretches false (name ++ t) = name.map .bare ++ stretches false t := by
  induction name with
  | nil => rfl
  | cons c name ih =>
    have hquote := (isKeyChar_copied (h c List.mem_cons_self)).2
    rw [List.cons_append, stretches_false_bare hquote,
      ih fun d hd => h d (List.mem_cons_of_mem _ hd)]
    rfl

theorem colonBehind_stretches (s : List Char) :
    colonBehind (stretches false s) = decide ((s.dropWhile Text.isBlank).head? = some ':') := by
  induction s with
  | nil =>
    rw [stretches_nil]
    rfl
  | cons c rest ih =>
    cases hc : isQuote c with
    | true =>
      rw [stretches_quote hc]
      simp only [isQuote, Bool.or_eq_true, decide_eq_true_eq] at hc
      rcases hc with rfl | rfl <;> rfl
    | false =>
      rw [stretches_false_bare hc, colonBehind, ih]
      cases hb : Text.isBlank c with
      | true => simp [hb]
      | false => simp [hb]

structure Marked (key : Bool) (s : List Char) (marks : List Mark) : Prop where
  seen : stretches false (quoteKeys (spot key) s) = marks.map Mark.seen
  source : stretches false s = marks.flatMap Mark.source
  quotes : Quotes key marks

theorem marked_nil (key : Bool) : Marked key [] [] := by
  refine ⟨?_, ?_, trivial⟩
  · cases key <;> exact stretches_nil false
  · exact stretches_nil false

theorem Marked.literal {marks : List Mark} {key : Bool} (hc : isQuote c = true)
    (h : Marked false (literalSpan (.inside c) rest).2 marks) :
    Marked key (c :: rest)
      (.kept (.literal (c :: (literalSpan (.inside c) rest).1)) :: marks) := by
  have hpass := quoteKeys_copies.stretches_quote (fun _ => rfl) hc false rest
  have hspot : quoteKeys (spot key) (c :: rest) = quoteKeys (.plain .outside) (c :: rest) := by
    cases key with
    | false => rfl
    | true =>
      simp only [isQuote, Bool.or_eq_true, decide_eq_true_eq] at hc
      rcases hc with rfl | rfl <;> rfl
  refine ⟨?_, ?_, h.quotes⟩
  · rw [hspot, List.map_cons, ← h.seen]
    exact hpass
  · rw [stretches_quote hc, h.source]
    rfl

theorem Marked.bare {marks : List Mark} {key : Bool} (hc : isQuote c = false)
    (hcopy : quoteKeys (spot key) (c :: rest) =
      c :: quoteKeys (spot ((Stretch.bare c).opens key)) rest)
    (h : Marked ((Stretch.bare c).opens key) rest marks) :
    Marked key (c :: rest) (.kept (.bare c) :: marks) := by
  refine ⟨?_, ?_, h.quotes⟩
  · rw [hcopy, stretches_false_bare hc, h.seen]
    rfl
  · rw [stretches_false_bare hc, h.source]
    rfl

theorem quoteKeys_copy {key : Bool} (hc : isQuote c = false)
    (hkey : (key && isKeyStart c && isKeyAhead rest) = false) :
    quoteKeys (spot key) (c :: rest) =
      c :: quoteKeys (spot ((Stretch.bare c).opens key)) rest := by
  have hafter : Text.isBlank c = false → Spot.after .outside c = spot (opensKey c) := by
    intro _
    cases ho : opensKey c with
    | true => exact after_opensKey ho
    | false =>
      rw [after_eq_plain fun _ => ho, next_of_not_isQuote hc]
      rfl
  cases hb : Text.isBlank c with
  | true =>
    have hopens : (Stretch.bare c).opens key = key := by simp [Stretch.opens, hb]
    rw [hopens]
    cases key with
    | true => exact quoteKeys_blank hb rest
    | false =>
      have hcopied := quoteKeys_copies.outside c rest (isBlank_copied hb).1
      rw [next_of_not_isQuote hc] at hcopied
      exact hcopied
  | false =>
    have hopens : (Stretch.bare c).opens key = opensKey c := by simp [Stretch.opens, hb]
    rw [hopens, ← hafter hb]
    cases key with
    | true => exact quoteKeys_other hb (by simpa using hkey)
    | false => rfl

theorem Marked.made {marks : List Mark} (hc : isKeyStart c = true)
    (hahead : isKeyAhead rest = true) (h : Marked false (rest.dropWhile isKeyChar) marks) :
    Marked true (c :: rest) (.made (c :: rest.takeWhile isKeyChar) :: marks) := by
  have hchar : isKeyChar c = true := by simp [isKeyChar, hc]
  have hrest : ∀ d ∈ rest.takeWhile isKeyChar, isKeyChar d = true :=
    fun d hd => List.mem_takeWhile_imp hd
  have hname : ∀ d ∈ c :: rest.takeWhile isKeyChar, isKeyChar d = true :=
    List.forall_mem_cons.2 ⟨hchar, hrest⟩
  refine ⟨?_, ?_, rfl, ⟨c, _, rfl, hc, hrest⟩, ?_, h.quotes⟩
  · have hspan := literalSpan_key hname
      (quoteKeys (.plain .outside) (rest.dropWhile isKeyChar))
    rw [List.cons_append] at hspan
    rw [spot, if_pos rfl, quoteKeys_key hc hahead, quoteKeys_inKey hahead,
      stretches_quote rfl, hspan, List.map_cons, ← h.seen]
    rfl
  · conv_lhs => rw [← List.takeWhile_append_dropWhile (p := isKeyChar) (l := rest)]
    rw [← List.cons_append, stretches_keyChars hname, h.source]
    rfl
  · rw [← h.source, colonBehind_stretches]
    simpa [isKeyAhead] using hahead

theorem exists_marked (key : Bool) (s : List Char) : ∃ marks, Marked key s marks := by
  match s with
  | [] => exact ⟨[], marked_nil key⟩
  | c :: rest =>
    cases hc : isQuote c with
    | true =>
      obtain ⟨marks, hmarks⟩ := exists_marked false (literalSpan (.inside c) rest).2
      exact ⟨_, hmarks.literal hc⟩
    | false =>
      cases hkey : key && isKeyStart c && isKeyAhead rest with
      | true =>
        obtain ⟨hstart, hahead⟩ := Bool.and_eq_true_iff.1 hkey
        obtain ⟨rfl, hstart⟩ := Bool.and_eq_true_iff.1 hstart
        obtain ⟨marks, hmarks⟩ := exists_marked false (rest.dropWhile isKeyChar)
        exact ⟨_, hmarks.made hstart hahead⟩
      | false =>
        obtain ⟨marks, hmarks⟩ := exists_marked ((Stretch.bare c).opens key) rest
        exact ⟨_, hmarks.bare hc (quoteKeys_copy hc hkey)⟩
termination_by s.length
decreasing_by
  · exact Nat.lt_succ_self _
  · exact Nat.lt_succ_of_le (List.dropWhile_suffix isKeyChar).length_le
  · exact Nat.lt_succ_of_le (literalSpan_length _ _)

def Stretch.literal? : Stretch → Option (List Char)
  | .literal w => some w
  | _ => none

def Mark.literal? : Mark → Option (List Char)
  | .kept x => x.literal?
  | .made _ => none

theorem filterMap_source (marks : List Mark) :
    (marks.flatMap Mark.source).filterMap Stretch.literal? = marks.filterMap Mark.literal? := by
  induction marks with
  | nil => rfl
  | cons m marks ih =>
    rw [List.flatMap_cons, List.filterMap_append, ih]
    cases m with
    | kept x => cases x <;> rfl
    | made name =>
      have hnone : (name.map Stretch.bare).filterMap Stretch.literal? = [] := by
        rw [List.filterMap_map, List.filterMap_eq_nil_iff]
        exact fun _ _ => rfl
      rw [Mark.source, hnone]
      rfl

theorem filterMap_withoutTrailing (xs : List Stretch) :
    (withoutTrailing xs).filterMap Stretch.literal? = xs.filterMap Stretch.literal? := by
  induction xs with
  | nil => rfl
  | cons x xs ih =>
    rw [withoutTrailing]
    split
    · rename_i h
      rw [h.1, ih]
      rfl
    · rw [List.filterMap_cons, List.filterMap_cons, ih]

theorem filterMap_remains (xs : List Stretch) :
    (xs.filter Stretch.remains).filterMap Stretch.literal? = xs.filterMap Stretch.literal? := by
  induction xs with
  | nil => rfl
  | cons x xs ih =>
    cases x with
    | literal w => exact congrArg (w :: ·) ih
    | comment _ | bare _ => exact ih

/-- How a strict text comes from a text: the comments are left out, then the commas behind which a
bracket closes, and quotes are put around keys. All literals stay, and no others come up than those
keys. -/
structure Reduces (text strict : List Char) (marks : List Mark) : Prop where
  strict : stretches false strict = marks.map Mark.seen
  source : marks.flatMap Mark.source =
    withoutTrailing ((stretches true text).filter Stretch.remains)
  quotes : Quotes false marks
  literals : marks.filterMap Mark.literal? = (stretches true text).filterMap Stretch.literal?

theorem exists_reduces (s : List Char) : ∃ marks, Reduces s (strictChars s) marks := by
  obtain ⟨marks, hseen, hsource, hquotes⟩ :=
    exists_marked false (dropCommas .outside (stripComments (.text .outside) s))
  rw [stretches_dropCommas, stretches_stripComments] at hsource
  refine ⟨marks, ?_, hsource.symm, hquotes, ?_⟩
  · rw [strictChars_eq]
    exact hseen
  · rw [← filterMap_source, ← hsource, filterMap_withoutTrailing, filterMap_remains]

/-- No literal of a text is touched, and between them nothing changes but what the dialect allows.
The stretches lose nothing of the text they are cut from. -/
theorem toStrict_preserves (text : String) :
    (∃ marks, Reduces text.toList (toStrict text).toList marks) ∧
      (stretches true text.toList).flatMap Stretch.text = text.toList ∧
      (stretches false (toStrict text).toList).flatMap Stretch.text = (toStrict text).toList := by
  refine ⟨?_, flatMap_stretches true _, flatMap_stretches false _⟩
  rw [toStrict, String.toList_ofList]
  exact exists_reduces text.toList

end GatewayFleet.Layer
