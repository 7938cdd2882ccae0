import GatewayFleet.Proofs.Layer.Writing

/-! Each pass of the dialect takes one liberty away and keeps the tokens: what it returns writes the
same tokens in the style without that liberty, and a text that does not take the liberty is
returned as it is. The tokens have to be placed as strict JSON places them. -/

namespace GatewayFleet.Layer

open Json (Token Mark Space Literal Stops Placed isSpace isBare goesOn)

variable {σ : Style} {ts : List Token} {t : List Char} {key : Bool}

theorem stripComments_line {body : List Char} (h : '\n' ∉ body) (r : List Char) :
    stripComments .line (body ++ '\n' :: r) = '\n' :: stripComments (.text .outside) r := by
  induction body with
  | nil => rw [List.nil_append, stripComments]
  | cons c body ih =>
    have hc : c ≠ '\n' := by
      rintro rfl
      exact h List.mem_cons_self
    rw [List.cons_append, stripComments]
    · exact ih fun hmem => h (List.mem_cons_of_mem _ hmem)
    · exact hc

theorem stripComments_block {body : List Char} (h : ¬ ['*', '/'] <:+: body) (r : List Char) :
    stripComments .block (body ++ '*' :: '/' :: r) = stripComments (.text .outside) r := by
  induction body with
  | nil => rw [List.nil_append, stripComments]
  | cons c body ih =>
    rw [List.cons_append, stripComments]
    · exact ih fun hclosed => h (hclosed.trans (List.suffix_cons c body).isInfix)
    · rintro u rfl hu
      refine h ?_
      cases body with
      | nil => simp at hu
      | cons d body =>
        obtain ⟨rfl, -⟩ := List.cons.inj hu
        exact ⟨[], body, rfl⟩

theorem Gap.stripComments {b : Bool} {g : List Char} (h : Gap b g) :
    ∃ g', Gap false g' ∧ (b = false → g' = g) ∧
      ∀ r, Layer.stripComments (.text .outside) (g ++ r) =
        g' ++ Layer.stripComments (.text .outside) r := by
  induction h with
  | nil => exact ⟨[], .nil, fun _ => rfl, fun _ => rfl⟩
  | @space c g hc _ ih =>
    obtain ⟨g', hg', hsame, hall⟩ := ih
    refine ⟨c :: g', .space hc hg', fun hb => by rw [hsame hb], fun r => ?_⟩
    have hcopy := stripComments_copies.append (w := [c]) (by simpa using isSpace_copied hc)
    exact (hcopy (g ++ r)).trans (congrArg _ (hall r))
  | @line body g hb hbody _ ih =>
    obtain ⟨g', hg', -, hall⟩ := ih
    refine ⟨'\n' :: g', .space rfl hg', fun hn => (by cases hb.symm.trans hn), fun r => ?_⟩
    have htext : '/' :: '/' :: (body ++ '\n' :: g) ++ r =
        '/' :: '/' :: (body ++ '\n' :: (g ++ r)) := by
      simp
    rw [htext, Layer.stripComments, stripComments_line hbody, hall r]
    rfl
  | @block body g hb hbody _ ih =>
    obtain ⟨g', hg', -, hall⟩ := ih
    refine ⟨g', hg', fun hn => (by cases hb.symm.trans hn), fun r => ?_⟩
    have htext : '/' :: '*' :: (body ++ '*' :: '/' :: g) ++ r =
        '/' :: '*' :: (body ++ '*' :: '/' :: (g ++ r)) := by
      simp
    rw [htext, Layer.stripComments, stripComments_block hbody, hall r]

theorem IsIdentifier.copied {raw : List Char} (h : IsIdentifier raw) :
    ∀ c ∈ raw, isActive c = false ∧ isQuote c = false := by
  obtain ⟨c, r, rfl, hc, hr⟩ := h
  intro d hd
  rcases List.mem_cons.1 hd with rfl | hd
  · exact isKeyChar_copied (by simp [isKeyChar, hc])
  · exact isKeyChar_copied (hr d hd)

theorem stripComments_token (k : Token) (r : List Char) :
    stripComments (.text .outside) (k.text ++ r) =
      k.text ++ stripComments (.text .outside) r := by
  cases k with
  | mark m => cases m <;> rfl
  | quoted raw h => exact stripComments_copies.quoted h r
  | bare raw h => exact stripComments_copies.append (fun c hc => isBare_copied (h.2 c hc)) r

theorem Written.stripComments (h : Written σ ts t) (hp : Placed key ts) :
    Written { σ with comments := false } ts (Layer.stripComments (.text .outside) t) ∧
      (σ.comments = false → Layer.stripComments (.text .outside) t = t) := by
  induction h generalizing key with
  | @done g hg =>
    obtain ⟨g', hg', hsame, hall⟩ := hg.stripComments
    have hstrip : Layer.stripComments (.text .outside) g = g' := by
      have hend := hall []
      rwa [List.append_nil, Layer.stripComments, List.append_nil] at hend
    rw [hstrip]
    exact ⟨.done hg', hsame⟩
  | token hg _ _ ih =>
    obtain ⟨hstops, -, -, hp⟩ := hp
    obtain ⟨g', hg', hsame, hall⟩ := hg.stripComments
    obtain ⟨hw, ht⟩ := ih hp
    rw [hall, stripComments_token]
    exact ⟨.token hg' (fun hk => hw.goesOn_of_stops (hstops hk)) hw,
      fun hσ => by rw [hsame hσ, ht hσ]⟩
  | @comma m ts g t hc hg hm _ ih =>
    obtain ⟨g', hg', hsame, hall⟩ := hg.stripComments
    obtain ⟨hw, ht⟩ := ih hp
    have hcomma : Layer.stripComments (.text .outside) (',' :: t) =
        ',' :: Layer.stripComments (.text .outside) t := stripComments_token (.mark .comma) t
    rw [hall, hcomma]
    exact ⟨.comma hc hg' hm hw, fun hσ => by rw [hsame hσ, ht hσ]⟩
  | bareKey hb hg hraw _ ih =>
    obtain ⟨-, -, -, hp⟩ := hp
    obtain ⟨g', hg', hsame, hall⟩ := hg.stripComments
    obtain ⟨hw, ht⟩ := ih hp
    rw [hall, stripComments_copies.append hraw.copied]
    exact ⟨.bareKey hb hg' hraw hw, fun hσ => by rw [hsame hσ, ht hσ]⟩

theorem closesNext_space {g : List Char} (hg : Space g) (s : List Char) :
    closesNext (g ++ s) = closesNext s := by
  rw [closesNext, List.dropWhile_append_of_pos, closesNext]
  intro c hc
  rw [isBlank_of_isSpace (hg c hc), Bool.true_or]

theorem isBlank_eq_false {c : Char} (h : 33 ≤ c.toNat ∧ c.toNat ≤ 126) :
    Text.isBlank c = false := by
  simp [Text.isBlank, Text.blankRanges]
  omega

theorem isBlank_bare {c : Char} (h : isBare c = true) : Text.isBlank c = false := by
  have hrange := Json.isBare_iff.1 h
  exact isBlank_eq_false (by omega)

def closes : Token → Bool
  | .mark m => m.closes
  | _ => false

theorem closesNext_bare {c : Char} (h : isBare c = true) (r : List Char) :
    closesNext (c :: r) = false := by
  rw [closesNext_cons (isBlank_bare h) (by rintro rfl; cases h), Bool.eq_false_iff]
  intro hc
  simp only [isCloser, Bool.or_eq_true, decide_eq_true_eq] at hc
  rcases hc with rfl | rfl <;> exact absurd h (by decide)

theorem closesNext_token {k : Token} (hk : k ≠ .mark .comma) (r : List Char) :
    closesNext (k.text ++ r) = closes k := by
  cases k with
  | mark m => cases m <;> first | rfl | exact absurd rfl hk
  | quoted raw _ => rfl
  | bare raw h =>
    obtain ⟨hne, hall⟩ := h
    obtain ⟨c, raw, rfl⟩ := List.exists_cons_of_ne_nil hne
    exact closesNext_bare (hall c List.mem_cons_self) _

theorem isKeyStart_iff {c : Char} :
    isKeyStart c = true ↔ c = '_' ∨ c = '$' ∨ c.isAlpha = true := by
  simp only [isKeyStart, Bool.or_eq_true, decide_eq_true_eq, or_assoc]

theorem isBare_of_isAlpha {c : Char} (h : c.isAlpha = true) : isBare c = true := by
  simp [isBare, Char.isAlphanum, h]

theorem closesNext_keyStart {c : Char} (h : isKeyStart c = true) (r : List Char) :
    closesNext (c :: r) = false := by
  rcases isKeyStart_iff.1 h with rfl | rfl | hc
  · rfl
  · rfl
  · exact closesNext_bare (isBare_of_isAlpha hc) r

theorem Written.closesNext {k : Token} (h : Written σ (k :: ts) t) (hσ : σ.comments = false)
    (hk : k ≠ .mark .comma) : Layer.closesNext t = closes k := by
  generalize hus : k :: ts = us at h
  induction h with
  | done _ => cases hus
  | token hg _ _ _ =>
    obtain ⟨rfl, rfl⟩ := List.cons.inj hus
    rw [closesNext_space (hg.isSpace hσ), closesNext_token hk]
  | comma _ hg _ _ ih =>
    rw [closesNext_space (hg.isSpace hσ), closesNext_comma]
    exact ih hus
  | bareKey _ hg hraw _ _ =>
    obtain ⟨rfl, -⟩ := List.cons.inj hus
    obtain ⟨c, r, rfl, hc, -⟩ := hraw
    rw [closesNext_space (hg.isSpace hσ), List.cons_append, closesNext_keyStart hc]
    rfl

theorem dropCommas_token {k : Token} (hk : k ≠ .mark .comma) (r : List Char) :
    dropCommas .outside (k.text ++ r) = k.text ++ dropCommas .outside r := by
  cases k with
  | mark m => cases m <;> first | rfl | exact absurd rfl hk
  | quoted raw h => exact dropCommas_copies.quoted h r
  | bare raw h => exact dropCommas_copies.append (fun c hc => isBare_copied (h.2 c hc)) r

theorem dropCommas_comma (r : List Char) :
    dropCommas .outside (',' :: r) =
      if closesNext r = true then dropCommas .outside r else ',' :: dropCommas .outside r := by
  simp [dropCommas, Scan.next, isQuote]

theorem dropCommas_space {g : List Char} (hg : Space g) (r : List Char) :
    dropCommas .outside (g ++ r) = g ++ dropCommas .outside r :=
  dropCommas_copies.append (fun c hc => isSpace_copied (hg c hc)) r

theorem Written.not_closesNext (h : Written σ ts t) (hσ : σ.comments = false) {l : Token}
    {us : List Token} (hts : ts = l :: us) (hl : l.begins = true) :
    Layer.closesNext t = false := by
  subst hts
  have hcomma : l ≠ .mark .comma := by
    rintro rfl
    cases hl
  rw [h.closesNext hσ hcomma]
  cases l with
  | mark m => cases m <;> first | rfl | cases hl
  | quoted _ _ => rfl
  | bare _ _ => rfl

theorem Written.dropCommas (h : Written σ ts t) (hσ : σ.comments = false) (hp : Placed key ts) :
    Written { σ with commas := false } ts (Layer.dropCommas .outside t) ∧
      (σ.commas = false → Layer.dropCommas .outside t = t) := by
  induction h generalizing key with
  | @done g hg =>
    have hspace := hg.isSpace hσ
    have hdrop := dropCommas_space hspace []
    rw [List.append_nil, Layer.dropCommas, List.append_nil] at hdrop
    rw [hdrop]
    exact ⟨.done hg, fun _ => rfl⟩
  | @token k ts g t hg _ ht ih =>
    obtain ⟨hstops, hbegins, -, hp⟩ := hp
    have hspace := hg.isSpace hσ
    obtain ⟨hw, hsame⟩ := ih hp
    have htoken : Layer.dropCommas .outside (k.text ++ t) =
        k.text ++ Layer.dropCommas .outside t := by
      -- A comma that separates stays: what may begin a value or a member stands behind it.
      by_cases hk : k = .mark .comma
      · obtain ⟨l, us, hts, hl⟩ := hbegins hk
        subst hk
        have hopen := ht.not_closesNext hσ hts hl
        exact (dropCommas_comma t).trans (by rw [hopen]; rfl)
      · exact dropCommas_token hk t
    rw [dropCommas_space hspace, htoken]
    exact ⟨.token hg (fun hk => hw.goesOn_of_stops (hstops hk)) hw,
      fun hc => by rw [hsame hc]⟩
  | @comma m ts g t hc hg hm ht ih =>
    have hspace := hg.isSpace hσ
    obtain ⟨hw, -⟩ := ih hp
    have hcloses : Layer.closesNext t = true := by
      rw [ht.closesNext hσ (by rintro ⟨⟩; cases hm)]
      exact hm
    rw [dropCommas_space hspace, dropCommas_comma, hcloses]
    exact ⟨hw.gap_append hg, fun hn => by cases hc.symm.trans hn⟩
  | @bareKey raw h ts g t hb hg hraw _ ih =>
    obtain ⟨-, -, -, hp⟩ := hp
    have hspace := hg.isSpace hσ
    obtain ⟨hw, hsame⟩ := ih hp
    rw [dropCommas_space hspace, dropCommas_copies.append hraw.copied]
    exact ⟨.bareKey hb hg hraw hw, fun hc => by rw [hsame hc]⟩

def spot (key : Bool) : Spot := if key then .keyMayStart else .plain .outside

theorem quoteKeys_space (key : Bool) {g : List Char} (hg : Space g) (r : List Char) :
    quoteKeys (spot key) (g ++ r) = g ++ quoteKeys (spot key) r := by
  cases key with
  | false => exact quoteKeys_copies.append (fun c hc => isSpace_copied (hg c hc)) r
  | true =>
    induction g with
    | nil => rfl
    | cons c g ih =>
      have hc := isBlank_of_isSpace (hg c List.mem_cons_self)
      have hrest := ih fun d hd => hg d (List.mem_cons_of_mem _ hd)
      simp only [spot, if_true] at hrest ⊢
      rw [List.cons_append, quoteKeys, if_pos hc, hrest, List.cons_append]

theorem quoteKeys_mark (m : Mark) (r : List Char) :
    quoteKeys (spot key) (m.char :: r) =
      m.char :: quoteKeys (spot (Token.mark m).opensKey) r := by
  cases key <;> cases m <;> rfl

theorem quoteKeys_quoted {raw : List Char} (h : Literal raw) (r : List Char) :
    quoteKeys (spot key) ('"' :: (raw ++ ['"']) ++ r) =
      '"' :: (raw ++ ['"']) ++ quoteKeys (.plain .outside) r := by
  have hplain := quoteKeys_copies.quoted h r
  cases key with
  | false => exact hplain
  | true =>
    rw [← hplain]
    rfl

theorem isSpace_not_isKeyChar {c : Char} (h : isSpace c = true) : isKeyChar c = false := by
  rcases Json.isSpace_iff.1 h with rfl | rfl | rfl | rfl <;> decide

theorem isKeyAhead_keyChars {w : List Char} (hw : ∀ c ∈ w, isKeyChar c = true) (s : List Char) :
    isKeyAhead (w ++ s) = isKeyAhead s := by
  rw [isKeyAhead, List.dropWhile_append_of_pos hw, isKeyAhead]

theorem isKeyAhead_space {g : List Char} (hg : Space g) {s : List Char}
    (hs : s.dropWhile isKeyChar = s) : isKeyAhead (g ++ s) = isKeyAhead s := by
  cases g with
  | nil => rfl
  | cons c g =>
    have hc : ¬ isKeyChar c = true := by
      rw [isSpace_not_isKeyChar (hg c List.mem_cons_self)]
      exact Bool.false_ne_true
    have hblank : ∀ d ∈ c :: g, Text.isBlank d = true := fun d hd => isBlank_of_isSpace (hg d hd)
    rw [isKeyAhead, List.cons_append, List.dropWhile_cons_of_neg hc, ← List.cons_append,
      List.dropWhile_append_of_pos hblank, isKeyAhead, hs]

theorem isKeyAhead_mark {g : List Char} (hg : Space g) (m : Mark) (s : List Char) :
    isKeyAhead (g ++ m.char :: s) = decide (m = .colon) := by
  rw [isKeyAhead_space hg]
  · cases m <;> rfl
  · cases m <;> rfl

theorem isKeyAhead_bare {w : List Char} (hw : ∀ c ∈ w, isBare c = true) {s : List Char}
    (hs : isKeyAhead s = false) : isKeyAhead (w ++ s) = false := by
  induction w with
  | nil => exact hs
  | cons c w ih =>
    by_cases hc : isKeyChar c = true
    · rw [← List.singleton_append, List.append_assoc, isKeyAhead_keyChars (by simpa using hc)]
      exact ih fun d hd => hw d (List.mem_cons_of_mem _ hd)
    · have hbare := hw c List.mem_cons_self
      have hblank : ¬ Text.isBlank c = true := by
        rw [isBlank_bare hbare]
        exact Bool.false_ne_true
      have hcolon : c ≠ ':' := by
        rintro rfl
        cases hbare
      rw [List.cons_append, isKeyAhead, List.dropWhile_cons_of_neg hc,
        List.dropWhile_cons_of_neg hblank]
      simpa using hcolon

theorem Written.not_isKeyAhead (h : Written σ ts t) (hσ : σ.comments = false)
    (hσ' : σ.commas = false) (hs : Stops ts) : isKeyAhead t = false := by
  cases h with
  | @done g hg =>
    have hend := isKeyAhead_space (hg.isSpace hσ) (s := []) rfl
    rw [List.append_nil] at hend
    exact hend
  | token hg _ _ =>
    have hspace := hg.isSpace hσ
    cases hs with
    | comma => exact isKeyAhead_mark hspace .comma _
    | @closes m _ hm =>
      have hahead := isKeyAhead_mark hspace m
      cases m <;> first | exact hahead _ | cases hm
  | comma hc _ _ _ => cases hc.symm.trans hσ'
  | bareKey _ _ _ _ => nomatch hs

theorem Written.colon (h : Written σ (.mark .colon :: ts) t) (hσ : σ.comments = false) :
    ∃ g s, Space g ∧ t = g ++ ':' :: s := by
  cases h with
  | token hg _ _ =>
    exact ⟨_, _, hg.isSpace hσ, rfl⟩
  | comma _ _ hm _ => cases hm

theorem quoteKeys_bare {raw : List Char} (h : Json.Bare raw) {r : List Char}
    (hr : isKeyAhead (raw.tail ++ r) = false) :
    quoteKeys (spot key) (raw ++ r) = raw ++ quoteKeys (.plain .outside) r := by
  have hplain := quoteKeys_copies.append (fun c hc => isBare_copied (h.2 c hc)) r
  cases key with
  | false => exact hplain
  | true =>
    rw [← hplain]
    obtain ⟨hne, hall⟩ := h
    obtain ⟨c, raw, rfl⟩ := List.exists_cons_of_ne_nil hne
    have hblank := isBlank_bare (hall c List.mem_cons_self)
    have hstart : (isKeyStart c && isKeyAhead (raw ++ r)) = false := by
      rw [List.tail_cons] at hr
      rw [hr, Bool.and_false]
    simp [spot, quoteKeys, hblank, hstart]

theorem isBlank_keyStart {c : Char} (h : isKeyStart c = true) : Text.isBlank c = false := by
  rcases isKeyStart_iff.1 h with rfl | rfl | hc
  · decide
  · decide
  · exact isBlank_bare (isBare_of_isAlpha hc)

theorem isKeyAhead_cons {c : Char} (h : isKeyChar c = true) (s : List Char) :
    isKeyAhead (c :: s) = isKeyAhead s := by
  simp [isKeyAhead, h]

theorem isBlank_or_colon {c : Char} {s : List Char} (hc : isKeyChar c = false)
    (h : isKeyAhead (c :: s) = true) : Text.isBlank c = true ∨ c = ':' := by
  cases hb : Text.isBlank c with
  | true => exact .inl rfl
  | false =>
    refine .inr ?_
    simpa [isKeyAhead, hc, hb] using h

theorem copied_of_isBlank_or_colon {c : Char} (h : Text.isBlank c = true ∨ c = ':') :
    isActive c = false ∧ isQuote c = false := by
  rcases h with h | rfl
  · exact isBlank_copied h
  · exact ⟨rfl, rfl⟩

theorem quoteKeys_inKey {s : List Char} (h : isKeyAhead s = true) : quoteKeys .inKey s =
    s.takeWhile isKeyChar ++ '"' :: quoteKeys (.plain .outside) (s.dropWhile isKeyChar) := by
  induction s with
  | nil => cases h
  | cons c rest ih =>
    cases hc : isKeyChar c with
    | true =>
      rw [isKeyAhead_cons hc] at h
      rw [quoteKeys, if_pos hc, ih h, List.takeWhile_cons_of_pos hc, List.dropWhile_cons_of_pos hc]
      rfl
    | false =>
      obtain ⟨hactive, hquote⟩ := copied_of_isBlank_or_colon (isBlank_or_colon hc h)
      have hcopy := quoteKeys_copies.outside c rest hactive
      rw [next_of_not_isQuote hquote] at hcopy
      have hneg : ¬ isKeyChar c = true := Bool.eq_false_iff.1 hc
      rw [quoteKeys, if_neg hneg, List.takeWhile_cons_of_neg hneg,
        List.dropWhile_cons_of_neg hneg, hcopy]
      rfl

/-- What stands between a key and the colon is no part of the key. -/
theorem exists_not_isKeyChar {g : List Char} (hg : Space g) (s : List Char) :
    ∃ c r, g ++ ':' :: s = c :: r ∧ isKeyChar c = false := by
  cases g with
  | nil => exact ⟨':', s, rfl, by decide⟩
  | cons c g => exact ⟨c, _, rfl, isSpace_not_isKeyChar (hg c List.mem_cons_self)⟩

theorem quoteKeys_identifier {raw g : List Char} (h : IsIdentifier raw) (hg : Space g)
    (s : List Char) :
    quoteKeys (spot true) (raw ++ (g ++ ':' :: s)) =
      '"' :: (raw ++ '"' :: quoteKeys (spot false) (g ++ ':' :: s)) := by
  obtain ⟨c, raw, rfl, hc, hraw⟩ := h
  have hall : ∀ d ∈ c :: raw, isKeyChar d = true := by
    intro d hd
    rcases List.mem_cons.1 hd with rfl | hd
    · rw [isKeyChar, hc, Bool.true_or, Bool.true_or]
    · exact hraw d hd
  have hblank : Text.isBlank c = false := isBlank_keyStart hc
  have hahead : isKeyAhead (raw ++ (g ++ ':' :: s)) = true := by
    rw [isKeyAhead_keyChars hraw]
    exact isKeyAhead_mark hg .colon s
  obtain ⟨d, u, hend, hd⟩ := exists_not_isKeyChar hg s
  have hname : quoteKeys .inKey (raw ++ (g ++ ':' :: s)) =
      raw ++ '"' :: quoteKeys (.plain .outside) (g ++ ':' :: s) := by
    rw [quoteKeys_inKey hahead, List.takeWhile_append_of_pos hraw,
      List.dropWhile_append_of_pos hraw, hend]
    simp [hd]
  rw [List.cons_append, spot, if_pos rfl, quoteKeys, hblank, hc, hahead, hname]
  rfl

theorem quoteKeys_token {k : Token} {r : List Char}
    (hr : k.isBare = true → isKeyAhead r = false) :
    quoteKeys (spot key) (k.text ++ r) = k.text ++ quoteKeys (spot k.opensKey) r := by
  cases k with
  | mark m => exact quoteKeys_mark m r
  | quoted raw h => exact quoteKeys_quoted h r
  | bare raw h =>
    have htail : ∀ c ∈ raw.tail, isBare c = true := fun c hc => h.2 c (List.mem_of_mem_tail hc)
    exact quoteKeys_bare h (isKeyAhead_bare htail (hr rfl))

theorem Written.quoteKeys (h : Written σ ts t) (hσ : σ.comments = false)
    (hσ' : σ.commas = false) (hp : Placed key ts) :
    Written { σ with bareKeys := false } ts (Layer.quoteKeys (spot key) t) ∧
      (σ.bareKeys = false → Layer.quoteKeys (spot key) t = t) := by
  induction h generalizing key with
  | @done g hg =>
    have hspace := hg.isSpace hσ
    have hquote := quoteKeys_space key hspace []
    have hnil : Layer.quoteKeys (spot key) [] = [] := by
      cases key <;> rfl
    rw [List.append_nil, hnil, List.append_nil] at hquote
    rw [hquote]
    exact ⟨.done hg, fun _ => rfl⟩
  | @token k ts g t hg _ ht ih =>
    obtain ⟨hstops, -, -, hp⟩ := hp
    have hspace := hg.isSpace hσ
    obtain ⟨hw, hsame⟩ := ih hp
    have hahead (hk : k.isBare = true) : isKeyAhead t = false :=
      ht.not_isKeyAhead hσ hσ' (hstops hk)
    rw [quoteKeys_space _ hspace, quoteKeys_token hahead]
    exact ⟨.token hg (fun hk => hw.goesOn_of_stops (hstops hk)) hw,
      fun hb => by rw [hsame hb]⟩
  | comma hc _ _ _ _ => cases hc.symm.trans hσ'
  | @bareKey raw h ts g t hb hg hraw ht ih =>
    obtain ⟨-, -, hcolon, hp⟩ := hp
    obtain rfl : key = true := hcolon ts rfl
    have hspace := hg.isSpace hσ
    obtain ⟨g', s, hg', rfl⟩ := ht.colon hσ
    obtain ⟨hw, -⟩ := ih hp
    have hname := quoteKeys_identifier hraw hg' s
    have hquoted : '"' :: (raw ++ '"' :: Layer.quoteKeys (spot false) (g' ++ ':' :: s)) =
        (Token.quoted raw h).text ++ Layer.quoteKeys (spot false) (g' ++ ':' :: s) := by
      simp [Token.text]
    rw [quoteKeys_space _ hspace, hname, hquoted]
    exact ⟨.token hg nofun hw, fun hn => by cases hb.symm.trans hn⟩

end GatewayFleet.Layer
