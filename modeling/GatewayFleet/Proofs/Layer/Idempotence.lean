import GatewayFleet.Proofs.Layer.Reduction

/-! A strict text stands for itself, whether it is well formed or not. Each pass leaves nothing for
itself to do, and nothing for the passes before it: no comment begins where a comma was or where
quotes are put, and no comma stands in front of a bracket that was not in front of it before. -/

namespace GatewayFleet.Layer

variable {c : Char} {s rest : List Char} {scan : Scan} {P Q : Char → List Char → Prop}

/-- Holds of every character outside of literals and the text behind it. -/
def Everywhere (P : Char → List Char → Prop) : Scan → List Char → Prop
  | _, [] => True
  | scan, c :: rest => (scan = .outside → P c rest) ∧ Everywhere P (scan.next c) rest

theorem Everywhere.imp (h : Everywhere P scan s) (hPQ : ∀ c rest, P c rest → Q c rest) :
    Everywhere Q scan s := by
  induction s generalizing scan with
  | nil => trivial
  | cons c rest ih => exact ⟨fun hscan => hPQ c rest (h.1 hscan), ih h.2⟩

theorem stripComments_eq_self (h : Everywhere NoComment scan s) :
    stripComments (.text scan) s = s := by
  induction s generalizing scan with
  | nil => rw [stripComments]
  | cons c rest ih => rw [stripComments_cons h.1, ih h.2]

theorem head?_stripComments {d : Char} {r : List Char} (h : d ≠ '/') :
    (stripComments (.text scan) (d :: r)).head? = some d := by
  rw [stripComments_cons fun _ hd => absurd hd h]
  rfl

def Mode.state : Mode → Scan
  | .text scan => scan
  | .line | .block => .outside

theorem NoComment.stripComments (h : NoComment c rest) (scan : Scan) :
    NoComment c (Layer.stripComments (.text scan) rest) := by
  intro hc
  obtain ⟨hslash, hstar⟩ := h hc
  cases rest with
  | nil =>
    rw [Layer.stripComments]
    simp
  | cons d r =>
    have hd : d ≠ '/' := fun hd => hslash (congrArg some hd)
    rw [head?_stripComments hd]
    exact ⟨hslash, hstar⟩

theorem everywhere_stripComments (m : Mode) (s : List Char) :
    Everywhere NoComment m.state (stripComments m s) := by
  induction m, s using stripComments.induct with
  | case1 m =>
    rw [stripComments]
    trivial
  | case2 rest ih =>
    rw [stripComments]
    exact ih
  | case3 rest ih =>
    rw [stripComments]
    exact ih
  | case4 scan c rest hline hblock ih =>
    have hc : scan = .outside → NoComment c rest := by
      rintro rfl rfl
      constructor
      · intro hhead
        obtain ⟨r, rfl⟩ := List.head?_eq_some_iff.1 hhead
        exact hline r rfl rfl rfl
      · intro hhead
        obtain ⟨r, rfl⟩ := List.head?_eq_some_iff.1 hhead
        exact hblock r rfl rfl rfl
    rw [stripComments_cons hc]
    exact ⟨fun hscan => (hc hscan).stripComments _, ih⟩
  | case5 rest ih =>
    rw [stripComments]
    exact ⟨fun _ hc => absurd hc (by decide), ih⟩
  | case6 c rest hc ih =>
    rw [stripComments]
    · exact ih
    · exact hc
  | case7 rest ih =>
    rw [stripComments]
    exact ih
  | case8 c rest hc ih =>
    rw [stripComments]
    · exact ih
    · exact hc

def NoTrailingComma (c : Char) (rest : List Char) : Prop := c = ',' → closesNext rest = false

theorem dropCommas_eq_self (h : Everywhere NoTrailingComma scan s) : dropCommas scan s = s := by
  induction s generalizing scan with
  | nil => rfl
  | cons c rest ih =>
    rw [dropCommas, if_neg, ih h.2]
    rintro ⟨hscan, hc, hcloses⟩
    rw [h.1 hscan hc] at hcloses
    cases hcloses

theorem exists_dropCommas_of_closesNext (h : closesNext s = true) :
    ∃ d r, dropCommas .outside s = d :: r ∧ (Text.isBlank d = true ∨ isCloser d = true) := by
  induction s with
  | nil => cases h
  | cons c rest ih =>
    by_cases hc : c = ','
    · subst hc
      rw [closesNext_comma] at h
      rw [dropCommas, if_pos ⟨rfl, rfl, h⟩]
      exact ih h
    · rw [dropCommas, if_neg fun hdrop => hc hdrop.2.1]
      refine ⟨c, _, rfl, ?_⟩
      cases hb : Text.isBlank c with
      | true => exact .inl rfl
      | false =>
        rw [closesNext_cons hb hc] at h
        exact .inr h

theorem NoComment.dropCommas (h : NoComment c rest) :
    NoComment c (Layer.dropCommas .outside rest) := by
  intro hc
  cases rest with
  | nil => exact h hc
  | cons d r =>
    by_cases hdrop : d = ',' ∧ closesNext r = true
    · obtain ⟨rfl, hcloses⟩ := hdrop
      obtain ⟨e, u, hu, he⟩ := exists_dropCommas_of_closesNext hcloses
      rw [Layer.dropCommas, if_pos ⟨rfl, rfl, hcloses⟩, hu]
      constructor
      · intro hhead
        obtain rfl : e = '/' := Option.some.inj hhead
        rcases he with he | he <;> cases he
      · intro hhead
        obtain rfl : e = '*' := Option.some.inj hhead
        rcases he with he | he <;> cases he
    · rw [Layer.dropCommas, if_neg fun hd => hdrop hd.2]
      exact h hc

theorem everywhere_dropCommas (h : Everywhere NoComment scan s) :
    Everywhere (fun c rest => NoComment c rest ∧ NoTrailingComma c rest) scan
      (dropCommas scan s) := by
  induction s generalizing scan with
  | nil => trivial
  | cons c rest ih =>
    by_cases hdrop : scan = .outside ∧ c = ',' ∧ closesNext rest = true
    · obtain ⟨rfl, rfl, hcloses⟩ := hdrop
      rw [dropCommas, if_pos ⟨rfl, rfl, hcloses⟩]
      exact ih h.2
    · rw [dropCommas, if_neg hdrop]
      refine ⟨?_, ih h.2⟩
      rintro rfl
      constructor
      · rintro rfl
        exact (h.1 rfl).dropCommas rfl
      · rintro rfl
        have hkept : closesNext rest = false := by
          rw [Bool.eq_false_iff]
          exact fun hcloses => hdrop ⟨rfl, rfl, hcloses⟩
        rw [next_of_not_isQuote rfl, closesNext_dropCommas, hkept]

def keyNext (s : List Char) : Bool :=
  match s.dropWhile Text.isBlank with
  | k :: r => isKeyStart k && isKeyAhead r
  | [] => false

def NoBareKey (c : Char) (rest : List Char) : Prop := opensKey c = true → keyNext rest = false

theorem keyNext_blank (h : Text.isBlank c = true) (s : List Char) :
    keyNext (c :: s) = keyNext s := by
  simp [keyNext, h]

theorem keyNext_cons (h : Text.isBlank c = false) (s : List Char) :
    keyNext (c :: s) = (isKeyStart c && isKeyAhead s) := by
  simp [keyNext, h]

theorem opensKey_iff : opensKey c = true ↔ c = '{' ∨ c = ',' := by
  simp [opensKey]

/-- The spot behind a character that starts no literal and no key. -/
theorem after_eq_plain (hscan : scan = .outside → opensKey c = false) :
    Spot.after scan c = .plain (scan.next c) := by
  rw [Spot.after, if_neg]
  rintro ⟨hout, ho⟩
  rw [hscan hout] at ho
  cases ho

theorem after_opensKey (h : opensKey c = true) : Spot.after .outside c = .keyMayStart := by
  rw [Spot.after, if_pos ⟨rfl, h⟩]

theorem quoteKeys_eq_self (h : Everywhere NoBareKey scan s) :
    quoteKeys (.plain scan) s = s ∧
      (scan = .outside → keyNext s = false → quoteKeys .keyMayStart s = s) := by
  induction s generalizing scan with
  | nil => exact ⟨rfl, fun _ _ => rfl⟩
  | cons c rest ih =>
    obtain ⟨hplain, hstart⟩ := ih h.2
    have hafter : quoteKeys (Spot.after scan c) rest = rest := by
      by_cases hopens : scan = .outside ∧ opensKey c = true
      · obtain ⟨rfl, ho⟩ := hopens
        rw [after_opensKey ho]
        refine hstart ?_ (h.1 rfl ho)
        rcases opensKey_iff.1 ho with rfl | rfl <;> rfl
      · rw [after_eq_plain fun hscan => Bool.eq_false_iff.2 fun ho => hopens ⟨hscan, ho⟩]
        exact hplain
    refine ⟨by rw [quoteKeys, hafter], ?_⟩
    rintro rfl hkey
    cases hb : Text.isBlank c with
    | true =>
      rw [keyNext_blank hb] at hkey
      rw [quoteKeys, if_pos hb, hstart (next_blank hb) hkey]
    | false =>
      rw [keyNext_cons hb] at hkey
      rw [quoteKeys, hb, hkey, hafter]
      rfl

theorem head?_quoteKeys (scan : Scan) (s : List Char) :
    (quoteKeys (.plain scan) s).head? = s.head? := by
  cases s <;> rfl

theorem dropWhile_quoteKeys {f : Char → Bool}
    (hf : ∀ c, f c = true → opensKey c = false ∧ isQuote c = false) (s : List Char) :
    (quoteKeys (.plain .outside) s).dropWhile f =
      quoteKeys (.plain .outside) (s.dropWhile f) := by
  induction s with
  | nil => rfl
  | cons c rest ih =>
    cases hc : f c with
    | true =>
      obtain ⟨hopens, hquote⟩ := hf c hc
      rw [quoteKeys, after_eq_plain fun _ => hopens, next_of_not_isQuote hquote,
        List.dropWhile_cons_of_pos hc, List.dropWhile_cons_of_pos hc, ih]
    | false =>
      have hneg : ¬ f c = true := Bool.eq_false_iff.1 hc
      rw [List.dropWhile_cons_of_neg hneg, quoteKeys, List.dropWhile_cons_of_neg hneg]

theorem isKeyAhead_quoteKeys (s : List Char) :
    isKeyAhead (quoteKeys (.plain .outside) s) = isKeyAhead s := by
  have hkey : ∀ c, isKeyChar c = true → opensKey c = false ∧ isQuote c = false :=
    fun c hc => (isKeyChar_copied hc).imp_left not_opensKey_of_not_isActive
  have hblank : ∀ c, Text.isBlank c = true → opensKey c = false ∧ isQuote c = false :=
    fun c hc => (isBlank_copied hc).imp_left not_opensKey_of_not_isActive
  rw [isKeyAhead, dropWhile_quoteKeys hkey, dropWhile_quoteKeys hblank, head?_quoteKeys, isKeyAhead]

theorem quoteKeys_blank (h : Text.isBlank c = true) (s : List Char) :
    quoteKeys .keyMayStart (c :: s) = c :: quoteKeys .keyMayStart s := by
  rw [quoteKeys, if_pos h]

theorem quoteKeys_key (hc : isKeyStart c = true) (hs : isKeyAhead s = true) :
    quoteKeys .keyMayStart (c :: s) = '"' :: c :: quoteKeys .inKey s := by
  rw [quoteKeys, isBlank_keyStart hc, hc, hs]
  rfl

theorem quoteKeys_other (hb : Text.isBlank c = false)
    (hkey : (isKeyStart c && isKeyAhead s) = false) :
    quoteKeys .keyMayStart (c :: s) = c :: quoteKeys (Spot.after .outside c) s := by
  rw [quoteKeys, hb, hkey]
  rfl

theorem closesNext_quoteKeys (s : List Char) :
    closesNext (quoteKeys .keyMayStart s) = closesNext s := by
  induction s with
  | nil => rfl
  | cons c rest ih =>
    cases hb : Text.isBlank c with
    | true => rw [quoteKeys_blank hb, closesNext_blank hb, closesNext_blank hb, ih]
    | false =>
      cases hkey : isKeyStart c && isKeyAhead rest with
      | true =>
        obtain ⟨hc, hahead⟩ := Bool.and_eq_true_iff.1 hkey
        rw [quoteKeys_key hc hahead, closesNext_keyStart hc]
        rfl
      | false =>
        rw [quoteKeys_other hb hkey]
        by_cases hc : c = ','
        · subst hc
          rw [closesNext_comma, closesNext_comma, after_opensKey rfl, ih]
        · rw [closesNext_cons hb hc, closesNext_cons hb hc]

theorem keyNext_quoteKeys (s : List Char) : keyNext (quoteKeys .keyMayStart s) = false := by
  induction s with
  | nil => rfl
  | cons c rest ih =>
    cases hb : Text.isBlank c with
    | true => rw [quoteKeys_blank hb, keyNext_blank hb, ih]
    | false =>
      cases hkey : isKeyStart c && isKeyAhead rest with
      | true =>
        obtain ⟨hc, hahead⟩ := Bool.and_eq_true_iff.1 hkey
        rw [quoteKeys_key hc hahead]
        rfl
      | false =>
        rw [quoteKeys_other hb hkey, keyNext_cons hb]
        cases hc : isKeyStart c with
        | false => rfl
        | true =>
          have hchar : isKeyChar c = true := by simp [isKeyChar, hc]
          obtain ⟨hactive, hquote⟩ := isKeyChar_copied hchar
          rw [after_eq_plain fun _ => not_opensKey_of_not_isActive hactive,
            next_of_not_isQuote hquote, isKeyAhead_quoteKeys]
          simpa [hc] using hkey

def IsStrict (c : Char) (rest : List Char) : Prop :=
  NoComment c rest ∧ NoTrailingComma c rest ∧ NoBareKey c rest

theorem isStrict_of_not_isActive (h : isActive c = false) (rest : List Char) :
    IsStrict c rest := by
  refine ⟨?_, ?_, fun hopens => ?_⟩
  · rintro rfl
    cases h
  · rintro rfl
    cases h
  · rcases opensKey_iff.1 hopens with rfl | rfl <;> cases h

theorem isStrict_quoteKeys (h : NoComment c rest ∧ NoTrailingComma c rest) :
    IsStrict c (quoteKeys (Spot.after .outside c) rest) := by
  obtain ⟨hcomment, hcomma⟩ := h
  refine ⟨?_, ?_, fun hopens => ?_⟩
  · rintro rfl
    rw [after_eq_plain fun _ => rfl, head?_quoteKeys]
    exact hcomment rfl
  · rintro rfl
    rw [after_opensKey rfl, closesNext_quoteKeys]
    exact hcomma rfl
  · rw [after_opensKey hopens]
    exact keyNext_quoteKeys rest

theorem next_of_opensKey (h : opensKey c = true) : Scan.outside.next c = .outside := by
  rcases opensKey_iff.1 h with rfl | rfl <;> rfl

theorem next_of_quote : Scan.outside.next '"' = .inside '"' := rfl

theorem next_inside_of_isKeyChar (h : isKeyChar c = true) :
    (Scan.inside '"').next c = .inside '"' := by
  have hquote : c ≠ '"' := by
    rintro rfl
    cases h
  have hslash : c ≠ '\\' := by
    rintro rfl
    cases h
  simp [Scan.next, hquote, hslash]

/-- The third pass, wherever it starts. Inside a key the text it returns is inside a literal. -/
theorem everywhere_quoteKeys
    (h : Everywhere (fun c rest => NoComment c rest ∧ NoTrailingComma c rest) scan s) :
    Everywhere IsStrict scan (quoteKeys (.plain scan) s) ∧
      (scan = .outside → Everywhere IsStrict .outside (quoteKeys .keyMayStart s)) ∧
      (scan = .outside → isKeyAhead s = true →
        Everywhere IsStrict (.inside '"') (quoteKeys .inKey s)) := by
  induction s generalizing scan with
  | nil => exact ⟨trivial, fun _ => trivial, fun _ hahead => by cases hahead⟩
  | cons c rest ih =>
    obtain ⟨hplain, hstart, hkey⟩ := ih h.2
    have hcopy : Everywhere IsStrict scan (c :: quoteKeys (Spot.after scan c) rest) := by
      refine ⟨?_, ?_⟩
      · rintro rfl
        exact isStrict_quoteKeys (h.1 rfl)
      · by_cases hopens : scan = .outside ∧ opensKey c = true
        · obtain ⟨rfl, ho⟩ := hopens
          rw [after_opensKey ho, next_of_opensKey ho]
          exact hstart (next_of_opensKey ho)
        · rw [after_eq_plain fun hscan => Bool.eq_false_iff.2 fun ho => hopens ⟨hscan, ho⟩]
          exact hplain
    refine ⟨by rwa [quoteKeys], ?_, ?_⟩
    · rintro rfl
      cases hb : Text.isBlank c with
      | true =>
        have hnext := next_blank hb
        have hactive := (isBlank_copied hb).1
        rw [quoteKeys_blank hb]
        exact ⟨fun _ => isStrict_of_not_isActive hactive _, by rw [hnext]; exact hstart hnext⟩
      | false =>
        cases hbare : isKeyStart c && isKeyAhead rest with
        | false =>
          rw [quoteKeys_other hb hbare]
          exact hcopy
        | true =>
          obtain ⟨hc, hahead⟩ := Bool.and_eq_true_iff.1 hbare
          have hchar : isKeyChar c = true := by simp [isKeyChar, hc]
          rw [quoteKeys_key hc hahead]
          refine ⟨fun _ => isStrict_of_not_isActive rfl _, fun hscan => ?_, ?_⟩
          · exact absurd hscan (Scan.inside_ne_outside _)
          rw [next_of_quote, next_inside_of_isKeyChar hchar]
          exact hkey (next_of_not_isQuote (isKeyChar_copied hchar).2) hahead
    · rintro rfl hahead
      cases hchar : isKeyChar c with
      | true =>
        rw [quoteKeys, if_pos hchar]
        refine ⟨fun hscan => absurd hscan (Scan.inside_ne_outside _), ?_⟩
        rw [next_inside_of_isKeyChar hchar]
        rw [isKeyAhead_cons hchar] at hahead
        exact hkey (next_of_not_isQuote (isKeyChar_copied hchar).2) hahead
      | false =>
        obtain ⟨hactive, hquote⟩ :=
          copied_of_isBlank_or_colon (isBlank_or_colon hchar hahead)
        have hnext := next_of_not_isQuote hquote
        rw [hnext] at hplain
        rw [quoteKeys, hchar]
        refine ⟨fun hscan => absurd hscan (Scan.inside_ne_outside _),
          fun _ => isStrict_of_not_isActive hactive _, ?_⟩
        change Everywhere IsStrict (Scan.outside.next c) _
        rw [hnext]
        exact hplain

theorem everywhere_strictChars (s : List Char) :
    Everywhere IsStrict .outside (strictChars s) := by
  rw [strictChars_eq]
  have hcomments := everywhere_stripComments (.text .outside) s
  exact (everywhere_quoteKeys (everywhere_dropCommas hcomments)).1

theorem strictChars_eq_self (h : Everywhere IsStrict .outside s) : strictChars s = s := by
  have hcomments := stripComments_eq_self (h.imp fun _ _ hc => hc.1)
  have hcommas := dropCommas_eq_self (h.imp fun _ _ hc => hc.2.1)
  have hkeys := quoteKeys_eq_self (h.imp fun _ _ hc => hc.2.2)
  rw [strictChars_eq, hcomments, hcommas]
  exact hkeys.1

/-- The strict text of any text at all stands for itself. The rounds over the commas come to an end
where a further one changes nothing, after no more of them than there are commas. -/
theorem toStrict_idempotent (text : String) :
    toStrict (toStrict text) = toStrict text ∧
      ∀ s : List Char, commaRound .outside (settleCommas s) = settleCommas s ∧
        ∃ n ≤ s.count ',', settleCommas s = (commaRound .outside)^[n] s := by
  refine ⟨?_, fun s => ⟨commaRound_settleCommas s, exists_rounds s⟩⟩
  rw [toStrict, toStrict, String.toList_ofList]
  exact congrArg _ (strictChars_eq_self (everywhere_strictChars text.toList))

end GatewayFleet.Layer
