import Mathlib.Logic.Relation
import GatewayFleet.Proofs.Outcome
import GatewayFleet.Proofs.Layer.Decoration
import GatewayFleet.Layer.Include

/-! When the loading of a layer succeeds: what the start leads to has to be readable, and nothing
of it may lead back to itself. The files that are open while a file is loaded only decide whether
a cycle is reported. -/

namespace GatewayFleet.Layer

variable {t : Tree} {opened : List Location} {l m : Location} {layer : Layer}

def ReadsAs (t : Tree) (l : Location) (layer : Layer) : Prop :=
  ∃ content text, t.content? l = some content ∧ String.fromUTF8? content = some text ∧
    parse text = .ok layer

def Readable (t : Tree) (l : Location) : Prop := ∃ layer, ReadsAs t l layer

def Includes (t : Tree) (l m : Location) : Prop := ∃ layer, ReadsAs t l layer ∧ m ∈ targets l layer

abbrev Reaches (t : Tree) : Location → Location → Prop := Relation.ReflTransGen (Includes t)

def Cyclic (t : Tree) (l : Location) : Prop := Relation.TransGen (Includes t) l l

theorem readAt_eq_some_iff : readAt t l = .ok (some layer) ↔ ReadsAs t l layer := by
  constructor
  · intro h
    unfold readAt at h
    split at h
    · cases h
    · rename_i content hcontent
      split at h
      · cases h
      · rename_i text htext
        split at h
        · cases h
        · rename_i layer' hparse
          cases h
          exact ⟨content, text, hcontent, htext, hparse⟩
  · rintro ⟨content, text, hcontent, htext, hparse⟩
    simp only [readAt, hcontent, htext, hparse]

theorem fromUTF8?_toUTF8 (s : String) : String.fromUTF8? s.toUTF8 = some s := by
  rw [String.fromUTF8?]
  split
  · rfl
  · rename_i h
    exact absurd s.isValidUTF8 h

theorem ReadsAs.of_read {text : String} {v : Value} (h : t.content? l = some text.toUTF8)
    (hv : Json.read text = .ok v) (hlayer : ofValue? v = .ok layer) : ReadsAs t l layer := by
  refine ⟨text.toUTF8, text, h, fromUTF8?_toUTF8 text, ?_⟩
  rw [parse_of_read hv, hlayer]

theorem ReadsAs.unique {layer' : Layer} (h : ReadsAs t l layer) (h' : ReadsAs t l layer') :
    layer = layer' := by
  have heq := (readAt_eq_some_iff.2 h).symm.trans (readAt_eq_some_iff.2 h')
  cases heq
  rfl

theorem not_readable {r : Except Failure (Option Layer)} (h : readAt t l = r)
    (hr : ∀ layer, r ≠ .ok (some layer)) : ¬ Readable t l := by
  rintro ⟨layer, hlayer⟩
  exact hr layer (h.symm.trans (readAt_eq_some_iff.2 hlayer))

theorem readAt_eq_error {failure : Failure} (h : readAt t l = .error failure) :
    failure = .refused .readLayer l.toPath .notText ∨
      ∃ defect, failure = .defectiveLayer l.toPath defect := by
  unfold readAt at h
  split at h
  · cases h
  · split at h
    · exact .inl (Except.error.inj h).symm
    · split at h
      · rename_i defect _
        exact .inr ⟨defect, (Except.error.inj h).symm⟩
      · cases h

theorem readAt_not_cycle {failure : Failure} (h : readAt t l = .error failure) :
    ∀ opened again, failure ≠ .includeCycle opened again := by
  rintro opened again rfl
  rcases readAt_eq_error h with heq | ⟨defect, heq⟩ <;> cases heq

theorem loadInto_opened (h : l ∈ opened) :
    loadInto t opened l = .error (.includeCycle opened l) := by
  rw [loadInto, dif_pos h]

theorem loadInto_error {failure : Failure} (hl : l ∉ opened) (h : readAt t l = .error failure) :
    loadInto t opened l = .error failure := by
  rw [loadInto, dif_neg hl]
  split <;> simp_all

theorem loadInto_missing (hl : l ∉ opened) (h : readAt t l = .ok none) :
    loadInto t opened l =
      .error (.missing (if opened.isEmpty then .layer else .includedLayer) l.toPath) := by
  rw [loadInto, dif_neg hl]
  split <;> simp_all

theorem loadInto_layer (hl : l ∉ opened) (h : ReadsAs t l layer) :
    loadInto t opened l = ((targets l layer).mapM (loadInto t (opened ++ [l]))).map fun below =>
      Value.mergeAll (below ++ [.mapping layer.body]) := by
  have hread := readAt_eq_some_iff.2 h
  rw [loadInto, dif_neg hl]
  split
  · simp_all
  · simp_all
  · rename_i layer' hlayer'
    obtain rfl : layer' = layer := h.unique (readAt_eq_some_iff.1 hlayer') |>.symm
    cases (targets l layer').mapM (loadInto t (opened ++ [l])) <;> rfl

theorem exists_loadInto_layer_iff (hl : l ∉ opened) (h : ReadsAs t l layer) :
    (∃ v, loadInto t opened l = .ok v) ↔
      ∀ m ∈ targets l layer, ∃ w, loadInto t (opened ++ [l]) m = .ok w := by
  rw [loadInto_layer hl h, ← Outcome.exists_mapM_eq_ok_iff]
  constructor
  · rintro ⟨v, hv⟩
    obtain ⟨below, hbelow, -⟩ := Outcome.map_eq_ok hv
    exact ⟨below, hbelow⟩
  · rintro ⟨below, hbelow⟩
    exact ⟨_, by rw [hbelow]; rfl⟩

def Fit (t : Tree) (opened : List Location) (m : Location) : Prop :=
  Readable t m ∧ m ∉ opened ∧ ¬ Cyclic t m

theorem includes_iff (h : ReadsAs t l layer) : Includes t l m ↔ m ∈ targets l layer := by
  constructor
  · rintro ⟨layer', hlayer', hm⟩
    rwa [h.unique hlayer']
  · exact fun hm => ⟨layer, h, hm⟩

/-- Opening one more file comes to the same as asking that what it leads to does not come back. -/
theorem fit_step (hl : l ∉ opened) (h : ReadsAs t l layer) :
    (∀ n, Reaches t l n → Fit t opened n) ↔
      ∀ m ∈ targets l layer, ∀ n, Reaches t m n → Fit t (opened ++ [l]) n := by
  constructor
  · intro hall m hm n hn
    have hstep : Includes t l m := (includes_iff h).2 hm
    obtain ⟨hread, hopened, hcyclic⟩ := hall n (.head hstep hn)
    have hne : n ≠ l := by
      rintro rfl
      exact hcyclic (.head' hstep hn)
    refine ⟨hread, ?_, hcyclic⟩
    rw [List.mem_append, List.mem_singleton, not_or]
    exact ⟨hopened, hne⟩
  · intro hall n hn
    -- A cycle through the file itself would meet it while it is open.
    rcases Relation.ReflTransGen.cases_head hn with rfl | ⟨m, hm, hn⟩
    · refine ⟨⟨layer, h⟩, hl, fun hcyclic => ?_⟩
      obtain ⟨m, hm, hback⟩ := Relation.TransGen.head'_iff.1 hcyclic
      obtain ⟨-, hopened, -⟩ := hall m ((includes_iff h).1 hm) l hback
      exact hopened (List.mem_append_right _ (List.mem_singleton_self l))
    · obtain ⟨hread, hopened, hcyclic⟩ := hall m ((includes_iff h).1 hm) n hn
      exact ⟨hread, fun hmem => hopened (List.mem_append_left _ hmem), hcyclic⟩

theorem exists_loadInto_eq_ok_iff (t : Tree) (opened : List Location) (l : Location) :
    (∃ v, loadInto t opened l = .ok v) ↔ ∀ n, Reaches t l n → Fit t opened n := by
  induction opened, l using loadInto.induct t with
  | case1 opened l hl =>
    rw [loadInto_opened hl]
    exact ⟨nofun, fun hall => absurd hl (hall l .refl).2.1⟩
  | case2 opened l hl failure hfailure =>
    rw [loadInto_error hl hfailure]
    exact ⟨nofun, fun hall => absurd (hall l .refl).1 (not_readable hfailure nofun)⟩
  | case3 opened l hl hnone =>
    rw [loadInto_missing hl hnone]
    exact ⟨nofun, fun hall => absurd (hall l .refl).1 (not_readable hnone nofun)⟩
  | case4 opened l hl layer hlayer ih =>
    have hreads := readAt_eq_some_iff.1 hlayer
    rw [exists_loadInto_layer_iff hl hreads, fit_step hl hreads]
    exact forall₂_congr fun m _ => ih m

/-- What a failure tells: a cycle is only reported for a location that was met again, anything
else only where a location cannot be read. -/
def Explains (t : Tree) (opened : List Location) (l : Location) (failure : Failure) : Prop :=
  (∃ chain again, failure = .includeCycle chain again ∧ Reaches t l again ∧
      (again ∈ opened ∨ Cyclic t again)) ∨
    ((∀ chain again, failure ≠ .includeCycle chain again) ∧ ∃ m, Reaches t l m ∧ ¬ Readable t m)

theorem Explains.head {failure : Failure} (h : ReadsAs t l layer) (hm : m ∈ targets l layer)
    (he : Explains t (opened ++ [l]) m failure) : Explains t opened l failure := by
  have hstep : Includes t l m := (includes_iff h).2 hm
  rcases he with ⟨chain, again, hf, hreach, hagain⟩ | ⟨hf, n, hreach, hn⟩
  · refine .inl ⟨chain, again, hf, .head hstep hreach, ?_⟩
    rcases hagain with hmem | hcyclic
    · rcases List.mem_append.1 hmem with hmem | hmem
      · exact .inl hmem
      · obtain rfl := List.mem_singleton.1 hmem
        exact .inr (.head' hstep hreach)
    · exact .inr hcyclic
  · exact .inr ⟨hf, n, .head hstep hreach, hn⟩

theorem explains_of_loadInto {failure : Failure} (h : loadInto t opened l = .error failure) :
    Explains t opened l failure := by
  induction opened, l using loadInto.induct t with
  | case1 opened l hl =>
    rw [loadInto_opened hl] at h
    obtain rfl := Except.error.inj h
    exact .inl ⟨opened, l, rfl, .refl, .inl hl⟩
  | case2 opened l hl failure' hfailure =>
    rw [loadInto_error hl hfailure] at h
    obtain rfl := Except.error.inj h
    exact .inr ⟨readAt_not_cycle hfailure, l, .refl, not_readable hfailure nofun⟩
  | case3 opened l hl hnone =>
    rw [loadInto_missing hl hnone] at h
    obtain rfl := Except.error.inj h
    exact .inr ⟨nofun, l, .refl, not_readable hnone nofun⟩
  | case4 opened l hl layer hlayer ih =>
    have hreads := readAt_eq_some_iff.1 hlayer
    rw [loadInto_layer hl hreads] at h
    obtain ⟨m, hm, hfails⟩ := Outcome.exists_of_mapM_eq_error (Outcome.map_eq_error h)
    exact .head hreads hm (ih m hfails)

/-- Loading that waits for at most so many files at once; `none` where more of them are met. -/
def loadWithin (t : Tree) : Nat → List Location → Location → ExceptT Failure Option Value
  | 0, _, _ => ExceptT.mk none
  | n + 1, opened, l =>
    if l ∈ opened then throw (.includeCycle opened l)
    else
      match readAt t l with
      | .error failure => throw failure
      | .ok none => throw (.missing (if opened.isEmpty then .layer else .includedLayer) l.toPath)
      | .ok (some layer) => do
        let below ← (targets l layer).mapM (loadWithin t n (opened ++ [l]))
        pure (Value.mergeAll (below ++ [.mapping layer.body]))

theorem loadWithin_eq_some {n : Nat} (h : unopened t opened < n) (l : Location) :
    loadWithin t n opened l = ExceptT.mk (some (loadInto t opened l)) := by
  induction n generalizing opened l with
  | zero => omega
  | succ n ih =>
    rw [loadWithin]
    by_cases hl : l ∈ opened
    · rw [if_pos hl, loadInto_opened hl]
      rfl
    · rw [if_neg hl]
      cases hread : readAt t l with
      | error failure =>
        rw [loadInto_error hl hread]
        rfl
      | ok found =>
        cases found with
        | none =>
          rw [loadInto_missing hl hread]
          rfl
        | some layer =>
          obtain ⟨content, hcontent⟩ := content?_of_readAt hread
          have hfewer : unopened t (opened ++ [l]) < n := by
            have hlt := unopened_lt hl hcontent
            omega
          have hbelow := Outcome.mapM_eq_some fun m (_ : m ∈ targets l layer) => ih hfewer m
          simp only [hbelow, loadInto_layer hl (readAt_eq_some_iff.1 hread)]
          cases (targets l layer).mapM (loadInto t (opened ++ [l])) <;> rfl

theorem unopened_lt_length (t : Tree) : unopened t [] < t.entries.length + 1 :=
  Nat.lt_succ_of_le (List.length_filter_le _ _)

/-- Loading never waits for more files than there are, so it ends. It succeeds exactly when all
that the path leads to is readable and free of cycles. A cycle is reported only where there is
one, and always where nothing else is wrong. -/
theorem load_ok_iff_acyclic (t : Tree) (p : Path) :
    loadWithin t (t.entries.length + 1) [] p.locate = ExceptT.mk (some (load t p.locate)) ∧
      ((∃ v, load t p.locate = .ok v) ↔
        ∀ m, Reaches t p.locate m → Readable t m ∧ ¬ Cyclic t m) ∧
      (∀ chain again, load t p.locate = .error (.includeCycle chain again) →
        Reaches t p.locate again ∧ Cyclic t again) ∧
      ((∀ m, Reaches t p.locate m → Readable t m) → (∃ m, Reaches t p.locate m ∧ Cyclic t m) →
        ∃ chain again, load t p.locate = .error (.includeCycle chain again)) := by
  have hok : (∃ v, load t p.locate = .ok v) ↔
      ∀ m, Reaches t p.locate m → Readable t m ∧ ¬ Cyclic t m := by
    rw [load, exists_loadInto_eq_ok_iff]
    constructor
    · intro hall m hm
      obtain ⟨hread, -, hcyclic⟩ := hall m hm
      exact ⟨hread, hcyclic⟩
    · intro hall m hm
      obtain ⟨hread, hcyclic⟩ := hall m hm
      exact ⟨hread, List.not_mem_nil, hcyclic⟩
  refine ⟨loadWithin_eq_some (unopened_lt_length t) _, hok, ?_, ?_⟩
  · intro chain again h
    rcases explains_of_loadInto h with ⟨chain', again', hf, hreach, hagain⟩ | ⟨hf, -⟩
    · obtain ⟨rfl, rfl⟩ := Failure.includeCycle.inj hf
      exact ⟨hreach, hagain.resolve_left List.not_mem_nil⟩
    · exact absurd rfl (hf chain again)
  · rintro hread ⟨m, hm, hcyclic⟩
    cases h : load t p.locate with
    | ok v => exact absurd hcyclic (hok.1 ⟨v, h⟩ m hm).2
    | error failure =>
      rcases explains_of_loadInto h with ⟨chain, again, hf, -, -⟩ | ⟨-, n, hn, hunreadable⟩
      · exact ⟨chain, again, by rw [hf]⟩
      · exact absurd (hread n hn) hunreadable

end GatewayFleet.Layer
