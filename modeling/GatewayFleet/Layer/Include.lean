import GatewayFleet.Failure
import GatewayFleet.Value.Merge

/-! Layers with what they include. The included layers are loaded in order, each one together with
its own includes, and the body of the including layer is laid over them. A file that is met again
while it is still open closes a cycle. -/

namespace GatewayFleet.Layer

/-- How many entries of the tree are not open yet; it bounds how deep includes can go. -/
def unopened (t : Tree) (opened : List Location) : Nat :=
  (t.entries.filter fun m => m.1 ∉ opened).length

theorem mem_of_find? {es : List (Location × Entry)} {l : Location} {e : Entry}
    (h : Tree.find? es l = some e) : (l, e) ∈ es := by
  induction es with
  | nil => simp [Tree.find?] at h
  | cons m rest ih =>
    by_cases hm : m.1 = l
    · simp only [Tree.find?, hm, if_true, Option.some.injEq] at h
      simp [← hm, ← h]
    · simp only [Tree.find?, hm, if_false] at h
      exact List.mem_cons_of_mem _ (ih h)

theorem mem_entries_of_content? {t : Tree} {l : Location} {content : ByteArray}
    (h : t.content? l = some content) : (l, Entry.file content) ∈ t.entries := by
  unfold Tree.content? Tree.get? at h
  split at h
  · rename_i e he
    split at he
    · cases he
    · injection h with h
      exact mem_of_find? (h ▸ he)
  · cases h

theorem length_filter_lt {α : Type} {p q : α → Bool} {xs : List α} {x : α} (hx : x ∈ xs)
    (hp : p x = true) (hq : q x = false) (hle : ∀ y, q y = true → p y = true) :
    (xs.filter q).length < (xs.filter p).length := by
  induction xs with
  | nil => cases hx
  | cons y ys ih =>
    have hys : (ys.filter q).length ≤ (ys.filter p).length := by
      rw [← List.countP_eq_length_filter, ← List.countP_eq_length_filter]
      exact List.countP_mono_left fun z _ => hle z
    rcases List.mem_cons.1 hx with rfl | hmem
    · simp only [List.filter_cons, hp, hq, if_true, List.length_cons, Bool.false_eq_true, if_false]
      omega
    · have := ih hmem
      by_cases hqy : q y = true
      · simp only [List.filter_cons, hqy, hle y hqy, if_true, List.length_cons]
        omega
      · by_cases hpy : p y = true
        · simp only [List.filter_cons, hqy, hpy, if_true, List.length_cons, Bool.false_eq_true,
            if_false]
          omega
        · simp only [List.filter_cons, hqy, hpy, Bool.false_eq_true, if_false]
          omega

theorem unopened_lt {t : Tree} {opened : List Location} {l : Location} {content : ByteArray}
    (hl : l ∉ opened) (h : t.content? l = some content) :
    unopened t (opened ++ [l]) < unopened t opened := by
  refine length_filter_lt (mem_entries_of_content? h) ?_ ?_ ?_
  · simpa using hl
  · simp
  · intro y hy
    simp only [List.mem_append, List.mem_singleton, not_or, decide_eq_true_eq] at hy ⊢
    exact hy.1

def readAt (t : Tree) (l : Location) : Except Failure (Option Layer) :=
  match t.content? l with
  | none => .ok none
  | some content =>
    match String.fromUTF8? content with
    | none => .error (.refused .readLayer l.toPath .notText)
    | some text =>
      match parse text with
      | .error defect => .error (.defectiveLayer l.toPath defect)
      | .ok layer => .ok (some layer)

theorem content?_of_readAt {t : Tree} {l : Location} {layer : Layer}
    (h : readAt t l = .ok (some layer)) : ∃ content, t.content? l = some content := by
  unfold readAt at h
  split at h
  · cases h
  · exact ⟨_, by assumption⟩

def targets (l : Location) (layer : Layer) : List Location :=
  layer.includes.map fun name => l.directory.toPath.resolve (.ofString name)

/-- Loads a file while the files in `opened`, outermost first, wait for their includes. -/
def loadInto (t : Tree) (opened : List Location) (l : Location) : Except Failure Value :=
  if _hl : l ∈ opened then .error (.includeCycle opened l)
  else
    match _h : readAt t l with
    | .error failure => .error failure
    | .ok none =>
      .error (.missing (if opened.isEmpty then .layer else .includedLayer) l.toPath)
    | .ok (some layer) => do
      let below ← (targets l layer).mapM (loadInto t (opened ++ [l]))
      pure (Value.mergeAll (below ++ [.mapping layer.body]))
termination_by unopened t opened
decreasing_by
  obtain ⟨content, hc⟩ := content?_of_readAt _h
  exact unopened_lt _hl hc

def load (t : Tree) (l : Location) : Except Failure Value := loadInto t [] l

def loadAll (t : Tree) (ls : List Location) : Except Failure Value :=
  (ls.mapM (load t)).map Value.mergeAll

end GatewayFleet.Layer
