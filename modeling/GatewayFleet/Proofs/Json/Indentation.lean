import Mathlib.Data.List.DropRight
import GatewayFleet.Proofs.Json.Recovery

/-! The indented form is read back. Line breaks and the spaces in front of a line stand only where
blank characters are passed over, and between them are the tokens that spell the value. -/

namespace GatewayFleet.Json

variable {d : Nat} {p : Phrase} {v : Value} {items : List Value} {fields : Fields Value}
  {g s r t : List Char}

theorem Derives.of_skipSpace_eq (h : Derives d p s r) (hs : skipSpace t = skipSpace s) :
    Derives d p t r := by
  obtain ⟨ts, hts, hall⟩ := h
  refine ⟨ts, hts, fun us hus => .of_skipSpace ?_⟩
  rw [hs]
  exact (hall us hus).to_skipSpace

theorem Derives.space_append (hg : Space g) (h : Derives d p s r) : Derives d p (g ++ s) r :=
  h.of_skipSpace_eq (skipSpace_append hg s)

theorem Derives.skipSpace (h : Derives d p s r) : Derives d p (skipSpace s) r :=
  h.of_skipSpace_eq (List.dropWhile_idempotent isSpace s)

theorem space_break : Space ['\n'] := List.forall_mem_singleton.2 rfl

theorem space_indent (level : Nat) : Space (indent level).toList := by
  intro c hc
  rw [indent, String.toList_ofList] at hc
  rw [List.eq_of_mem_replicate hc]
  rfl

theorem space_line (level : Nat) : Space ('\n' :: (indent level).toList) :=
  List.forall_mem_cons.2 ⟨rfl, space_indent level⟩

/-- The value is spelled by its indented form, in front of any text that ends it. -/
def Spelled (d : Nat) (v : Value) : Prop :=
  ∀ level t, goesOn t = false → Derives d (.value v) ((prettyAt level v).toList ++ t) t

theorem ReadsBack.spelled (h : ReadsBack d v) (hv : ∀ level, prettyAt level v = compact v) :
    Spelled d v := by
  intro level t ht
  rw [hv level]
  exact derives_of_readValue (h.read t ht) ht

theorem derives_prettyItems (level : Nat) (hne : items ≠ []) (h : ∀ v ∈ items, Spelled d v)
    (hg : Space g) (t : List Char) :
    Derives d (.items items) ((prettyItems level items).toList ++ (g ++ ']' :: t)) t := by
  induction items with
  | nil => exact absurd rfl hne
  | cons v rest ih =>
    obtain ⟨hv, hrest⟩ := List.forall_mem_cons.1 h
    have hclose : skipSpace (g ++ ']' :: t) = ']' :: t := by
      rw [skipSpace_append hg, skipSpace_cons rfl]
    cases rest with
    | nil =>
      have hvalue := hv level _ (goesOn_of_skipSpace_cons hclose rfl)
      have htext : (prettyItems level [v]).toList ++ (g ++ ']' :: t) =
          (indent level).toList ++ ((prettyAt level v).toList ++ (g ++ ']' :: t)) := by
        simp [prettyItems]
      rw [htext]
      exact .lastItem (hvalue.space_append (space_indent level)) hclose
    | cons w rest =>
      have hlist := ih (List.cons_ne_nil w rest) hrest
      have htext : (prettyItems level (v :: w :: rest)).toList ++ (g ++ ']' :: t) =
          (indent level).toList ++ ((prettyAt level v).toList ++ ',' :: ('\n' ::
            ((prettyItems level (w :: rest)).toList ++ (g ++ ']' :: t)))) := by
        simp [prettyItems]
      rw [htext]
      exact .item ((hv level _ rfl).space_append (space_indent level)) (skipSpace_cons rfl _)
        (hlist.space_append space_break).skipSpace

theorem derives_prettyFields (level : Nat) (hne : fields ≠ []) (h : ∀ m ∈ fields, Spelled d m.2)
    (hg : Space g) (t : List Char) :
    Derives d (.members fields) ((prettyFields level fields).toList ++ (g ++ '}' :: t)) t := by
  induction fields with
  | nil => exact absurd rfl hne
  | cons m rest ih =>
    obtain ⟨k, v⟩ := m
    obtain ⟨hv, hrest⟩ := List.forall_mem_cons.1 h
    have hclose : skipSpace (g ++ '}' :: t) = '}' :: t := by
      rw [skipSpace_append hg, skipSpace_cons rfl]
    have hblank : Space [' '] := List.forall_mem_singleton.2 rfl
    have hname : ∀ u, skipSpace ((indent level).toList ++ ((quote k).toList ++ u)) =
        '"' :: (k.toList.flatMap escape ++ '"' :: u) := fun u => by
      rw [skipSpace_append (space_indent level), skipSpace_quote]
    cases rest with
    | nil =>
      have hvalue := hv level _ (goesOn_of_skipSpace_cons hclose rfl)
      have htext : (prettyFields level [(k, v)]).toList ++ (g ++ '}' :: t) =
          (indent level).toList ++ ((quote k).toList ++
            ':' :: ([' '] ++ ((prettyAt level v).toList ++ (g ++ '}' :: t)))) := by
        simp [prettyFields]
      have hmembers := Derives.lastMember (hname _) (readString_escaped _ _)
        (skipSpace_cons rfl _) (hvalue.space_append hblank) hclose
      rw [String.ofList_toList] at hmembers
      rw [htext]
      exact hmembers
    | cons m rest =>
      have hlist := ih (List.cons_ne_nil m rest) hrest
      have htext : (prettyFields level ((k, v) :: m :: rest)).toList ++ (g ++ '}' :: t) =
          (indent level).toList ++ ((quote k).toList ++
            ':' :: ([' '] ++ ((prettyAt level v).toList ++ ',' :: ('\n' ::
              ((prettyFields level (m :: rest)).toList ++ (g ++ '}' :: t)))))) := by
        simp [prettyFields]
      have hmembers := Derives.member (hname _) (readString_escaped _ _) (skipSpace_cons rfl _)
        ((hv level _ rfl).space_append hblank) (skipSpace_cons rfl _)
        (hlist.space_append space_break).skipSpace
      rw [String.ofList_toList] at hmembers
      rw [htext]
      exact hmembers

theorem spelled_list (h : ∀ v ∈ items, Spelled d v) : Spelled (d + 1) (.list items) := by
  intro level t ht
  cases items with
  | nil =>
    have htext : (prettyAt level (.list [])).toList ++ t = '[' :: ']' :: t := by
      simp [prettyAt]
    rw [htext]
    exact .emptyList (skipSpace_cons rfl _) (skipSpace_cons rfl t)
  | cons v rest =>
    have hlist := derives_prettyItems (level + 1) (List.cons_ne_nil v rest) h (space_line level) t
    have htext : (prettyAt level (.list (v :: rest))).toList ++ t =
        '[' :: (['\n'] ++ ((prettyItems (level + 1) (v :: rest)).toList ++
          ('\n' :: (indent level).toList ++ ']' :: t))) := by
      simp [prettyAt]
    rw [htext]
    exact .list (skipSpace_cons rfl _) (hlist.space_append space_break)

theorem spelled_mapping (hnames : Fields.Distinct fields) (h : ∀ m ∈ fields, Spelled d m.2) :
    Spelled (d + 1) (.mapping fields) := by
  intro level t ht
  cases fields with
  | nil =>
    have htext : (prettyAt level (.mapping [])).toList ++ t = '{' :: '}' :: t := by
      simp [prettyAt]
    rw [htext]
    exact .emptyMapping (skipSpace_cons rfl _) (skipSpace_cons rfl t)
  | cons m rest =>
    have hmembers :=
      derives_prettyFields (level + 1) (List.cons_ne_nil m rest) h (space_line level) t
    have htext : (prettyAt level (.mapping (m :: rest))).toList ++ t =
        '{' :: (['\n'] ++ ((prettyFields (level + 1) (m :: rest)).toList ++
          ('\n' :: (indent level).toList ++ '}' :: t))) := by
      simp [prettyAt]
    have hmapping := Derives.mapping (skipSpace_cons rfl _)
      (hmembers.space_append space_break)
    rw [hnames.ofList_eq] at hmapping
    rw [htext]
    exact hmapping

theorem Exact.spelled (h : Exact d v) : Spelled d v := by
  induction h with
  | null => exact (readsBack_null _).spelled fun _ => rfl
  | bool b => exact (readsBack_bool _ b).spelled fun _ => by cases b <;> rfl
  | integer low high => exact (readsBack_integer _ low high).spelled fun _ => rfl
  | string s => exact (readsBack_string _ s).spelled fun _ => rfl
  | list _ ih => exact spelled_list ih
  | mapping names _ ih => exact spelled_mapping names ih

theorem getLast?_pretty (v : Value) : (pretty v).toList.getLast? = some '\n' := by
  rw [pretty, String.toList_append]
  exact List.getLast?_concat

/-- The indented form of an exact value holds that value and nothing else. -/
theorem Exact.read_pretty (h : Exact maxDepth v) : read (pretty v) = .ok v := by
  obtain ⟨ts, hts, hall⟩ := h.spelled 0 ['\n'] rfl
  have hspaced := hall [] (.done space_break)
  rw [List.append_nil] at hspaced
  refine read_eq_ok_iff.2 ⟨ts, hts, ?_⟩
  rw [pretty, String.toList_append]
  exact hspaced

end GatewayFleet.Json
