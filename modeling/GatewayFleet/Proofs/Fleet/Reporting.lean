import GatewayFleet.Proofs.Fleet.Admission

/-! What the readers report. The reader of a record reports nothing but the shape of values,
whatever the record, so it passes as soon as it reports only collisions. -/

namespace GatewayFleet.Fleet

namespace Checked

variable {α β : Type} {x : Checked α} {f : α → Checked β}

def OfShape (x : Checked α) : Prop := ∀ issue ∈ x.issues, issue.kind = .structural

def OnlyCollisions (x : Checked α) : Prop := ∀ issue ∈ x.issues, issue.kind = .collision

@[simp] theorem ofShape_pure (a : α) : (pure a : Checked α).OfShape := List.forall_mem_nil _

@[simp] theorem ofShape_faulty (place : Place) (problem : Problem) (a : α) :
    (faulty place problem a).OfShape := by
  simp [faulty, OfShape, Issue.kind]

theorem OfShape.bind (hx : x.OfShape) (hf : ∀ a, (f a).OfShape) : (x >>= f).OfShape := by
  intro issue hissue
  rcases List.mem_append.1 hissue with hissue | hissue
  · exact hx issue hissue
  · exact hf _ issue hissue

theorem ofShape_report (place : Place) (problem : Problem) :
    (report (.shape place problem)).OfShape := by
  simp [report, OfShape, Issue.kind]

@[simp] theorem onlyCollisions_pure (a : α) : (pure a : Checked α).OnlyCollisions :=
  List.forall_mem_nil _

@[simp] theorem onlyCollisions_bind_iff :
    (x >>= f).OnlyCollisions ↔ x.OnlyCollisions ∧ (f x.value).OnlyCollisions := by
  simp only [OnlyCollisions, issues_bind, List.forall_mem_append]

@[simp] theorem not_onlyCollisions_faulty (place : Place) (problem : Problem) (a : α) :
    ¬ (faulty place problem a).OnlyCollisions := by
  simp [faulty, OnlyCollisions, Issue.kind]

@[simp] theorem not_onlyCollisions_report (place : Place) (problem : Problem) :
    ¬ (report (.shape place problem)).OnlyCollisions := by
  simp [report, OnlyCollisions, Issue.kind]

/-- A reader that could only have found fault with shapes, and did not, passes. -/
theorem OfShape.eq_pure (hx : x.OfShape) (h : x.OnlyCollisions) : x = pure x.value := by
  refine eq_pure_iff.2 ⟨List.eq_nil_iff_forall_not_mem.2 fun issue hissue => ?_, rfl⟩
  cases (hx issue hissue).symm.trans (h issue hissue)

end Checked

open Checked (OfShape ofShape_pure ofShape_faulty ofShape_report)

variable {s : Section} {place : Place}

namespace Section

theorem ofShape_mapping (s : Section) (k : String) : (s.mapping k).OfShape := by
  unfold mapping
  split <;> simp

theorem ofShape_optionalMapping (s : Section) (k : String) : (s.optionalMapping k).OfShape := by
  unfold optionalMapping
  split <;> simp

theorem ofShape_string (s : Section) (k : String) : (s.string k).OfShape := by
  unfold string
  split <;> simp

theorem ofShape_optionalString (s : Section) (k : String) : (s.optionalString k).OfShape := by
  unfold optionalString
  split
  · simp
  · simp
  · split <;> simp

theorem ofShape_texts (place : Place) (problem : Value → Problem) (i : Nat) (items : List Value) :
    (texts place problem i items).OfShape := by
  induction items generalizing i with
  | nil => exact ofShape_pure _
  | cons item items ih =>
    cases item with
    | string t => exact (ih _).bind fun _ => ofShape_pure _
    | null | bool _ | number _ | list _ | mapping _ => exact (ofShape_report _ _).bind fun _ => ih _

theorem ofShape_optionalStrings (s : Section) (k : String) : (s.optionalStrings k).OfShape := by
  unfold optionalStrings
  split
  · simp
  · simp
  · exact (ofShape_texts _ _ _ _).bind fun _ => ofShape_pure _
  · simp

theorem ofShape_strings (s : Section) (k : String) : (s.strings k).OfShape :=
  (ofShape_optionalStrings s k).bind fun _ => ofShape_pure _

theorem ofShape_policy (s : Section) (k : String) : (s.policy k).OfShape := by
  refine (ofShape_optionalMapping s k).bind fun m => ?_
  split
  · simp
  · split <;> simp

end Section

theorem Defaults.ofShape_read (m : Option (Fields Value)) : (Defaults.read m).OfShape := by
  cases m with
  | none => exact ofShape_pure _
  | some fs =>
    rw [read_some]
    refine OfShape.bind ?_ fun _ => (Section.ofShape_policy _ _).bind fun _ => ofShape_pure _
    unfold readStride
    split
    · simp
    · simp
    · split <;> simp

theorem Host.ofShape_read (s : Section) : (Host.read s).OfShape := by
  have hbind := s.ofShape_optionalString "bind"
  unfold Host.read
  cases port? (s.get? "gateway_port") with
  | none => exact (ofShape_faulty _ _ _).bind fun _ => hbind.bind fun _ => ofShape_pure _
  | some p => exact (ofShape_pure _).bind fun _ => hbind.bind fun _ => ofShape_pure _

theorem RolePaths.ofShape_read (s : Section) : (RolePaths.read s).OfShape :=
  (Section.ofShape_string _ _).bind fun _ => (Section.ofShape_string _ _).bind fun _ =>
    (Section.ofShape_string _ _).bind fun _ => (Section.ofShape_string _ _).bind fun _ =>
      ofShape_pure _

theorem RuntimeBlock.ofShape_read (s : Section) : (RuntimeBlock.read s).OfShape := by
  refine (s.ofShape_mapping _).bind fun m => ?_
  split
  · exact ofShape_pure _
  · simp only
    split
    · exact (Section.ofShape_texts _ _ _ _).bind fun _ => ofShape_pure _
    · exact ofShape_faulty _ _ _

theorem Role.ofShape_read (s : Section) : (Role.read s).OfShape := by
  unfold Role.read
  split
  · simp
  · simp
  · split <;> simp
  · simp

theorem Binding.ofShape_read (place : Place) (v : Value) : (Binding.read place v).OfShape := by
  unfold Binding.read
  split
  · split
    · simp only
      split <;> simp
    · simp
  · simp

theorem Binding.ofShape_readAll (place : Place) (i : Nat) (items : List Value) :
    (Binding.readAll place i items).OfShape := by
  induction items generalizing i with
  | nil => exact ofShape_pure _
  | cons v items ih =>
    exact (Binding.ofShape_read _ _).bind fun _ => (ih _).bind fun _ => ofShape_pure _

theorem Agent.ofShape_readBindings (s : Section) : (Agent.readBindings s).OfShape := by
  unfold Agent.readBindings
  split
  · exact Binding.ofShape_readAll _ _ _
  · exact ofShape_faulty _ _ _

theorem Agent.ofShape_read (s : Section) : (Agent.read s).OfShape := by
  unfold Agent.read
  split
  · exact ofShape_faulty _ _ _
  · exact (Role.ofShape_read s).bind fun _ => (Agent.ofShape_readBindings s).bind fun _ =>
      (s.ofShape_optionalString _).bind fun _ => (s.ofShape_optionalString _).bind fun _ =>
      (s.ofShape_strings _).bind fun _ => (s.ofShape_strings _).bind fun _ =>
      (s.ofShape_optionalStrings _).bind fun _ => (s.ofShape_optionalString _).bind fun _ =>
      (s.ofShape_policy _).bind fun _ => ofShape_pure _

theorem ofShape_accountsOfList (place : Place) (items : List Value) :
    (accountsOfList place items).OfShape :=
  (Section.ofShape_texts _ _ _ _).bind fun _ => ofShape_pure _

theorem Channel.ofShape_read (place : Place) (v : Value) : (Channel.read place v).OfShape := by
  cases v with
  | null => exact ofShape_pure _
  | list items => exact (ofShape_accountsOfList _ _).bind fun _ => ofShape_pure _
  | mapping fs =>
    rw [read_mapping]
    refine OfShape.bind ?_ fun _ => ofShape_pure _
    unfold readAccounts
    split
    · simp
    · simp
    · exact ofShape_accountsOfList _ _
    · simp
    · simp
  | bool _ | number _ | string _ => exact ofShape_faulty _ _ _

theorem Channel.ofShape_readAll (place : Place) (fs : Fields Value) :
    (Channel.readAll place fs).OfShape := by
  induction fs with
  | nil => exact ofShape_pure _
  | cons m fs ih => exact (Channel.ofShape_read _ _).bind fun _ => ih.bind fun _ => ofShape_pure _

theorem ofShape_readChannels (s : Section) : (readChannels s).OfShape := by
  refine (s.ofShape_optionalMapping _).bind fun m => ?_
  split
  · exact ofShape_pure _
  · exact (Channel.ofShape_readAll _ _).bind fun _ => ofShape_pure _

end GatewayFleet.Fleet
