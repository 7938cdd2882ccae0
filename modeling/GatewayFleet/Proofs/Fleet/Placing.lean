import GatewayFleet.Proofs.Fleet.Reporting

/-! Reading a record at another place. No reader looks at the place it is given, so the same record
at another place is read the same way, and what is reported of it is reported there. -/

namespace GatewayFleet.Fleet

/-- The issue with its place seen from further up, where `place` leads to what it was seen from. -/
def Issue.under (place : Place) : Issue → Issue
  | .shape p problem => .shape (place ++ p) problem
  | issue => issue

@[simp] theorem Issue.kind_under (place : Place) (issue : Issue) :
    (issue.under place).kind = issue.kind := by
  cases issue <;> rfl

theorem Issue.under_eq_self {place : Place} {issue : Issue} (h : issue.kind ≠ .structural) :
    issue.under place = issue := by
  cases issue with
  | shape p problem => exact absurd rfl h
  | _ => rfl

namespace Checked

variable {α β : Type}

def under (place : Place) (x : Checked α) : Checked α :=
  ⟨x.issues.map (Issue.under place), x.value⟩

@[simp] theorem value_under (place : Place) (x : Checked α) : (x.under place).value = x.value := rfl

@[simp] theorem under_pure (place : Place) (a : α) :
    (pure a : Checked α).under place = pure a := rfl

@[simp] theorem under_faulty (place p : Place) (problem : Problem) (a : α) :
    (faulty p problem a).under place = faulty (place ++ p) problem a := rfl

@[simp] theorem under_report (place p : Place) (problem : Problem) :
    (report (.shape p problem)).under place = report (.shape (place ++ p) problem) := rfl

theorem under_bind (place : Place) (x : Checked α) (f : α → Checked β) :
    (x >>= f).under place = x.under place >>= fun a => (f a).under place := by
  simp only [under, bind, List.map_append]

theorem under_eq_self {place : Place} {x : Checked α}
    (h : ∀ issue ∈ x.issues, issue.kind ≠ .structural) : x.under place = x := by
  have hmap : x.issues.map (Issue.under place) = x.issues :=
    (List.map_congr_left fun issue hissue => Issue.under_eq_self (h issue hissue)).trans
      (List.map_id _)
  rw [under, hmap]

theorem OnlyCollisions.under_eq_self {place : Place} {x : Checked α} (h : x.OnlyCollisions) :
    x.under place = x := by
  refine Checked.under_eq_self fun issue hissue => ?_
  rw [h issue hissue]
  decide

def All (P : Issue → Prop) (x : Checked α) : Prop := ∀ issue ∈ x.issues, P issue

variable {P : Issue → Prop}

theorem all_pure (a : α) : (pure a : Checked α).All P := List.forall_mem_nil _

theorem All.bind {x : Checked α} {f : α → Checked β} (hx : x.All P) (hf : ∀ a, (f a).All P) :
    (x >>= f).All P :=
  List.forall_mem_append.2 ⟨hx, hf _⟩

theorem All.foldlM {f : α → β → Checked α} (hf : ∀ a b, (f a b).All P) (a : α) (bs : List β) :
    (bs.foldlM f a).All P := by
  induction bs generalizing a with
  | nil => exact all_pure a
  | cons b bs ih =>
    rw [List.foldlM_cons]
    exact (hf a b).bind ih

end Checked

open Checked (All OnlyCollisions under_bind)

variable (place : Place)

namespace Section

def under (s : Section) : Section := ⟨s.fields, place ++ s.place⟩

variable (s : Section) (k : String)

@[simp] theorem get?_under : (s.under place).get? k = s.get? k := rfl

@[simp] theorem without_under (known : List String) :
    (s.under place).without known = s.without known := rfl

@[simp] theorem at_under : (s.under place).at_ k = place ++ s.at_ k := List.append_assoc ..

theorem mk_append (fs : Fields Value) (p : Place) :
    (⟨fs, place ++ p⟩ : Section) = (⟨fs, p⟩ : Section).under place := rfl

theorem mapping_under : (s.under place).mapping k = (s.mapping k).under place := by
  simp only [mapping, get?_under, at_under]
  split <;> simp

theorem optionalMapping_under :
    (s.under place).optionalMapping k = (s.optionalMapping k).under place := by
  simp only [optionalMapping, get?_under, at_under]
  split <;> simp

theorem string_under : (s.under place).string k = (s.string k).under place := by
  simp only [string, get?_under, at_under]
  split <;> simp

theorem optionalString_under :
    (s.under place).optionalString k = (s.optionalString k).under place := by
  simp only [optionalString, get?_under, at_under]
  split
  · simp
  · simp
  · split <;> simp

theorem texts_under (p : Place) (problem : Value → Problem) (i : Nat) (items : List Value) :
    texts (place ++ p) problem i items = (texts p problem i items).under place := by
  induction items generalizing i with
  | nil => rfl
  | cons v items ih =>
    cases v with
    | string t => simp only [texts, ih, under_bind, Checked.under_pure]
    | null | bool _ | number _ | list _ | mapping _ =>
      simp only [texts, ih, under_bind, Checked.under_report, List.append_assoc]

theorem optionalStrings_under :
    (s.under place).optionalStrings k = (s.optionalStrings k).under place := by
  simp only [optionalStrings, get?_under, at_under]
  split
  · simp
  · simp
  · simp only [texts_under, under_bind, Checked.under_pure]
  · simp

theorem strings_under : (s.under place).strings k = (s.strings k).under place := by
  simp only [strings, optionalStrings_under, under_bind, Checked.under_pure]

theorem policy_under : (s.under place).policy k = (s.policy k).under place := by
  simp only [policy, optionalMapping_under, under_bind, at_under]
  refine bind_congr fun m => ?_
  split
  · simp
  · split <;> simp

end Section

open Section (mapping_under optionalMapping_under string_under optionalString_under texts_under
  optionalStrings_under strings_under policy_under at_under get?_under without_under mk_append)

variable (s : Section)

theorem Host.read_under : Host.read (s.under place) = (Host.read s).under place := by
  unfold Host.read
  simp only [get?_under]
  cases port? (s.get? "gateway_port") <;>
    simp only [optionalString_under, under_bind, at_under, without_under, Checked.under_pure,
      Checked.under_faulty]

theorem RolePaths.read_under : RolePaths.read (s.under place) = (RolePaths.read s).under place := by
  simp only [RolePaths.read, string_under, under_bind, without_under, Checked.under_pure]

@[simp] theorem runtimeKey_under : runtimeKey (s.under place) = runtimeKey s := rfl

theorem RuntimeBlock.read_under :
    RuntimeBlock.read (s.under place) = (RuntimeBlock.read s).under place := by
  simp only [RuntimeBlock.read, runtimeKey_under, mapping_under, under_bind]
  refine bind_congr fun m => ?_
  cases m with
  | none => rfl
  | some fs =>
    simp only [at_under, mk_append, get?_under]
    split
    · simp only [texts_under, under_bind, without_under, Checked.under_pure]
    · simp

theorem Role.read_under : Role.read (s.under place) = (Role.read s).under place := by
  simp only [Role.read, get?_under, at_under]
  split
  · simp
  · simp
  · split <;> simp
  · simp

theorem Binding.read_under (p : Place) (v : Value) :
    Binding.read (place ++ p) v = (Binding.read p v).under place := by
  unfold Binding.read
  split
  · split
    · simp only
      split <;> simp
    · simp
  · simp

theorem Binding.readAll_under (p : Place) (i : Nat) (items : List Value) :
    Binding.readAll (place ++ p) i items = (Binding.readAll p i items).under place := by
  induction items generalizing i with
  | nil => rfl
  | cons v items ih =>
    simp only [Binding.readAll, ih, List.append_assoc, Binding.read_under, under_bind,
      Checked.under_pure]

theorem Agent.readBindings_under :
    Agent.readBindings (s.under place) = (Agent.readBindings s).under place := by
  simp only [Agent.readBindings, get?_under, at_under]
  split
  · exact Binding.readAll_under ..
  · simp

theorem Agent.read_under : Agent.read (s.under place) = (Agent.read s).under place := by
  simp only [Agent.read, get?_under]
  split
  · simp
  · simp only [Role.read_under, Agent.readBindings_under, optionalString_under, strings_under,
      optionalStrings_under, policy_under, under_bind, without_under, Checked.under_pure]

theorem accountsOfList_under (p : Place) (items : List Value) :
    accountsOfList (place ++ p) items = (accountsOfList p items).under place := by
  simp only [accountsOfList, texts_under, under_bind, Checked.under_pure]

theorem readAccounts_under (p : Place) (fs : Fields Value) :
    readAccounts (place ++ p) fs = (readAccounts p fs).under place := by
  simp only [readAccounts, List.append_assoc]
  split
  · simp
  · simp
  · exact accountsOfList_under ..
  · simp
  · simp

theorem Channel.read_under (p : Place) (v : Value) :
    Channel.read (place ++ p) v = (Channel.read p v).under place := by
  cases v with
  | null => rfl
  | list items => simp only [Channel.read, accountsOfList_under, under_bind, Checked.under_pure]
  | mapping fs =>
    simp only [Channel.read_mapping, readAccounts_under, under_bind, Checked.under_pure]
  | bool _ | number _ | string _ => rfl

theorem Channel.readAll_under (p : Place) (fs : Fields Value) :
    Channel.readAll (place ++ p) fs = (Channel.readAll p fs).under place := by
  induction fs with
  | nil => rfl
  | cons m fs ih =>
    simp only [Channel.readAll, ih, List.append_assoc, Channel.read_under, under_bind,
      Checked.under_pure]

theorem readChannels_under : readChannels (s.under place) = (readChannels s).under place := by
  simp only [readChannels, optionalMapping_under, under_bind]
  refine bind_congr fun m => ?_
  cases m with
  | none => rfl
  | some fs => simp only [at_under, Channel.readAll_under, under_bind, Checked.under_pure]

theorem onlyCollisions_claimPorts (taken : List PortRange) (range : PortRange) :
    (claimPorts taken range).OnlyCollisions := by
  intro issue hissue
  obtain ⟨earlier, -, rfl⟩ := List.mem_map.1 hissue
  rfl

theorem all_claimPaths {P : Issue → Prop}
    (h : ∀ role id raw owner, P (.sharedPath role id raw owner)) (dir : Path) (id : String)
    (raw : Fields Value) (taken : List PathClaim) : (claimPaths dir id raw taken).All P := by
  refine All.foldlM (fun taken role => ?_) taken _
  unfold claimPath
  split
  · exact Checked.all_pure _
  · simp only
    split
    · exact List.forall_mem_singleton.2 (h _ _ _ _)
    · exact Checked.all_pure _

theorem all_claimName {P : Issue → Prop} {issue : String → Issue} (h : ∀ name, P (issue name))
    (taken : List String) (name : String) : (claimName issue taken name).All P := by
  unfold claimName
  split
  · exact List.forall_mem_singleton.2 (h name)
  · exact Checked.all_pure _

theorem Seats.all_claim {P : Issue → Prop} (hworkspace : ∀ name, P (.duplicateWorkspace name))
    (hagentDir : ∀ name, P (.duplicateAgentDir name)) (hbinding : ∀ key, P (.duplicateBinding key))
    (seats : Seats) (a : Agent) : (seats.claim a).All P :=
  (all_claimName hworkspace _ _).bind fun _ => (all_claimName hagentDir _ _).bind fun _ =>
    (All.foldlM (all_claimName hbinding) _ _).bind fun _ => Checked.all_pure _

theorem Seats.onlyCollisions_claim (seats : Seats) (a : Agent) : (seats.claim a).OnlyCollisions :=
  seats.all_claim (fun _ => rfl) (fun _ => rfl) (fun _ => rfl) a

theorem Agent.readAll_under (p : Place) (i : Nat) (seats : Seats) (items : List Value) :
    Agent.readAll (place ++ p) i seats items = (Agent.readAll p i seats items).under place := by
  induction items generalizing i seats with
  | nil => rfl
  | cons v items ih =>
    cases v with
    | mapping fs =>
      simp only [Agent.readAll, List.append_assoc, mk_append, Agent.read_under, under_bind]
      refine bind_congr fun found => ?_
      cases found with
      | none => exact ih _ _
      | some a =>
        by_cases hid : a.id ∈ seats.ids
        · simp only [hid, if_true, ih, under_bind]
          rfl
        · -- taking a seat reports collisions at most, and these have no place
          simp only [hid, if_false, ih, under_bind, (seats.onlyCollisions_claim a).under_eq_self,
            Checked.under_pure]
    | null | bool _ | number _ | string _ | list _ =>
      simp only [Agent.readAll, List.append_assoc, ih, under_bind, Checked.under_report]

theorem readAgents_under : readAgents (s.under place) = (readAgents s).under place := by
  simp only [readAgents, get?_under, at_under]
  split
  · simp
  · simp
  · exact Agent.readAll_under ..
  · simp

end GatewayFleet.Fleet
