import GatewayFleet.Fleet.Roster
import GatewayFleet.Proofs.Members
import GatewayFleet.Proofs.Sorting

/-! Registered accounts, seen through the metadata that is kept for a channel and an account of it.
Registering an account adds it where it is missing and leaves all metadata alone. Pruning takes away
what no binding of the instance names. -/

namespace GatewayFleet

namespace Fields

variable {α β : Type} {fs : Fields α} {k k' : String} {v : α}

theorem get?_insertNew (fs : Fields α) (k : String) (v : α) (k' : String) :
    get? (insertNew fs k v) k' = if k = k' then some ((get? fs k').getD v) else get? fs k' := by
  unfold insertNew has
  by_cases hk : k = k'
  · subst hk
    cases h : get? fs k with
    | none => simpa [h] using get?_insert_self fs k v
    | some old => simp [h]
  · rw [if_neg hk]
    split
    · rfl
    · exact get?_insert_of_ne fs v hk

theorem get?_map (f : String → α → β) (fs : Fields α) (k : String) :
    get? (fs.map fun m => (m.1, f m.1 m.2)) k = (get? fs k).map (f k) := by
  induction fs with
  | nil => rfl
  | cons m fs ih =>
    rw [List.map_cons, get?_cons, get?_cons, ih]
    by_cases h : m.1 = k
    · simp [h]
    · simp [h]

theorem get?_filter (test : String → Bool) (fs : Fields α) (k : String) :
    get? (fs.filter fun m => test m.1) k = if test k then get? fs k else none := by
  induction fs with
  | nil => simp
  | cons m fs ih =>
    rw [List.filter_cons, get?_cons]
    by_cases h : m.1 = k
    · subst h
      cases htest : test m.1 with
      | true => simp [get?_cons]
      | false => simp [ih, htest]
    · cases htest : test m.1 with
      | true => simp [get?_cons, h, ih]
      | false => simp [h, ih]

end Fields

namespace Fleet

variable {i : Instance} {a : Agent} {channel account : String} {info : Value}

def Instance.account? (i : Instance) (channel account : String) : Option Value :=
  (Fields.get? i.channels channel).bind fun c => Fields.get? c.accounts account

def Instance.RegistersAll (i : Instance) (a : Agent) : Prop :=
  ∀ b ∈ a.bindings, (i.account? b.channel b.account).isSome

theorem Instance.get?_register (i : Instance) (channel account name : String) :
    Fields.get? (i.register channel account).channels name =
      if channel = name then
        some { (Fields.get? i.channels name).getD {} with
          accounts := Fields.insertNew ((Fields.get? i.channels name).getD {}).accounts account
            Value.empty }
      else Fields.get? i.channels name := by
  unfold register registerAccount
  by_cases hname : channel = name
  · subst hname
    rw [if_pos rfl, Fields.get?_insert_self]
  · rw [if_neg hname, Fields.get?_insert_of_ne _ _ hname]

theorem Instance.account?_register (i : Instance) (channel account channel' account' : String) :
    (i.register channel account).account? channel' account' =
      if channel = channel' ∧ account = account' then
        some ((i.account? channel' account').getD Value.empty)
      else i.account? channel' account' := by
  unfold account?
  rw [get?_register]
  by_cases hchannel : channel = channel'
  · rw [if_pos hchannel, Option.bind_some, Fields.get?_insertNew]
    cases Fields.get? i.channels channel' with
    | none => by_cases haccount : account = account' <;> simp [hchannel, haccount]
    | some c => by_cases haccount : account = account' <;> simp [hchannel, haccount]
  · rw [if_neg hchannel, if_neg fun h => hchannel h.1]

def Instance.registerAll (i : Instance) (accounts : List Account) : Instance :=
  accounts.foldl (fun i a => i.register a.channel a.account) i

theorem Instance.account?_registerAll (i : Instance) (accounts : List Account)
    (channel account : String) :
    (i.registerAll accounts).account? channel account =
      if ⟨channel, account⟩ ∈ accounts then some ((i.account? channel account).getD Value.empty)
      else i.account? channel account := by
  induction accounts generalizing i with
  | nil => rfl
  | cons a accounts ih =>
    change ((i.register a.channel a.account).registerAll accounts).account? channel account = _
    rw [ih, account?_register]
    by_cases ha : a = ⟨channel, account⟩
    · subst ha
      by_cases hmem : (⟨channel, account⟩ : Account) ∈ accounts <;> simp [hmem]
    · have hne : ¬ (a.channel = channel ∧ a.account = account) := by
        rintro ⟨rfl, rfl⟩
        exact ha rfl
      have hcons : (⟨channel, account⟩ : Account) ∈ a :: accounts ↔
          (⟨channel, account⟩ : Account) ∈ accounts := by
        rw [List.mem_cons, or_iff_right (Ne.symm ha)]
      simp only [hne, if_false, hcons]

theorem Instance.account?_registerAll_of_some (accounts : List Account)
    (h : i.account? channel account = some info) :
    (i.registerAll accounts).account? channel account = some info := by
  rw [account?_registerAll, h, Option.getD_some, ite_self]

theorem Instance.agents_registerAll (i : Instance) (accounts : List Account) :
    (i.registerAll accounts).agents = i.agents := by
  induction accounts generalizing i with
  | nil => rfl
  | cons a accounts ih => exact ih _

theorem Instance.isSome_get?_registerAll (i : Instance) (accounts : List Account) (name : String) :
    (Fields.get? (i.registerAll accounts).channels name).isSome ↔
      (Fields.get? i.channels name).isSome ∨ ∃ x ∈ accounts, x.channel = name := by
  induction accounts generalizing i with
  | nil => simp [registerAll]
  | cons a accounts ih =>
    have hstep : i.registerAll (a :: accounts) =
        (i.register a.channel a.account).registerAll accounts := rfl
    rw [hstep, ih, get?_register]
    by_cases ha : a.channel = name
    · simp [ha]
    · simp [ha]

theorem Instance.get?_prune (i : Instance) (channel : String) :
    Fields.get? i.prune.channels channel =
      (Fields.get? i.channels channel).map (Channel.keep i.boundKeys channel) :=
  Fields.get?_map (Channel.keep i.boundKeys) i.channels channel

theorem Instance.account?_prune (i : Instance) (channel account : String) :
    i.prune.account? channel account =
      if accountKey channel account ∈ i.boundKeys then i.account? channel account else none := by
  have hkeep (c : Channel) : Fields.get? (c.keep i.boundKeys channel).accounts account =
      if i.boundKeys.contains (accountKey channel account) then Fields.get? c.accounts account
      else none :=
    Fields.get?_filter (fun account => i.boundKeys.contains (accountKey channel account)) _ _
  unfold account?
  rw [get?_prune]
  cases Fields.get? i.channels channel with
  | none => simp
  | some c =>
    rw [Option.map_some, Option.bind_some, hkeep]
    simp only [List.contains_iff_mem]
    rfl

theorem Instance.mem_boundKeys {b : Binding} (ha : a ∈ i.agents) (hb : b ∈ a.bindings) :
    b.key ∈ i.boundKeys :=
  List.mem_map_of_mem (List.mem_flatMap.2 ⟨a, ha, hb⟩)

theorem Instance.account?_prune_of_mem {b : Binding} (ha : a ∈ i.agents) (hb : b ∈ a.bindings) :
    i.prune.account? b.channel b.account = i.account? b.channel b.account := by
  rw [account?_prune]
  exact if_pos (mem_boundKeys ha hb)

/-- A text that joins a channel and an account tells them apart when no channel has a colon. -/
theorem eq_of_accountKey {channel' account' : String}
    (h : accountKey channel account = accountKey channel' account')
    (hc : ':' ∉ channel.toList) (hc' : ':' ∉ channel'.toList) :
    channel = channel' ∧ account = account' := by
  have htake (c a : String) (hc : ':' ∉ c.toList) :
      (accountKey c a).toList.takeWhile (· ≠ ':') = c.toList := by
    have hall : ∀ x ∈ c.toList, (decide (x ≠ ':')) = true := by
      intro x hx
      exact decide_eq_true (ne_of_mem_of_not_mem hx hc)
    simp only [accountKey, String.toList_append, List.append_assoc]
    rw [List.takeWhile_append_of_pos hall]
    simp
  have hchannel : channel.toList = channel'.toList := by
    rw [← htake channel account hc, h, htake channel' account' hc']
  obtain rfl := String.toList_inj.1 hchannel
  refine ⟨rfl, ?_⟩
  have hrest := congrArg String.toList h
  simp only [accountKey, String.toList_append, List.append_assoc] at hrest
  exact String.toList_inj.1 (List.cons.inj (List.append_cancel_left hrest)).2

end Fleet

end GatewayFleet
