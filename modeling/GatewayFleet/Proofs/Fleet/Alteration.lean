import GatewayFleet.Proofs.Fleet.Editing

/-! What an operation on the agents of one instance makes of an inventory, part by part: one agent
more or less, and the accounts that go with it. All the rest is as it was. -/

namespace GatewayFleet.Fleet

variable {i j k : Instance} {inv : Inventory} {id : String} {op : Operation}

def Instance.channelExtra (i : Instance) (name : String) : Fields Value :=
  ((Fields.get? i.channels name).map (·.extra)).getD []

/-- Only agents, the channels that there are and their accounts may differ. -/
structure Instance.Tended (i j : Instance) : Prop where
  rest : { j with agents := i.agents, channels := i.channels } = i
  extra : ∀ name, j.channelExtra name = i.channelExtra name

/-- One agent more with its accounts, or one agent less, where no other part has changed. -/
inductive Operation.Adjusts (i j : Instance) : Operation → Prop
  | add {spec : AgentSpec} {accounts : List Account} (htended : i.Tended j)
      (haccounts : spec.accounts.mapM Account.parse = .ok accounts)
      (hagents : j.agents = i.agents ++ [spec.agent (Text.trim spec.id) accounts])
      (hchannels : ∀ name, (Fields.get? j.channels name).isSome ↔
        (Fields.get? i.channels name).isSome ∨ ∃ x ∈ accounts, x.channel = name)
      (hregistered : ∀ channel account, j.account? channel account =
        if ⟨channel, account⟩ ∈ accounts then
          some ((i.account? channel account).getD Value.empty)
        else i.account? channel account) : Adjusts i j (.add spec)
  | remove {before after : List Agent} {a : Agent} {pruned : Bool} (htended : i.Tended j)
      (hagents : i.agents = before ++ a :: after) (hleft : j.agents = before ++ after)
      (hchannels : ∀ name, (Fields.get? j.channels name).isSome =
        (Fields.get? i.channels name).isSome)
      (hpruned : ∀ channel account, j.account? channel account =
        if pruned = true ∧ accountKey channel account ∉ j.boundKeys then none
        else i.account? channel account) : Adjusts i j (.remove a.id pruned)

def Inventory.Altered (inv : Inventory) (id : String) (op : Operation) (inv' : Inventory) : Prop :=
  ∃ before i j after, inv.instances = before ++ i :: after ∧ i.id = id ∧ op.Adjusts i j ∧
    inv' = { inv with instances := before ++ j :: after }

section

variable {α : Type} {test : α → Bool} {x : α} {before after : List α}

theorem eraseP_append_cons (hbefore : ∀ b ∈ before, (!test b) = true) (hx : test x = true) :
    (before ++ x :: after).eraseP test = before ++ after := by
  have hkept : ∀ b ∈ before, ¬ test b = true := by simpa using hbefore
  rw [List.eraseP_append_right _ hkept, List.eraseP_cons_of_pos hx]

theorem replaceFirst_append_cons (hbefore : ∀ b ∈ before, (!test b) = true) (hx : test x = true)
    (new : α) : replaceFirst test new (before ++ x :: after) = before ++ new :: after := by
  induction before with
  | nil => exact if_pos hx
  | cons b before ih =>
    obtain ⟨hb, hrest⟩ := List.forall_mem_cons.1 hbefore
    have hskip : ¬ test b = true := by simpa using hb
    exact (if_neg hskip).trans (congrArg (b :: ·) (ih hrest))

end

theorem Instance.Tended.trans (h : i.Tended j) (h' : j.Tended k) : i.Tended k where
  rest := by
    have hrest := h.rest
    rw [← h'.rest] at hrest
    exact hrest
  extra := fun name => (h'.extra name).trans (h.extra name)

theorem Instance.tended_of_agents (i : Instance) (agents : List Agent) :
    i.Tended { i with agents := agents } :=
  ⟨rfl, fun _ => rfl⟩

theorem Instance.tended_prune (i : Instance) : i.Tended i.prune where
  rest := rfl
  extra := by
    intro name
    rw [channelExtra, get?_prune, Option.map_map]
    rfl

theorem Instance.tended_register (i : Instance) (channel account : String) :
    i.Tended (i.register channel account) where
  rest := rfl
  extra := by
    intro name
    rw [channelExtra, channelExtra, get?_register]
    split
    · cases Fields.get? i.channels name <;> rfl
    · rfl

theorem Instance.tended_registerAll (i : Instance) (accounts : List Account) :
    i.Tended (i.registerAll accounts) := by
  induction accounts generalizing i with
  | nil => exact i.tended_of_agents i.agents
  | cons a accounts ih => exact (i.tended_register a.channel a.account).trans (ih _)

theorem Operation.Effect.adjusts_add {spec : AgentSpec} (h : (Operation.add spec).Effect i j) :
    (Operation.add spec).Adjusts i j := by
  cases h with
  | @add _ accounts hid hfree haccounts =>
    refine .add ((i.tended_registerAll accounts).trans (Instance.tended_of_agents _ _)) haccounts
      ?_ ?_ ?_
    · exact congrArg (· ++ [_]) (i.agents_registerAll accounts)
    · exact i.isSome_get?_registerAll accounts
    · exact i.account?_registerAll accounts

theorem Operation.Effect.adjusts_remove {pruned : Bool}
    (h : (Operation.remove id pruned).Effect i j) :
    (Operation.remove id pruned).Adjusts i j := by
  cases h with
  | @remove _ a hfind =>
    obtain ⟨hid, before, after, hagents, hbefore⟩ := List.find?_eq_some_iff_append.1 hfind
    obtain rfl : a.id = id := of_decide_eq_true hid
    have hleft : (i.dismiss a.id).agents = before ++ after := by
      rw [Instance.dismiss, hagents]
      exact eraseP_append_cons hbefore hid
    cases pruned with
    | false =>
      refine .remove (i.tended_of_agents _) hagents hleft (fun _ => rfl) ?_
      intro channel account
      exact (if_neg fun h => Bool.false_ne_true h.1).symm
    | true =>
      refine .remove ((i.tended_of_agents _).trans (Instance.tended_prune _)) hagents hleft ?_ ?_
      · intro name
        rw [if_pos rfl, Instance.get?_prune, Option.isSome_map]
        rfl
      intro channel account
      rw [if_pos rfl, Instance.account?_prune]
      by_cases hbound : accountKey channel account ∈ (i.dismiss a.id).boundKeys
      · rw [if_pos hbound, if_neg fun h => h.2 hbound]
        rfl
      · rw [if_neg hbound, if_pos ⟨rfl, hbound⟩]

theorem Inventory.altered_setInstance (hfind : inv.find? id = some i) (hadjusts : op.Adjusts i j) :
    inv.Altered id op (inv.setInstance id j) := by
  obtain ⟨hid, before, after, hinstances, hbefore⟩ := List.find?_eq_some_iff_append.1 hfind
  refine ⟨before, i, j, after, hinstances, of_decide_eq_true hid, hadjusts, ?_⟩
  rw [setInstance, hinstances, replaceFirst_append_cons hbefore hid]

theorem Operation.Adjusts.tended (h : op.Adjusts i j) : i.Tended j := by
  cases h with
  | add htended => exact htended
  | remove htended => exact htended

theorem Inventory.Altered.runtime {inv' : Inventory} (h : inv.Altered id op inv') :
    ∀ j ∈ inv'.instances, ∃ i ∈ inv.instances, i.runtime = j.runtime := by
  obtain ⟨before, i, j, after, hinstances, -, hadjusts, rfl⟩ := h
  intro k hk
  rw [hinstances]
  rcases List.mem_append.1 hk with hk | hk
  · exact ⟨k, List.mem_append_left _ hk, rfl⟩
  · rcases List.mem_cons.1 hk with rfl | hk
    · exact ⟨i, List.mem_append_right _ List.mem_cons_self,
        (congrArg Instance.runtime hadjusts.tended.rest).symm⟩
    · exact ⟨k, List.mem_append_right _ (List.mem_cons_of_mem _ hk), rfl⟩

end GatewayFleet.Fleet
