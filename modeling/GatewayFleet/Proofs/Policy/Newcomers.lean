import GatewayFleet.Proofs.Fleet.Alteration
import GatewayFleet.Proofs.Policy.Compliance

/-! An agent that is added keeps to the policy of its instance in everything it was given, whatever
it says about itself: the integrations it names are checked in place of the channels it is bound to,
but every one of these channels is among the integrations it names. -/

namespace GatewayFleet.Fleet

variable {i j : Instance} {a : Agent} {p : Policy} {inv again : Inventory} {spec : AgentSpec}
  {accounts : List Account} {id : String}

/-- A policy permits the channels that an agent is bound to, its skills, and its model with the
provider of it. -/
structure Agent.Within (a : Agent) (p : Policy) : Prop where
  channels : ∀ b ∈ a.bindings, p.integrations.Permits b.channel
  skills : ∀ skill ∈ a.skills, p.skills.Permits skill
  providers : ∀ model ∈ a.model,
    p.providers.Permits (String.ofList (model.toList.takeWhile (· ≠ '/')))
  models : ∀ model ∈ a.model, p.models.Permits model

theorem Account.trim_of_parse {text : String} {x : Account} (h : Account.parse text = .ok x) :
    Text.trim x.channel = x.channel ∧ x.channel ≠ "" := by
  unfold Account.parse at h
  split at h
  · cases h
  · simp only at h
    split at h
    · cases h
    · rename_i hne
      obtain rfl := Except.ok.inj h
      exact ⟨Text.trim_trim _, (not_or.1 hne).1⟩

theorem mem_withChannels {names : List String} {t : String} :
    t ∈ withChannels names accounts ↔ t ∈ Text.named names ∨ ∃ x ∈ accounts, x.channel = t := by
  have hfold (known : List String) :
      t ∈ accounts.foldl (fun names x =>
        if x.channel ∈ names then names else names ++ [x.channel]) known ↔
      t ∈ known ∨ ∃ x ∈ accounts, x.channel = t := by
    induction accounts generalizing known with
    | nil => simp
    | cons x accounts ih =>
      rw [List.foldl_cons, ih]
      by_cases hx : x.channel ∈ known
      · rw [if_pos hx]
        constructor
        · grind
        · rintro (h | ⟨y, hy, rfl⟩)
          · exact .inl h
          · grind
      · rw [if_neg hx]
        grind
  rw [withChannels, hfold, Text.mem_distinct]

theorem trim_of_mem_modelOf {model : Option String} :
    ∀ t ∈ modelOf model, Text.trim t = t ∧ t ≠ "" := by
  intro t ht
  unfold modelOf at ht
  split at ht
  · cases ht
  · cases ht
  · rename_i name hblank hname
    obtain rfl : name = t := Option.some.inj ht
    obtain ⟨text, -, rfl⟩ := Option.map_eq_some_iff.1 hname
    exact ⟨Text.trim_trim text, hblank⟩

/-- A new agent that is bound to a channel names integrations, and the channel is one of them. -/
theorem AgentSpec.channel_mentioned (haccounts : spec.accounts.mapM Account.parse = .ok accounts)
    (id : String) : ∀ b ∈ (spec.agent id accounts).bindings,
      (.integration, b.channel) ∈ (spec.agent id accounts).mentions := by
  intro b hb
  obtain ⟨x, hx, rfl⟩ := List.mem_map.1 hb
  obtain ⟨text, -, htext⟩ := exists_of_forall₂_right (Outcome.mapM_eq_ok_iff.1 haccounts) x hx
  obtain ⟨htrim, hne⟩ := Account.trim_of_parse htext
  have hlisted : x.channel ∈ (spec.agent id accounts).integrations :=
    mem_withChannels.2 (.inr ⟨x, hx, rfl⟩)
  have hnamed := Text.mem_named_of_mem hlisted htrim hne
  have hexplicit : (spec.agent id accounts).integrationTexts =
      (spec.agent id accounts).integrations := if_neg (List.ne_nil_of_mem hnamed)
  simp only [Agent.mentions, hexplicit, List.mem_append, List.mem_map]
  exact .inl (.inl (.inl ⟨_, hnamed, rfl⟩))

theorem AgentSpec.skill_mentioned (spec : AgentSpec) (id : String) (accounts : List Account) :
    ∀ skill ∈ (spec.agent id accounts).skills,
      (.skill, skill) ∈ (spec.agent id accounts).mentions := by
  intro skill hskill
  obtain ⟨htrim, hne⟩ := Text.trim_of_mem_named (Text.mem_distinct.1 hskill)
  simp only [Agent.mentions, List.mem_append, List.mem_map]
  exact .inl (.inl (.inr ⟨skill, Text.mem_named_of_mem hskill htrim hne, rfl⟩))

theorem AgentSpec.model_mentioned (spec : AgentSpec) (id : String) (accounts : List Account) :
    ∀ model ∈ (spec.agent id accounts).model,
      (.provider model, String.ofList (model.toList.takeWhile (· ≠ '/'))) ∈
          (spec.agent id accounts).mentions ∧
        (.model, model) ∈ (spec.agent id accounts).mentions := by
  intro model hmodel
  obtain ⟨htrim, hne⟩ := trim_of_mem_modelOf model hmodel
  have hnamed : model ∈ Text.named (spec.agent id accounts).model.toList :=
    Text.mem_named_of_mem (Option.mem_toList.2 hmodel) htrim hne
  simp only [Agent.mentions, List.mem_append, List.mem_flatMap]
  exact ⟨.inr ⟨model, hnamed, .head _⟩, .inr ⟨model, hnamed, .tail _ (.head _)⟩⟩

theorem AgentSpec.within (haccounts : spec.accounts.mapM Account.parse = .ok accounts)
    (h : (spec.agent id accounts).Complies p) : (spec.agent id accounts).Within p where
  channels := fun b hb => h _ (channel_mentioned haccounts id b hb)
  skills := fun skill hskill => h _ (spec.skill_mentioned id accounts skill hskill)
  providers := fun model hmodel => h _ (spec.model_mentioned id accounts model hmodel).1
  models := fun model hmodel => h _ (spec.model_mentioned id accounts model hmodel).2

theorem Inventory.Canonical.complies (h : inv.Canonical) (hcomply : inv.comply = .ok ())
    (hi : i ∈ inv.instances) (ha : a ∈ i.agents) :
    a.Complies (Policy.layered (inv.scopes i (some a))) := by
  have hnone : inv.seats.flatMap inv.chargesOf = [] := by
    rw [comply, h.violations?_eq] at hcomply
    cases hvs : inv.seats.flatMap inv.chargesOf with
    | nil => rfl
    | cons v vs =>
      rw [hvs] at hcomply
      cases hcomply
  have hseat : (i, a) ∈ inv.seats := mem_seats.2 ⟨hi, ha⟩
  have hcharges := List.flatMap_eq_nil_iff.1 hnone _ hseat
  exact Agent.offences_eq_nil_iff.1 (List.map_eq_nil_iff.1 hcharges)

theorem Inventory.mem_setInstance (hfind : inv.find? id = some i) (j : Instance) :
    j ∈ (inv.setInstance id j).instances := by
  obtain ⟨hid, before, after, hinstances, hbefore⟩ := List.find?_eq_some_iff_append.1 hfind
  rw [setInstance, hinstances, replaceFirst_append_cons hbefore hid]
  exact List.mem_append_right _ List.mem_cons_self

theorem Inventory.scopes_of_policy_eq_none (inv : Inventory) (i : Instance)
    (ha : a.policy = none) : inv.scopes i (some a) = inv.scopes i none := by
  simp [scopes, ha]

theorem Inventory.Canonical.added_within {tree : Tree} {dir : Path} (h : inv.Canonical)
    (hfind : inv.find? id = some i) (hadd : i.addAgent spec = .ok j)
    (hagain : Inventory.ofValue? tree dir (inv.setInstance id j).toValue = .ok again)
    (hcomply : again.comply = .ok ()) :
    ∃ a p, again = inv.setInstance id j ∧ j ∈ again.instances ∧ j.agents = i.agents ++ [a] ∧
      a.id = Text.trim spec.id ∧
      spec.accounts.mapM Account.parse = .ok (a.bindings.map fun b => ⟨b.channel, b.account⟩) ∧
      inv.policy? i none = .ok p ∧ again.policy? j none = .ok p ∧ a.Within p := by
  have hi : i ∈ inv.instances := List.mem_of_find?_eq_some hfind
  have hj : j.Canonical := (h.instances i hi).addAgent hadd
  have hset := h.setInstance hj id
  obtain rfl := hset.eq_of_ofValue? hagain
  have hmem := Inventory.mem_setInstance hfind j
  have heffect : (Operation.add spec).Effect i j := Operation.apply_eq_ok_iff.1 hadd
  cases heffect.adjusts_add with
  | @add _ accounts htended haccounts hagents hchannels hregistered =>
    have hrest := congrArg Instance.policy htended.rest
    have hpolicy : j.policy = i.policy := hrest
    have ha : spec.agent (Text.trim spec.id) accounts ∈ j.agents := by
      rw [hagents]
      exact List.mem_append_right _ List.mem_cons_self
    have hcomplies := hset.complies hcomply hmem ha
    rw [Inventory.scopes_of_policy_eq_none _ j rfl] at hcomplies
    refine ⟨_, _, rfl, hmem, hagents, rfl, ?_, ?_, hset.policy?_eq hmem (by simp),
      spec.within haccounts hcomplies⟩
    · simp [haccounts, AgentSpec.agent, Binding.of, Binding.channel, Binding.account,
        Function.comp_def]
    · rw [h.policy?_eq hi (by simp), Inventory.scopes, Inventory.scopes, hpolicy]
      rfl

/-- Whatever an addition asks for, when the instance takes the agent and the fleet is admitted again
and complies, the policy of the instance permits every channel that the new agent is bound to, every
skill of it, and its model with the provider. -/
theorem newcomer_within_policy {tree : Tree} {dir : Path} {v : Value} {start : Inventory}
    (h : Inventory.ofValue? tree dir v = .ok start) (ops : List (String × Operation))
    (hfind : (start.afterAll ops).find? id = some i) (hadd : i.addAgent spec = .ok j)
    (hagain : Inventory.ofValue? tree dir ((start.afterAll ops).setInstance id j).toValue =
      .ok again)
    (hcomply : again.comply = .ok ()) :
    ∃ a p, again = (start.afterAll ops).setInstance id j ∧ j ∈ again.instances ∧
      j.agents = i.agents ++ [a] ∧ a.id = Text.trim spec.id ∧
      spec.accounts.mapM Account.parse = .ok (a.bindings.map fun b => ⟨b.channel, b.account⟩) ∧
      (start.afterAll ops).policy? i none = .ok p ∧ again.policy? j none = .ok p ∧ a.Within p := by
  obtain ⟨fs, -, hwritten, -, -⟩ := ofValue?_eq_ok_iff.1 h
  exact (hwritten.canonical.afterAll ops).added_within hfind hadd hagain hcomply

def pairDepartures : List (String × Operation) :=
  [("east", .remove "ada" false), ("east", .remove "bob" true)]

def pairEve : AgentSpec :=
  ⟨" eve ", .human, ["irc : e1", " chat:e2 ", "irc:e3"], ["mail ", "irc"], [" faq ", "faq"],
    some " acme/two "⟩

def pairVacant : Instance := { pairEast with agents := [], channels := [("irc", {})] }

def pairStaffed : Instance := { pairEast with
  agents := [pairEve.agent "eve" [⟨"irc", "e1"⟩, ⟨"chat", "e2"⟩, ⟨"irc", "e3"⟩]]
  channels := [("chat", { accounts := [("e2", .empty)] }),
    ("irc", { accounts := [("e1", .empty), ("e3", .empty)] })] }

theorem newcomer_within_policy_pair :
    (pairFleet.afterAll pairDepartures).find? "east" = some pairVacant ∧
    pairVacant.addAgent pairEve = .ok pairStaffed ∧
    ∃ again, Inventory.ofValue? pairTree pairDir
        ((pairFleet.afterAll pairDepartures).setInstance "east" pairStaffed).toValue = .ok again ∧
      again.comply = .ok () ∧
      ∃ a p, pairStaffed.agents = [a] ∧ a.bindings.map Binding.channel = ["irc", "chat", "irc"] ∧
        again.policy? pairStaffed none = .ok p ∧ a.Within p := by
  have hfind : (pairFleet.afterAll pairDepartures).find? "east" = some pairVacant := by rfl
  have hadd : pairVacant.addAgent pairEve = .ok pairStaffed := by rfl
  have hagain : Inventory.ofValue? pairTree pairDir
      ((pairFleet.afterAll pairDepartures).setInstance "east" pairStaffed).toValue =
      .ok ((pairFleet.afterAll pairDepartures).setInstance "east" pairStaffed) := by rfl
  have hcomply : ((pairFleet.afterAll pairDepartures).setInstance "east" pairStaffed).comply =
      .ok () := by rfl
  obtain ⟨a, p, -, -, hagents, -, haccounts, -, hpolicy, hwithin⟩ :=
    newcomer_within_policy ofValue?_pair pairDepartures hfind hadd hagain hcomply
  obtain rfl := List.singleton_inj.1 hagents
  exact ⟨hfind, hadd, _, hagain, hcomply, _, p, rfl, rfl, hpolicy, hwithin⟩

theorem changed_addAgent_within {tree : Tree} {path : Path}
    (h : Command.changed tree path id (·.addAgent spec) = .ok again) :
    ∃ inv i j a p, load tree path = .ok inv ∧ inv.find? id = some i ∧
      again = inv.setInstance id j ∧ j.agents = i.agents ++ [a] ∧
      again.policy? j none = .ok p ∧ a.Within p := by
  obtain ⟨inv, i, j, hload, hfind, hadd, hagain, hcomply⟩ := changed_eq_ok_iff.1 h
  obtain ⟨v, hv⟩ := exists_of_load hload
  obtain ⟨fs, -, hwritten, -, -⟩ := ofValue?_eq_ok_iff.1 hv
  obtain ⟨a, p, heq, -, hagents, -, -, -, hpolicy, hwithin⟩ :=
    hwritten.canonical.added_within hfind hadd hagain hcomply
  exact ⟨inv, i, j, a, p, hload, hfind, heq, hagents, hpolicy, hwithin⟩

end GatewayFleet.Fleet
