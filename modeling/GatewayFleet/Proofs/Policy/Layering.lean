import Mathlib.Data.List.Induction
import GatewayFleet.Policy.Effective
import GatewayFleet.Proofs.Fleet.Canonical
import GatewayFleet.Proofs.Value.Merging

/-! What the declarations of several scopes amount to. Laid over each other as values they always
make a declaration again, in which every list is the lists of the scopes one after the other, so
the policy in force can be told from the declared lists alone. -/

namespace GatewayFleet

open Policy (Fragment)

namespace Policy

def Fragment.list? (f : Fragment) (group key : String) : Option (List String) :=
  match group with
  | "integrations" => f.integrations.bind (·.list? key)
  | "skills" => f.skills.bind (·.list? key)
  | "models" => f.models.bind (·.list? key)
  | _ => none

def declared (scopes : List (Option Fragment)) (group key : String) : List String :=
  scopes.flatMap fun scope => (scope.bind (·.list? group key)).getD []

/-- Every list in its distinct entries. The built-in sources stand in for the allowed skill sources
where no scope lists any, not even none. -/
def layered (scopes : List (Option Fragment)) : Policy :=
  let texts (group key : String) : List String := Text.distinct (declared scopes group key)
  { integrations := ⟨texts "integrations" "allow", texts "integrations" "deny"⟩
    skills := ⟨texts "skills" "allow", texts "skills" "deny"⟩
    skillSources :=
      ⟨if ∀ scope ∈ scopes, scope.bind (·.list? "skills" "allow_sources") = none then builtinSources
        else texts "skills" "allow_sources", texts "skills" "deny_sources"⟩
    providers := ⟨texts "models" "allow_providers", texts "models" "deny_providers"⟩
    models := ⟨texts "models" "allow_models", texts "models" "deny_models"⟩ }

variable {f : Fragment} {group key : String} {known : List String}
  {scopes scopes' : List (Option Fragment)}

def joined (scopes : List (Option Fragment)) (group key : String) : Option (List String) :=
  scopes.foldl (fun acc scope => Option.merge (· ++ ·) acc (scope.bind (·.list? group key))) none

theorem joined_concat (scopes : List (Option Fragment)) (scope : Option Fragment)
    (group key : String) :
    joined (scopes ++ [scope]) group key =
      Option.merge (· ++ ·) (joined scopes group key) (scope.bind (·.list? group key)) := by
  simp [joined]

theorem joined_eq_none_iff :
    joined scopes group key = none ↔ ∀ scope ∈ scopes, scope.bind (·.list? group key) = none := by
  induction scopes using List.reverseRecOn with
  | nil => simp [joined]
  | append_singleton scopes scope ih =>
    rw [joined_concat, Option.merge_eq_none_iff, ih]
    simp [or_imp, forall_and]

theorem getD_joined (scopes : List (Option Fragment)) (group key : String) :
    (joined scopes group key).getD [] = declared scopes group key := by
  induction scopes using List.reverseRecOn with
  | nil => rfl
  | append_singleton scopes scope ih =>
    have hlast : declared (scopes ++ [scope]) group key =
        declared scopes group key ++ (scope.bind (·.list? group key)).getD [] := by
      simp [declared]
    rw [hlast, ← ih, joined_concat]
    cases joined scopes group key <;> cases scope.bind (·.list? group key) <;> simp

theorem layered_congr (h : ∀ group known key, listKeys? group = some known → key ∈ known →
    joined scopes group key = joined scopes' group key) : layered scopes = layered scopes' := by
  have hintegrations := h "integrations" integrationKeys
  have hskills := h "skills" skillKeys
  have hmodels := h "models" modelKeys
  simp only [layered, ← joined_eq_none_iff, ← getD_joined]
  simp (disch := decide) only [hintegrations, hskills, hmodels]

theorem Lists.mergeFields {lower upper : Fields Value} (hlower : Lists known lower)
    (hupper : Lists known upper) : Lists known (Value.mergeFields lower upper) := by
  refine Value.forall_mem_mergeFields (P := fun k v => k ∈ known → ∃ xs, v = .ofStrings xs) ?_
    hlower hupper
  rintro ⟨k, b⟩ - a ha hb hk
  obtain ⟨xs, rfl⟩ := ha hk
  obtain ⟨ys, rfl⟩ := hb hk
  exact ⟨xs ++ ys, by simp [Value.ofStrings, Value.merge_list]⟩

theorem Groups.mergeFields {lower upper : Fields Value} (hlower : Groups lower)
    (hupper : Groups upper) : Groups (Value.mergeFields lower upper) := by
  refine Value.forall_mem_mergeFields
    (P := fun k v => ∀ known, listKeys? k = some known → ∃ ms, v = .mapping ms ∧ Lists known ms) ?_
    hlower hupper
  rintro ⟨k, b⟩ - a ha hb known hk
  obtain ⟨ms, rfl, hms⟩ := ha known hk
  obtain ⟨ns, rfl, hns⟩ := hb known hk
  exact ⟨_, Value.merge_mapping ms ns, hms.mergeFields hns⟩

theorem texts?_mergeFields {lower upper : Fields Value} {xs : Option (List String)}
    (hlower : Lists known lower) (hkey : key ∈ known)
    (hupper : Fields.values upper key = (xs.map Value.ofStrings).toList) :
    texts? (Value.mergeFields lower upper) key =
      Option.merge (· ++ ·) (texts? lower key) xs := by
  have hget := Value.get?_mergeFields_of_single lower (Fields.single_of_values hupper)
  rw [Fields.get?_of_values hupper] at hget
  cases hold : Fields.get? lower key with
  | none =>
    have hlist : texts? lower key = none := texts?_eq hold
    rw [hold, Option.merge_none_left] at hget
    rw [hlist, Option.merge_none_left, texts?_eq hget]
  | some v =>
    obtain ⟨ys, rfl⟩ := hlower _ (Fields.mem_of_get? hold) hkey
    have hlist : texts? lower key = some ys := texts?_eq hold
    rw [hold] at hget
    rw [hlist]
    refine texts?_eq (hget.trans ?_)
    cases xs with
    | none => rfl
    | some xs => simp [Value.ofStrings, Value.merge_list]

theorem group?_mergeFields {lower upper : Fields Value} {ms : Option (Fields Value)}
    (hlower : Groups lower) (hgroup : listKeys? group = some known)
    (hupper : Fields.values upper group = (ms.map Value.mapping).toList) :
    group? (Value.mergeFields lower upper) group =
      Option.merge Value.mergeFields (group? lower group) ms := by
  have hget := Value.get?_mergeFields_of_single lower (Fields.single_of_values hupper)
  rw [Fields.get?_of_values hupper] at hget
  cases hold : Fields.get? lower group with
  | none =>
    have hmembers : group? lower group = none := group?_eq hold
    rw [hold, Option.merge_none_left] at hget
    rw [hmembers, Option.merge_none_left, group?_eq hget]
  | some v =>
    obtain ⟨old, rfl, -⟩ := hlower _ (Fields.mem_of_get? hold) known hgroup
    have hmembers : group? lower group = some old := group?_eq hold
    rw [hold] at hget
    rw [hmembers]
    refine group?_eq (hget.trans ?_)
    cases ms with
    | none => rfl
    | some ms => simp [Value.merge_mapping]

def listIn (fs : Fields Value) (group key : String) : Option (List String) :=
  (group? fs group).bind (texts? · key)

theorem Fragment.list?_of_ofFields? {fs : Fields Value} (h : ofFields? fs = .ok f)
    (hgroup : listKeys? group = some known) (hkey : key ∈ known) :
    f.list? group key = listIn fs group key := by
  unfold ofFields? at h
  split at h
  · cases h
  · obtain rfl := Except.ok.inj h
    unfold listKeys? at hgroup
    split at hgroup <;> cases hgroup
    all_goals
      simp only [integrationKeys, skillKeys, modelKeys, List.mem_cons, List.not_mem_nil,
        or_false] at hkey
      simp only [Fragment.list?, listIn, Option.bind_map]
      congr 1
    · rcases hkey with rfl | rfl <;> rfl
    · rcases hkey with rfl | rfl | rfl | rfl <;> rfl
    · rcases hkey with rfl | rfl | rfl | rfl <;> rfl

theorem Groups.lists {fs ms : Fields Value} (h : Groups fs) (hgroup : listKeys? group = some known)
    (hms : group? fs group = some ms) : Lists known ms := by
  unfold group? at hms
  split at hms
  · rename_i found hfound
    obtain ⟨ms', heq, hlists⟩ := h _ (Fields.mem_of_get? hfound) known hgroup
    cases hms
    cases heq
    exact hlists
  · cases hms

theorem Fragment.Canonical.values_group {ms : Fields Value} (h : f.Canonical)
    (hgroup : listKeys? group = some known) (hkey : key ∈ known) (hms : f.group? group = some ms) :
    Fields.values ms key = ((f.list? group key).map Value.ofStrings).toList := by
  unfold listKeys? at hgroup
  split at hgroup <;> cases hgroup
  · obtain ⟨r, hr, rfl⟩ := Option.map_eq_some_iff.1 hms
    rw [r.toFields_eq, values_group r.list? (by decide) (h.integrations r hr) hkey]
    simp [Fragment.list?, hr]
  · obtain ⟨r, hr, rfl⟩ := Option.map_eq_some_iff.1 hms
    rw [r.toFields_eq, values_group r.list? (by decide) (h.skills r hr) hkey]
    simp [Fragment.list?, hr]
  · obtain ⟨r, hr, rfl⟩ := Option.map_eq_some_iff.1 hms
    rw [r.toFields_eq, values_group r.list? (by decide) (h.models r hr) hkey]
    simp [Fragment.list?, hr]

theorem mem_groupKeys (h : listKeys? group = some known) : group ∈ groupKeys := by
  by_contra hnot
  rw [listKeys?_eq_none hnot] at h
  cases h

theorem listIn_mergeFields {ms : Fields Value} (hms : Groups ms) (hf : f.Canonical)
    (hgroup : listKeys? group = some known) (hkey : key ∈ known) :
    listIn (Value.mergeFields ms f.toFields) group key =
      Option.merge (· ++ ·) (listIn ms group key) (f.list? group key) := by
  have hmerged := group?_mergeFields hms hgroup (hf.values_toFields (mem_groupKeys hgroup))
  have hwritten : listIn f.toFields group key = f.list? group key :=
    (Fragment.list?_of_ofFields? hf.ofValue?_toValue hgroup hkey).symm
  have hnew : group? f.toFields group = f.group? group :=
    group?_eq (Fields.get?_of_values (hf.values_toFields (mem_groupKeys hgroup)))
  simp only [listIn, hnew] at hwritten
  simp only [listIn, hmerged]
  cases hlower : group? ms group with
  | none => simpa using hwritten
  | some old =>
    cases hupper : f.group? group with
    | none =>
      rw [hupper] at hwritten
      simp [← hwritten]
    | some new =>
      rw [Option.merge_some_some, Option.bind_some, Option.bind_some]
      exact texts?_mergeFields (hms.lists hgroup hlower) hkey (hf.values_group hgroup hkey hupper)

structure Lays (scopes : List (Option Fragment)) (ms : Fields Value) : Prop where
  groups : Groups ms
  lists : ∀ group known key, listKeys? group = some known → key ∈ known →
    listIn ms group key = joined scopes group key

theorem Lays.nil : Lays [] [] := ⟨List.forall_mem_nil _, fun _ _ _ _ _ => rfl⟩

theorem Lays.skip {ms : Fields Value} (h : Lays scopes ms) : Lays (scopes ++ [none]) ms where
  groups := h.groups
  lists := by
    intro group known key hgroup hkey
    rw [h.lists group known key hgroup hkey, joined_concat]
    simp

theorem Lays.concat {ms : Fields Value} (h : Lays scopes ms) (hf : f.Canonical) :
    Lays (scopes ++ [some f]) (Value.mergeFields ms f.toFields) where
  groups := h.groups.mergeFields hf.groups_toFields
  lists := by
    intro group known key hgroup hkey
    rw [listIn_mergeFields h.groups hf hgroup hkey, h.lists group known key hgroup hkey,
      joined_concat]
    rfl

def stated (scopes : List (Option Fragment)) : List Fragment := scopes.filterMap id

theorem lays_mergeAll (hscopes : ∀ f, some f ∈ scopes → f.Canonical) :
    ∃ ms, Value.mergeAll ((stated scopes).map Fragment.toValue) = .mapping ms ∧ Lays scopes ms := by
  -- the last scope is the one that is laid on top
  induction scopes using List.reverseRecOn with
  | nil => exact ⟨[], rfl, .nil⟩
  | append_singleton scopes scope ih =>
    obtain ⟨ms, hms, hlays⟩ := ih fun f hf => hscopes f (List.mem_append_left _ hf)
    cases scope with
    | none =>
      refine ⟨ms, ?_, hlays.skip⟩
      simpa [stated] using hms
    | some f =>
      refine ⟨_, ?_, hlays.concat (hscopes f (by simp))⟩
      rw [← Value.merge_mapping, ← hms]
      simp [stated, Value.mergeAll, Fragment.toValue]

theorem Fragment.list?_integrations (f : Fragment) (key : String) :
    f.list? "integrations" key = (f.integrations.getD {}).list? key := by
  change f.integrations.bind (·.list? key) = _
  cases f.integrations with
  | some r => rfl
  | none =>
    simp only [Option.bind_none, Option.getD_none, IntegrationRules.list?]
    split <;> rfl

theorem Fragment.list?_skills (f : Fragment) (key : String) :
    f.list? "skills" key = (f.skills.getD {}).list? key := by
  change f.skills.bind (·.list? key) = _
  cases f.skills with
  | some r => rfl
  | none =>
    simp only [Option.bind_none, Option.getD_none, SkillRules.list?]
    split <;> rfl

theorem Fragment.list?_models (f : Fragment) (key : String) :
    f.list? "models" key = (f.models.getD {}).list? key := by
  change f.models.bind (·.list? key) = _
  cases f.models with
  | some r => rfl
  | none =>
    simp only [Option.bind_none, Option.getD_none, ModelRules.list?]
    split <;> rfl

theorem ofFragment_eq_layered (f : Fragment) : ofFragment f = layered [some f] := by
  have hdeclared (group key : String) :
      declared [some f] group key = (f.list? group key).getD [] := by
    simp [declared]
  have hsources : ((f.skills.getD {}).allowSources.map Text.distinct).getD builtinSources =
      if (f.skills.getD {}).allowSources = none then builtinSources
        else Text.distinct ((f.skills.getD {}).allowSources.getD []) := by
    cases (f.skills.getD {}).allowSources <;> simp
  simp only [layered, List.forall_mem_singleton, Option.bind_some, hdeclared,
    Fragment.list?_integrations, Fragment.list?_skills, Fragment.list?_models,
    IntegrationRules.list?, SkillRules.list?, ModelRules.list?, ← hsources]
  rfl

theorem ofFragments?_eq_layered (hscopes : ∀ f, some f ∈ scopes → f.Canonical) :
    ofFragments? (stated scopes) = .ok (layered scopes) := by
  obtain ⟨ms, hms, hlays⟩ := lays_mergeAll hscopes
  obtain ⟨f, hf⟩ : ∃ f, Fragment.ofFields? ms = .ok f := by
    unfold Fragment.ofFields?
    rw [hlays.groups.findSome?]
    exact ⟨_, rfl⟩
  have hlayered : layered [some f] = layered scopes := by
    refine layered_congr fun group known key hgroup hkey => ?_
    rw [← hlays.lists group known key hgroup hkey, ← Fragment.list?_of_ofFields? hf hgroup hkey]
    simp [joined]
  rw [ofFragments?, hms, Fragment.ofValue?, hf, ← hlayered, ← ofFragment_eq_layered]
  rfl

/-- A declaration without the members that are not interpreted, at any level. -/
def Fragment.bare (f : Fragment) : Fragment where
  integrations := f.integrations.map fun r => { r with extra := [] }
  skills := f.skills.map fun r => { r with extra := [] }
  models := f.models.map fun r => { r with extra := [] }

theorem Fragment.list?_bare (f : Fragment) (group key : String) :
    f.bare.list? group key = f.list? group key := by
  unfold Fragment.list?
  split
  · rw [bare, Option.bind_map]
    rfl
  · rw [bare, Option.bind_map]
    rfl
  · rw [bare, Option.bind_map]
    rfl
  · rfl

theorem joined_map_bare (scopes : List (Option Fragment)) (group key : String) :
    joined (scopes.map (·.map Fragment.bare)) group key = joined scopes group key := by
  have hscope (scope : Option Fragment) :
      (scope.map Fragment.bare).bind (·.list? group key) = scope.bind (·.list? group key) := by
    rw [Option.bind_map]
    exact Option.bind_congr fun f _ => f.list?_bare group key
  simp only [joined, List.foldl_map, hscope]

theorem layered_eq_of_bare
    (h : scopes.map (·.map Fragment.bare) = scopes'.map (·.map Fragment.bare)) :
    layered scopes = layered scopes' := by
  refine layered_congr fun group known key _ _ => ?_
  rw [← joined_map_bare scopes, h, joined_map_bare]

end Policy

namespace Fleet

variable {tree : Tree} {dir : Path} {v : Value} {inv : Inventory} {i : Instance}
  {agent : Option Agent}

def Inventory.scopes (inv : Inventory) (i : Instance) (agent : Option Agent) :
    List (Option Fragment) :=
  [inv.defaults.policy, inv.policy, i.policy, agent.bind (·.policy)]

theorem Inventory.Canonical.scopes (h : inv.Canonical) (hi : i ∈ inv.instances)
    (hagent : ∀ a ∈ agent, a ∈ i.agents) : ∀ f, some f ∈ inv.scopes i agent → f.Canonical := by
  intro f hf
  simp only [Inventory.scopes, List.mem_cons, List.not_mem_nil, or_false] at hf
  rcases hf with hf | hf | hf | hf
  · exact h.defaults.policy f hf.symm
  · exact h.policy f hf.symm
  · exact (h.instances i hi).policy f hf.symm
  · obtain ⟨a, ha, hf⟩ := Option.bind_eq_some_iff.1 hf.symm
    exact ((h.instances i hi).agents a (hagent a ha)).policy f hf

theorem Inventory.Canonical.policy?_eq (h : inv.Canonical) (hi : i ∈ inv.instances)
    (hagent : ∀ a ∈ agent, a ∈ i.agents) :
    inv.policy? i agent = .ok (Policy.layered (inv.scopes i agent)) :=
  Policy.ofFragments?_eq_layered (h.scopes hi hagent)

/-- In an admitted fleet every instance and every agent has a policy, which is the lists of its
scopes one after the other; other members of the declarations make no difference to it. -/
theorem policy?_eq_layered (h : Inventory.ofValue? tree dir v = .ok inv) (hi : i ∈ inv.instances)
    (hagent : ∀ a ∈ agent, a ∈ i.agents) :
    inv.policy? i agent = .ok (Policy.layered
      [inv.defaults.policy, inv.policy, i.policy, agent.bind (·.policy)]) ∧
    ∀ scopes : List (Option Fragment), (∀ f, some f ∈ scopes → f.Canonical) →
      scopes.map (·.map Fragment.bare) = (inv.scopes i agent).map (·.map Fragment.bare) →
      Policy.ofFragments? (Policy.stated scopes) = inv.policy? i agent := by
  obtain ⟨fs, -, hwritten, -, -⟩ := ofValue?_eq_ok_iff.1 h
  have hpolicy := hwritten.canonical.policy?_eq hi hagent
  refine ⟨hpolicy, fun scopes hscopes hbare => ?_⟩
  rw [Policy.ofFragments?_eq_layered hscopes, hpolicy, Policy.layered_eq_of_bare hbare]

theorem policy?_eq_layered_pair :
    pairFleet.policy? pairEast (some pairAda) = .ok {
      skills := ⟨[], ["web"]⟩, skillSources := ⟨Policy.builtinSources, []⟩,
      providers := ⟨["acme"], []⟩ } := by
  have hi : pairEast ∈ pairFleet.instances := by simp [pairFleet]
  have hagent : ∀ a ∈ some pairAda, a ∈ pairEast.agents := by simp [pairEast]
  rw [(policy?_eq_layered ofValue?_pair hi hagent).1]
  rfl

end Fleet

end GatewayFleet
