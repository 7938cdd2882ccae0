import GatewayFleet.Proofs.Members

/-! Declarations that are read and written. A declaration is canonical when the names it does not
interpret are none of the names it does; every declaration that is read is canonical, and a
canonical one is read back from what is written. -/

namespace GatewayFleet.Policy

def listKeys? : String → Option (List String)
  | "integrations" => some integrationKeys
  | "skills" => some skillKeys
  | "models" => some modelKeys
  | _ => none

/-- Whatever the members among the known ones hold is a list of texts. -/
def Lists (known : List String) (ms : Fields Value) : Prop :=
  ∀ m ∈ ms, m.1 ∈ known → ∃ xs, m.2 = .ofStrings xs

/-- A group that is given is a mapping of lists of texts. -/
def Groups (fs : Fields Value) : Prop :=
  ∀ m ∈ fs, ∀ known, listKeys? m.1 = some known → ∃ ms, m.2 = .mapping ms ∧ Lists known ms

theorem listFault?_ofStrings (xs : List String) : listFault? (.ofStrings xs) = none := by
  simp [listFault?, Value.ofStrings, itemFault?]

theorem groupFault?_eq_none {known : List String} {expected : Expectation} {ms : Fields Value}
    (h : Lists known ms) : groupFault? known expected (.mapping ms) = none := by
  simp only [groupFault?, List.findSome?_eq_none_iff]
  intro m hm
  by_cases hk : m.1 ∈ known
  · obtain ⟨xs, hxs⟩ := h m hm hk
    simp [hk, hxs, listFault?_ofStrings]
  · simp [hk]

theorem memberFault?_eq_none {m : String × Value}
    (h : ∀ known, listKeys? m.1 = some known → ∃ ms, m.2 = .mapping ms ∧ Lists known ms) :
    memberFault? m = none := by
  unfold memberFault?
  split
  · obtain ⟨ms, rfl, hms⟩ := h _ rfl
    exact groupFault?_eq_none hms
  · obtain ⟨ms, rfl, hms⟩ := h _ rfl
    exact groupFault?_eq_none hms
  · obtain ⟨ms, rfl, hms⟩ := h _ rfl
    exact groupFault?_eq_none hms
  · rfl

theorem Groups.findSome? {fs : Fields Value} (h : Groups fs) : fs.findSome? memberFault? = none :=
  List.findSome?_eq_none_iff.2 fun m hm => memberFault?_eq_none (h m hm)

structure Fragment.Canonical (f : Fragment) : Prop where
  integrations : ∀ r ∈ f.integrations, Fields.Free r.extra integrationKeys
  skills : ∀ r ∈ f.skills, Fields.Free r.extra skillKeys
  models : ∀ r ∈ f.models, Fields.Free r.extra modelKeys
  extra : Fields.Free f.extra groupKeys

theorem Fragment.canonical_of_ofValue? {v : Value} {f : Fragment}
    (h : Fragment.ofValue? v = .ok f) : f.Canonical := by
  cases v with
  | mapping fs =>
    change ofFields? fs = .ok f at h
    unfold ofFields? at h
    split at h
    · cases h
    · obtain rfl := Except.ok.inj h
      constructor
      · intro r hr
        obtain ⟨ms, -, rfl⟩ := Option.map_eq_some_iff.1 hr
        exact Fields.free_without _ _
      · intro r hr
        obtain ⟨ms, -, rfl⟩ := Option.map_eq_some_iff.1 hr
        exact Fields.free_without _ _
      · intro r hr
        obtain ⟨ms, -, rfl⟩ := Option.map_eq_some_iff.1 hr
        exact Fields.free_without _ _
      · exact Fields.free_without _ _
  | null | bool _ | number _ | string _ | list _ => cases h

theorem texts?_eq {fs : Fields Value} {k : String} {xs : Option (List String)}
    (h : Fields.get? fs k = xs.map .ofStrings) : texts? fs k = xs := by
  unfold texts?
  rw [h]
  cases xs with
  | none => rfl
  | some xs => simp [Value.ofStrings, text?, List.filterMap_map, Function.comp_def]

theorem group?_eq {fs : Fields Value} {k : String} {ms : Option (Fields Value)}
    (h : Fields.get? fs k = ms.map .mapping) : group? fs k = ms := by
  unfold group?
  rw [h]
  cases ms <;> rfl

section

variable {known : List String} {k : String} {extra : Fields Value}
  (list : String → Option (List String))

def writtenLists (known : List String) (list : String → Option (List String)) : Fields Value :=
  known.flatMap fun k => optional k ((list k).map .ofStrings)

theorem values_writtenLists (hknown : known.Nodup) (k : String) :
    Fields.values (writtenLists known list) k =
      if k ∈ known then ((list k).map Value.ofStrings).toList else [] := by
  induction known with
  | nil => rfl
  | cons k' known ih =>
    obtain ⟨hfresh, hknown⟩ := List.nodup_cons.1 hknown
    rw [writtenLists, List.flatMap_cons, Fields.values_append, values_optional]
    rw [writtenLists] at ih
    rw [ih hknown]
    by_cases heq : k' = k
    · subst heq
      simp [hfresh]
    · simp [heq, Ne.symm heq]

theorem values_group (hknown : known.Nodup) (hextra : Fields.Free extra known) (hk : k ∈ known) :
    Fields.values (writtenLists known list ++ extra) k =
      ((list k).map Value.ofStrings).toList := by
  rw [Fields.values_append, values_writtenLists list hknown, if_pos hk, hextra.values hk,
    List.append_nil]

theorem texts?_group (hknown : known.Nodup) (hextra : Fields.Free extra known) (hk : k ∈ known) :
    texts? (writtenLists known list ++ extra) k = list k :=
  texts?_eq (Fields.get?_of_values (values_group list hknown hextra hk))

theorem mem_writtenLists {m : String × Value} (h : m ∈ writtenLists known list) :
    m.1 ∈ known ∧ ∃ xs, m.2 = .ofStrings xs := by
  obtain ⟨k, hk, hm⟩ := List.mem_flatMap.1 h
  cases hlist : list k with
  | none =>
    rw [hlist] at hm
    exact absurd hm List.not_mem_nil
  | some xs =>
    rw [hlist] at hm
    obtain rfl := List.mem_singleton.1 hm
    exact ⟨hk, xs, rfl⟩

theorem without_group (hextra : Fields.Free extra known) :
    Fields.without (writtenLists known list ++ extra) known = extra := by
  have hlists : Fields.without (writtenLists known list) known = [] :=
    List.filter_eq_nil_iff.2 fun m hm => by simpa using (mem_writtenLists list hm).1
  rw [Fields.without_append, hlists, hextra.without, List.nil_append]

theorem lists_group (hextra : Fields.Free extra known) :
    Lists known (writtenLists known list ++ extra) := by
  intro m hm hk
  rcases List.mem_append.1 hm with hm | hm
  · exact (mem_writtenLists list hm).2
  · exact absurd hk (hextra m hm)

end

def IntegrationRules.list? (r : IntegrationRules) : String → Option (List String)
  | "allow" => r.allow
  | "deny" => r.deny
  | _ => none

def SkillRules.list? (r : SkillRules) : String → Option (List String)
  | "allow" => r.allow
  | "deny" => r.deny
  | "allow_sources" => r.allowSources
  | "deny_sources" => r.denySources
  | _ => none

def ModelRules.list? (r : ModelRules) : String → Option (List String)
  | "allow_providers" => r.allowProviders
  | "deny_providers" => r.denyProviders
  | "allow_models" => r.allowModels
  | "deny_models" => r.denyModels
  | _ => none

theorem IntegrationRules.toFields_eq (r : IntegrationRules) :
    r.toFields = writtenLists integrationKeys r.list? ++ r.extra := by
  simp [toFields, writtenLists, integrationKeys, list?]

theorem SkillRules.toFields_eq (r : SkillRules) :
    r.toFields = writtenLists skillKeys r.list? ++ r.extra := by
  simp [toFields, writtenLists, skillKeys, list?]

theorem ModelRules.toFields_eq (r : ModelRules) :
    r.toFields = writtenLists modelKeys r.list? ++ r.extra := by
  simp [toFields, writtenLists, modelKeys, list?]

theorem IntegrationRules.ofFields_toFields {r : IntegrationRules}
    (h : Fields.Free r.extra integrationKeys) : ofFields r.toFields = r := by
  have htexts {k} (hk : k ∈ integrationKeys) := texts?_group r.list? (by decide) h hk
  simp (disch := decide) only [toFields_eq, ofFields, htexts, without_group r.list? h, list?]

theorem SkillRules.ofFields_toFields {r : SkillRules} (h : Fields.Free r.extra skillKeys) :
    ofFields r.toFields = r := by
  have htexts {k} (hk : k ∈ skillKeys) := texts?_group r.list? (by decide) h hk
  simp (disch := decide) only [toFields_eq, ofFields, htexts, without_group r.list? h, list?]

theorem ModelRules.ofFields_toFields {r : ModelRules} (h : Fields.Free r.extra modelKeys) :
    ofFields r.toFields = r := by
  have htexts {k} (hk : k ∈ modelKeys) := texts?_group r.list? (by decide) h hk
  simp (disch := decide) only [toFields_eq, ofFields, htexts, without_group r.list? h, list?]

variable {f : Fragment} {k : String}

def Fragment.group? (f : Fragment) : String → Option (Fields Value)
  | "integrations" => f.integrations.map (·.toFields)
  | "skills" => f.skills.map (·.toFields)
  | "models" => f.models.map (·.toFields)
  | _ => none

theorem Fragment.Canonical.values_toFields (h : f.Canonical) (hk : k ∈ groupKeys) :
    Fields.values f.toFields k = ((f.group? k).map .mapping).toList := by
  have hextra := h.extra.values hk
  simp only [groupKeys, List.mem_cons, List.not_mem_nil, or_false] at hk
  rcases hk with rfl | rfl | rfl <;>
    simp [Fragment.toFields, Fragment.group?, Fields.values_append, values_optional, hextra,
      Function.comp_def]

theorem groups_optional {known : List String} {ms : Option (Fields Value)}
    (hk : listKeys? k = some known) (hms : ∀ m ∈ ms, Lists known m) :
    Groups (optional k (ms.map .mapping)) := by
  intro m hm known' hknown'
  cases ms with
  | none => exact absurd hm List.not_mem_nil
  | some ms =>
    obtain rfl := List.mem_singleton.1 hm
    obtain rfl := Option.some.inj (hk.symm.trans hknown')
    exact ⟨ms, rfl, hms ms rfl⟩

theorem listKeys?_eq_none (hk : k ∉ groupKeys) : listKeys? k = none := by
  simp only [groupKeys, List.mem_cons, List.not_mem_nil, or_false, not_or] at hk
  simp [listKeys?, hk]

theorem Groups.append {fs gs : Fields Value} (hfs : Groups fs) (hgs : Groups gs) :
    Groups (fs ++ gs) :=
  List.forall_mem_append.2 ⟨hfs, hgs⟩

theorem Groups.of_free {fs : Fields Value} (h : Fields.Free fs groupKeys) : Groups fs := by
  intro m hm known hknown
  rw [listKeys?_eq_none (h m hm)] at hknown
  cases hknown

theorem Fragment.toFields_eq (f : Fragment) :
    f.toFields = optional "integrations" ((f.group? "integrations").map .mapping) ++
      optional "skills" ((f.group? "skills").map .mapping) ++
      optional "models" ((f.group? "models").map .mapping) ++ f.extra := by
  simp only [toFields, group?, Option.map_map, Function.comp_def]

theorem Fragment.Canonical.groups_toFields (h : f.Canonical) : Groups f.toFields := by
  rw [Fragment.toFields_eq]
  refine (((groups_optional rfl ?_).append (groups_optional rfl ?_)).append
    (groups_optional rfl ?_)).append (.of_free h.extra)
  · intro ms hms
    obtain ⟨r, hr, rfl⟩ := Option.map_eq_some_iff.1 hms
    exact r.toFields_eq ▸ lists_group r.list? (h.integrations r hr)
  · intro ms hms
    obtain ⟨r, hr, rfl⟩ := Option.map_eq_some_iff.1 hms
    exact r.toFields_eq ▸ lists_group r.list? (h.skills r hr)
  · intro ms hms
    obtain ⟨r, hr, rfl⟩ := Option.map_eq_some_iff.1 hms
    exact r.toFields_eq ▸ lists_group r.list? (h.models r hr)

theorem Fragment.Canonical.ofValue?_toValue (h : f.Canonical) :
    Fragment.ofValue? f.toValue = .ok f := by
  have hgroup {k} (hk : k ∈ groupKeys) : Policy.group? f.toFields k = f.group? k :=
    group?_eq (Fields.get?_of_values (h.values_toFields hk))
  have hextra : Fields.without f.toFields groupKeys = f.extra := by
    simp (disch := decide) only [toFields, Fields.without_append, without_optional,
      h.extra.without, List.nil_append]
  have hintegrations : (f.group? "integrations").map .ofFields = f.integrations := by
    cases hr : f.integrations with
    | none => simp [group?, hr]
    | some r => simp [group?, hr, IntegrationRules.ofFields_toFields (h.integrations r hr)]
  have hskills : (f.group? "skills").map .ofFields = f.skills := by
    cases hr : f.skills with
    | none => simp [group?, hr]
    | some r => simp [group?, hr, SkillRules.ofFields_toFields (h.skills r hr)]
  have hmodels : (f.group? "models").map .ofFields = f.models := by
    cases hr : f.models with
    | none => simp [group?, hr]
    | some r => simp [group?, hr, ModelRules.ofFields_toFields (h.models r hr)]
  change ofFields? f.toFields = .ok f
  simp (disch := decide) only [ofFields?, h.groups_toFields.findSome?, hgroup, hextra,
    hintegrations, hskills, hmodels]

end GatewayFleet.Policy
