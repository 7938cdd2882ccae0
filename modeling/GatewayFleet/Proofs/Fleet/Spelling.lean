import Mathlib.Data.List.Sort
import Mathlib.Logic.Relation
import GatewayFleet.Proofs.Fleet.Forms
import GatewayFleet.Proofs.Fleet.Retention

/-! Spellings of a document that come to the same. Some members may be null or left out, two have
an older name beside the newer one, and accounts without metadata may be listed. A change of these
kinds leaves the record it is made in as it is, and so every record around it. -/

namespace GatewayFleet.Fleet

open Relation (EqvGen)

inductive Under (k : String) (R : Value → Value → Prop) : Value → Value → Prop
  | member {fs : Fields Value} {v w : Value} (hget : Fields.get? fs k = some v) (h : R v w) :
      Under k R (.mapping fs) (.mapping (Fields.put fs k w))

inductive Among (R : Value → Value → Prop) : Value → Value → Prop
  | item {before after : List Value} {v w : Value} (h : R v w) :
      Among R (.list (before ++ v :: after)) (.list (before ++ w :: after))

inductive Anywhere (R : Value → Value → Prop) : Value → Value → Prop
  | member {before after : Fields Value} {k : String} {v w : Value} (h : R v w) :
      Anywhere R (.mapping (before ++ (k, v) :: after)) (.mapping (before ++ (k, w) :: after))

/-- A null member of one of the names is left out. -/
inductive Omits (names : List String) : Value → Value → Prop
  | null {before after : Fields Value} {k : String} (hk : k ∈ names)
      (hfree : ∀ m ∈ before ++ after, m.1 ≠ k) :
      Omits names (.mapping (before ++ (k, .null) :: after)) (.mapping (before ++ after))

/-- The only member with one of two names gets the other name. -/
inductive Renames (newer older : String) : Value → Value → Prop
  | member {before after : Fields Value} {v : Value} (hnewer : ∀ m ∈ before ++ after, m.1 ≠ newer)
      (holder : ∀ m ∈ before ++ after, m.1 ≠ older) :
      Renames newer older (.mapping (before ++ (newer, v) :: after))
        (.mapping (before ++ (older, v) :: after))

/-- Accounts that have no metadata are listed, in any order and as often as one likes. -/
inductive Enumerates : Value → Value → Prop
  | ids {accounts : Fields Value} {ids : List String} (hempty : ∀ m ∈ accounts, m.2 = .empty)
      (hids : ∀ id, id ∈ ids ↔ id ∈ Fields.keys accounts) :
      Enumerates (.mapping accounts) (.ofStrings ids)

/-- A channel that has nothing but a list of accounts is written as that list. -/
inductive Unwraps : Value → Value → Prop
  | accounts (ids : List String) :
      Unwraps (.mapping [("accounts", .ofStrings ids)]) (.ofStrings ids)

inductive Agent.Respelled : Value → Value → Prop
  | null {v w : Value} (h : Omits ["role", "workspace", "agent_dir", "integrations", "skills",
      "skill_sources", "model", "policy"] v w) : Respelled v w
  | account {v w : Value} (h : Under "bindings" (Among (Under "match"
      (Renames "accountId" "account_id"))) v w) : Respelled v w

inductive Channel.Respelled : Value → Value → Prop
  | null {v w : Value} (h : Omits ["accounts"] v w) : Respelled v w
  | list {v w : Value} (h : Under "accounts" Enumerates v w) : Respelled v w
  | bare {v w : Value} (h : Unwraps v w) : Respelled v w

inductive Instance.Respelled : Value → Value → Prop
  | null {v w : Value} (h : Omits ["agents", "channels", "policy"] v w) : Respelled v w
  | runtime {v w : Value} (h : Renames "runtime" "openclaw" v w) : Respelled v w
  | host {v w : Value} (h : Under "host" (Omits ["bind"]) v w) : Respelled v w
  | agents {v w : Value} (h : Under "agents" (Among Agent.Respelled) v w) : Respelled v w
  | channels {v w : Value} (h : Under "channels" (Anywhere Channel.Respelled) v w) : Respelled v w

inductive Inventory.Respelled : Value → Value → Prop
  | null {v w : Value} (h : Omits ["defaults", "policy"] v w) : Respelled v w
  | defaults {v w : Value} (h : Under "defaults" (Omits ["port_stride", "policy"]) v w) :
      Respelled v w
  | instances {v w : Value} (h : Under "instances" (Among Instance.Respelled) v w) : Respelled v w

section

variable {α β : Type} {R : Value → Value → Prop} {S : Value → α → Prop} {form : α → Form}
variable {names : List String} {k : String} {v w : Value}

def Indifferent (S : Value → α → Prop) (R : Value → Value → Prop) : Prop :=
  ∀ v w, R v w → ∀ a, S v a ↔ S w a

def Form.Written (form : α → Form) (v : Value) (a : α) : Prop :=
  ∃ fs, v = .mapping fs ∧ (form a).Fits fs

theorem Form.written_mapping {fs : Fields Value} {a : α} :
    Form.Written form (.mapping fs) a ↔ (form a).Fits fs := by
  simp [Form.Written]

theorem indifferent_under (hplain : ∀ a, (form a).Plain [k])
    (h : ∀ v w, R v w → ∀ a, ∀ m ∈ (form a).members, m.1 = k → (m.2 (some v) ↔ m.2 (some w))) :
    Indifferent (Form.Written form) (Under k R) := by
  rintro _ _ ⟨hget, hR⟩ a
  rw [Form.written_mapping, Form.written_mapping]
  exact Form.fits_put_iff hget (hplain a) (h _ _ hR a)

theorem indifferent_omits (hplain : ∀ a, (form a).Plain names)
    (h : ∀ a, ∀ m ∈ (form a).members, m.1 ∈ names → (m.2 (some .null) ↔ m.2 none)) :
    Indifferent (Form.Written form) (Omits names) := by
  rintro _ _ ⟨hk, hfree⟩ a
  rw [Form.written_mapping, Form.written_mapping]
  exact Form.fits_omit_iff hfree (hplain a) hk fun m hm hname => h a m hm (hname ▸ hk)

theorem indifferent_renames {newer older : String} (hne : newer ≠ older)
    (hknown : ∀ a, newer ∈ (form a).known ∧ older ∈ (form a).known)
    (hmembers : ∀ a, ∀ m ∈ (form a).members, newer ≠ m.1 ∧ older ≠ m.1)
    (haliases : ∀ a, ∀ e ∈ (form a).aliases, e.newer = newer ∧ e.older = older ∧
      ∀ v, e.holds (some v) none ↔ e.holds none (some v)) :
    Indifferent (Form.Written form) (Renames newer older) := by
  rintro _ _ ⟨hnewer, holder⟩ a
  rw [Form.written_mapping, Form.written_mapping]
  refine Form.fits_rename_iff hne hnewer holder (hknown a) (hmembers a) fun e he => ?_
  obtain ⟨hn, ho, hholds⟩ := haliases a e he
  exact ⟨hn, ho, hholds _⟩

def Listed (S : Value → α → Prop) (v : Value) (xs : List α) : Prop :=
  ∃ items, v = .list items ∧ List.Forall₂ S items xs

theorem forall₂_append_cons_iff {S : β → α → Prop} {v w : β} (h : ∀ a, S v a ↔ S w a)
    {before after : List β} {xs : List α} :
    List.Forall₂ S (before ++ v :: after) xs ↔ List.Forall₂ S (before ++ w :: after) xs := by
  induction before generalizing xs with
  | nil => simp [List.forall₂_cons_left_iff, h]
  | cons u before ih => simp [List.forall₂_cons_left_iff, ih]

theorem indifferent_listed (h : Indifferent S R) : Indifferent (Listed S) (Among R) := by
  rintro _ _ ⟨hR⟩ xs
  simp only [Listed, Value.list.injEq, exists_eq_left']
  exact forall₂_append_cons_iff (h _ _ hR)

theorem forall₂_ne_nil_iff {S : Value → α → Prop} {items : List Value} {xs : List α}
    (h : List.Forall₂ S items xs) : items ≠ [] ↔ xs ≠ [] := by
  cases h <;> simp

theorem Optional.null_iff {R : Value → α → Prop} {r : Option α} (h : ∀ a, ¬ R .null a) :
    Optional R (some .null) r ↔ Optional R none r := by
  constructor
  · rintro (_ | _ | hnull)
    · exact .absent
    · exact absurd hnull (h _)
  · rintro ⟨⟩
    exact .null

theorem indifferent_given (h : Indifferent S R) (hR : R v w) (hgiven : v ≠ .null ∧ w ≠ .null)
    (r : Option α) : Optional S (some v) r ↔ Optional S (some w) r := by
  constructor
  · rintro (_ | _ | hv)
    · exact absurd rfl hgiven.1
    · exact .given ((h v w hR _).1 hv)
  · rintro (_ | _ | hw)
    · exact absurd rfl hgiven.2
    · exact .given ((h v w hR _).2 hw)

theorem Among.given (h : Among R v w) : v ≠ .null ∧ w ≠ .null := by
  cases h
  simp

theorem Anywhere.given (h : Anywhere R v w) : v ≠ .null ∧ w ≠ .null := by
  cases h
  simp

theorem Omits.given (h : Omits names v w) : v ≠ .null ∧ w ≠ .null := by
  cases h
  simp

theorem Enumerates.given (h : Enumerates v w) : v ≠ .null ∧ w ≠ .null := by
  cases h
  simp [Value.ofStrings]

end

theorem not_isText_null (t : String) : ¬ IsText .null t := by
  simp [IsText, Section.filled?]

theorem not_isTexts_null (xs : List String) : ¬ IsTexts .null xs := by
  simp [IsTexts, Value.ofStrings]

theorem not_isRole_null (role : Role) : ¬ IsRole .null role := by
  simp [IsRole]

theorem Host.indifferent_null : Indifferent (Form.Written Host.form) (Omits ["bind"]) := by
  refine indifferent_omits (fun h => ⟨?_, ?_⟩) fun h => ?_
  · simp [Host.form]
  · simp [Host.form]
  · simp [Host.form, Optional.null_iff not_isText_null]

theorem Match.indifferent_account :
    Indifferent (Form.Written Match.form) (Renames "accountId" "account_id") := by
  refine indifferent_renames (by decide) (fun m => by simp [Match.form, matchKeys]) (fun m => ?_)
    fun m => ?_
  · simp [Match.form]
  · simp [Match.form, Section.filled?]

theorem Binding.written_iff {v : Value} {b : Binding} :
    b.WrittenAs v ↔ Form.Written Binding.form v b := by
  cases v with
  | mapping fs => rw [Form.written_mapping, Binding.writtenAs_iff]
  | null | bool _ | number _ | string _ | list _ =>
    constructor
    · intro h
      cases h
    · rintro ⟨_, hfs, _⟩
      cases hfs

theorem Binding.indifferent_account : Indifferent (fun v (b : Binding) => b.WrittenAs v)
    (Under "match" (Renames "accountId" "account_id")) := by
  simp only [Binding.written_iff]
  refine indifferent_under (fun b => ⟨?_, ?_⟩) fun v w h b => ?_
  · simp [Binding.form]
  · simp [Binding.form]
  · have hroute := Match.indifferent_account v w h b.route
    simpa [Binding.form, Form.Written, Match.writtenAs_iff] using hroute

theorem areBindings_iff {bs : List Binding} {v : Value} :
    AreBindings bs (some v) ↔ bs ≠ [] ∧ Listed (fun v (b : Binding) => b.WrittenAs v) v bs := by
  constructor
  · rintro ⟨hne, hitems⟩
    exact ⟨(forall₂_ne_nil_iff hitems).1 hne, _, rfl, hitems⟩
  · rintro ⟨hne, items, rfl, hitems⟩
    exact .list ((forall₂_ne_nil_iff hitems).2 hne) hitems

theorem Agent.indifferent : Indifferent (Form.Written Agent.form) Agent.Respelled := by
  rintro v w (hnull | haccount)
  · refine indifferent_omits (fun a => ⟨?_, by simp [Agent.form]⟩) (fun a => ?_) v w hnull
    · simp [Agent.form, agentKeys]
    · simp [Agent.form, Optional.null_iff not_isText_null, Optional.null_iff not_isTexts_null,
        Optional.null_iff not_isRole_null, Optional.null_iff not_isFragment_null]
  · refine indifferent_under (fun a => ⟨?_, by simp [Agent.form]⟩) (fun v w h a => ?_) v w haccount
    · simp [Agent.form, agentKeys]
    · simp [Agent.form, areBindings_iff, indifferent_listed Binding.indifferent_account v w h]

theorem sorted_ext {α : Type} {fs gs : Fields α} (hfs : fs.Sorted) (hgs : gs.Sorted)
    (h : ∀ k, Fields.get? fs k = Fields.get? gs k) : fs = gs := by
  have hmem (k : String) : k ∈ Fields.keys fs ↔ k ∈ Fields.keys gs := by
    have hsome {hs : Fields α} : k ∈ Fields.keys hs ↔ (Fields.get? hs k).isSome := by
      rw [Fields.isSome_get?_iff, Fields.keys, List.mem_map]
    rw [hsome, hsome, h]
  exact hfs.distinct.ext (List.Pairwise.eq_of_mem_iff hfs hgs hmem) h

theorem get?_sortFields_const {α : Type} {fs : Fields α} {c : α} (h : ∀ m ∈ fs, m.2 = c)
    (k : String) :
    Fields.get? (sortFields fs) k = if k ∈ Fields.keys fs then some c else none := by
  have hfold (acc : Fields α) :
      Fields.get? (fs.foldl (fun sorted m => Fields.insert sorted m.1 m.2) acc) k =
        if k ∈ Fields.keys fs then some c else Fields.get? acc k := by
    induction fs generalizing acc with
    | nil => rfl
    | cons m fs ih =>
      obtain ⟨hm, hrest⟩ := List.forall_mem_cons.1 h
      have hkeys : k ∈ Fields.keys (m :: fs) ↔ k = m.1 ∨ k ∈ Fields.keys fs := List.mem_cons
      rw [List.foldl_cons, ih hrest]
      by_cases hk : m.1 = k
      · subst hk
        simp [hkeys, Fields.get?_insert_self, hm]
      · simp [hkeys, Fields.get?_insert_of_ne _ _ hk, Ne.symm hk]
  exact hfold []

theorem sortFields_eq_accountsOf {accounts : Fields Value} {ids : List String}
    (hempty : ∀ m ∈ accounts, m.2 = .empty) (hids : ∀ id, id ∈ ids ↔ id ∈ Fields.keys accounts) :
    sortFields accounts = accountsOf ids := by
  refine sorted_ext (sorted_sortFields _) (sorted_accountsOf _) fun id => ?_
  rw [get?_sortFields_const hempty, get?_accountsOf]
  simp only [hids]

theorem not_areAccounts_null (accounts : Fields Value) : ¬ AreAccounts .null accounts := by
  rintro ⟨⟩

theorem areAccounts_mapping_iff {fs accounts : Fields Value} :
    AreAccounts (.mapping fs) accounts ↔ accounts = sortFields fs := by
  constructor
  · rintro ⟨⟩
    rfl
  · rintro rfl
    exact .mapping fs

theorem ofStrings_injective : Function.Injective Value.ofStrings := fun _ _ h =>
  List.map_injective_iff.2 (fun _ _ => Value.string.inj) (Value.list.inj h)

theorem areAccounts_ofStrings_iff {ids : List String} {accounts : Fields Value} :
    AreAccounts (.ofStrings ids) accounts ↔ accounts = accountsOf ids := by
  constructor
  · intro h
    generalize hv : Value.ofStrings ids = v at h
    cases h with
    | list ids' => rw [ofStrings_injective hv]
    | mapping fs => cases hv
  · rintro rfl
    exact .list ids

theorem indifferent_accounts : Indifferent AreAccounts Enumerates := by
  rintro _ _ ⟨hempty, hids⟩ accounts
  rw [areAccounts_mapping_iff, areAccounts_ofStrings_iff, sortFields_eq_accountsOf hempty hids]

theorem Channel.indifferent_bare : Indifferent (fun v (c : Channel) => c.WrittenAs v) Unwraps := by
  rintro _ _ ⟨ids⟩ c
  have hlist : Channel.WrittenAs ⟨accountsOf ids, []⟩ (.ofStrings ids) := .list ids
  have hgiven : Optional AreAccounts (some (.ofStrings ids)) (some (accountsOf ids)) :=
    .given (.list ids)
  have hmapping :
      Channel.WrittenAs ⟨accountsOf ids, []⟩ (.mapping [("accounts", .ofStrings ids)]) := by
    refine Channel.writtenAs_iff.2 ⟨?_, by simp [Channel.form], ?_⟩
    · simpa [Channel.form, Fields.get?_cons] using ⟨_, hgiven, rfl⟩
    · simp [Channel.form, Fields.without_cons]
  constructor
  · intro h
    rwa [h.unique hmapping]
  · intro h
    rwa [h.unique hlist]

theorem Channel.written_mapping {fs : Fields Value} {c : Channel} :
    Form.Written Channel.form (.mapping fs) c ↔ c.WrittenAs (.mapping fs) := by
  rw [Form.written_mapping, Channel.writtenAs_iff]

theorem Channel.indifferent :
    Indifferent (fun v (c : Channel) => c.WrittenAs v) Channel.Respelled := by
  rintro v w (hnull | hlist | hbare) c
  · have hkept : Form.Written Channel.form v c ↔ Form.Written Channel.form w c := by
      refine indifferent_omits (fun c => ⟨?_, ?_⟩) (fun c => ?_) v w hnull c
      · simp [Channel.form]
      · simp [Channel.form]
      · simp [Channel.form, Optional.null_iff not_areAccounts_null]
    obtain ⟨hk, hfree⟩ := hnull
    simpa only [Channel.written_mapping] using hkept
  · have hkept : Form.Written Channel.form v c ↔ Form.Written Channel.form w c := by
      refine indifferent_under (fun c => ⟨?_, ?_⟩) (fun v w h c => ?_) v w hlist c
      · simp [Channel.form]
      · simp [Channel.form]
      · simp [Channel.form, indifferent_given indifferent_accounts h h.given]
    obtain ⟨hget, h⟩ := hlist
    simpa only [Channel.written_mapping] using hkept
  · exact indifferent_bare v w hbare c

theorem indifferent_areChannels : Indifferent AreChannels (Anywhere Channel.Respelled) := by
  rintro _ _ @⟨before, after, k, v, w, h⟩ cs
  have hsame (found : Fields Channel) : ChannelsWrittenAs found (before ++ (k, v) :: after) ↔
      ChannelsWrittenAs found (before ++ (k, w) :: after) :=
    forall₂_append_cons_iff fun (n : String × Channel) =>
      and_congr_right fun _ => Channel.indifferent v w h n.2
  simp [AreChannels, hsame]

theorem isAgent_iff {v : Value} {a : Agent} : IsAgent v a ↔ Form.Written Agent.form v a := by
  simp only [IsAgent, Form.Written, Agent.writtenAs_iff]

theorem isInstance_iff {v : Value} {i : Instance} :
    IsInstance v i ↔ Form.Written Instance.form v i := by
  simp only [IsInstance, Form.Written, Instance.writtenAs_iff]

theorem areDefaults_iff {v : Value} {d : Defaults} :
    AreDefaults v d ↔ Form.Written Defaults.form v d := by
  simp only [AreDefaults, Form.Written, Defaults.writtenAs_iff]

theorem indifferent_areAgents : Indifferent AreAgents (Among Agent.Respelled) := by
  have hagent : Indifferent IsAgent Agent.Respelled := by
    simpa only [Indifferent, isAgent_iff] using Agent.indifferent
  exact indifferent_listed hagent

theorem not_areAgents_null (as : List Agent) : ¬ AreAgents .null as := by
  simp [AreAgents]

theorem not_areChannels_null (cs : Fields Channel) : ¬ AreChannels .null cs := by
  simp [AreChannels]

theorem not_areDefaults_null (d : Defaults) : ¬ AreDefaults .null d := by
  simp [AreDefaults]

theorem not_isStride_null (n : Nat) : ¬ IsStride .null n := by
  simp [IsStride, Value.asUnsigned?]

theorem Instance.plain_form {names : List String}
    (h : names ⊆ ["host", "agents", "channels", "policy"]) (i : Instance) :
    i.form.Plain names where
  known := fun k hk => (by decide : ["host", "agents", "channels", "policy"] ⊆ instanceKeys) (h hk)
  aliases := by
    simp only [form, List.mem_singleton, forall_eq]
    exact ⟨fun hk => absurd (h hk) (by decide), fun hk => absurd (h hk) (by decide)⟩

theorem Instance.indifferent : Indifferent (Form.Written Instance.form) Instance.Respelled := by
  rintro v w (hnull | hruntime | hhost | hagents | hchannels)
  · refine indifferent_omits (plain_form (by decide)) (fun i => ?_) v w hnull
    simp [Instance.form, Optional.null_iff not_areAgents_null,
      Optional.null_iff not_areChannels_null, Optional.null_iff not_isFragment_null]
  · refine indifferent_renames (by decide) (fun i => ?_) (fun i => ?_) (fun i => ?_) v w hruntime
    · simp [Instance.form, instanceKeys]
    · simp [Instance.form]
    · simp [Instance.form]
  · refine indifferent_under (plain_form (by decide)) (fun v w h i => ?_) v w hhost
    have hkept := Host.indifferent_null v w h i.host
    simpa [Instance.form, Form.Written, Host.writtenAs_iff] using hkept
  · refine indifferent_under (plain_form (by decide)) (fun v w h i => ?_) v w hagents
    simp [Instance.form, indifferent_given indifferent_areAgents h h.given]
  · refine indifferent_under (plain_form (by decide)) (fun v w h i => ?_) v w hchannels
    simp [Instance.form, indifferent_given indifferent_areChannels h h.given]

theorem indifferent_isInstance : Indifferent IsInstance Instance.Respelled := by
  simpa only [Indifferent, isInstance_iff] using Instance.indifferent

theorem indifferent_areDefaults : Indifferent AreDefaults (Omits ["port_stride", "policy"]) := by
  have hkept : Indifferent (Form.Written Defaults.form) (Omits ["port_stride", "policy"]) := by
    refine indifferent_omits (fun d => ⟨?_, ?_⟩) fun d => ?_
    · simp [Defaults.form]
    · simp [Defaults.form]
    · simp [Defaults.form, Optional.null_iff not_isStride_null,
        Optional.null_iff not_isFragment_null]
  simpa only [Indifferent, areDefaults_iff] using hkept

theorem areInstances_iff {instances : List Instance} {v : Value} :
    AreInstances instances (some v) ↔ instances ≠ [] ∧ Listed IsInstance v instances := by
  constructor
  · rintro ⟨hne, hitems⟩
    exact ⟨(forall₂_ne_nil_iff hitems).1 hne, _, rfl, hitems⟩
  · rintro ⟨hne, items, rfl, hitems⟩
    exact .list ((forall₂_ne_nil_iff hitems).2 hne) hitems

theorem Inventory.plain_form {names : List String} (h : names ⊆ rootKeys) (inv : Inventory) :
    inv.form.Plain names :=
  ⟨fun _ hk => h hk, by simp [form]⟩

theorem Inventory.indifferent : Indifferent (Form.Written Inventory.form) Inventory.Respelled := by
  rintro v w (hnull | hdefaults | hinstances)
  · refine indifferent_omits (plain_form (by decide)) (fun inv => ?_) v w hnull
    simp [Inventory.form, Optional.null_iff not_areDefaults_null,
      Optional.null_iff not_isFragment_null]
  · refine indifferent_under (plain_form (by decide)) (fun v w h inv => ?_) v w hdefaults
    simp [Inventory.form, indifferent_given indifferent_areDefaults h h.given]
  · refine indifferent_under (plain_form (by decide)) (fun v w h inv => ?_) v w hinstances
    simp [Inventory.form, areInstances_iff, indifferent_listed indifferent_isInstance v w h]

section

variable {tree : Tree} {dir : Path} {v w : Value}

theorem ofValue?_iff_of_respelled (h : Inventory.Respelled v w) (inv : Inventory) :
    Inventory.ofValue? tree dir v = .ok inv ↔ Inventory.ofValue? tree dir w = .ok inv := by
  have hadmitted {v : Value} : Inventory.ofValue? tree dir v = .ok inv ↔
      Form.Written Inventory.form v inv ∧ inv.LayersPresent tree dir ∧ inv.CollisionFree dir := by
    rw [ofValue?_eq_ok_iff]
    simp only [Form.Written, Inventory.writtenAs_iff]
    constructor
    · rintro ⟨fs, hv, hfits, hrest⟩
      exact ⟨⟨fs, hv, hfits⟩, hrest⟩
    · rintro ⟨⟨fs, hv, hfits⟩, hrest⟩
      exact ⟨fs, hv, hfits, hrest⟩
  rw [hadmitted, hadmitted, Inventory.indifferent v w h inv]

/-- Documents that differ in their spelling alone, in as many places as one likes, are admitted as
the same inventory if at all. -/
theorem ofValue?_of_respelled (h : EqvGen Inventory.Respelled v w) (inv : Inventory) :
    Inventory.ofValue? tree dir v = .ok inv ↔ Inventory.ofValue? tree dir w = .ok inv := by
  induction h with
  | rel v w h => exact ofValue?_iff_of_respelled h inv
  | refl v => exact Iff.rfl
  | symm v w _ ih => exact ih.symm
  | trans u v w _ _ ih ih' => exact ih.trans ih'

def soloAgent (role : Fields Value) (account : String) : Value :=
  .mapping (("id", .string "ada") :: role ++ [("bindings", .list [
    .mapping [("match", .mapping [("channel", .string "irc"), (account, .string "ops")])]])])

def soloInstance (bind : Fields Value) (runtime : String) (agent irc : Value) : Value :=
  .mapping [("id", .string "solo"), ("host", .mapping (("gateway_port", .ofNat 4000) :: bind)),
    ("paths", .mapping (pairPaths "solo").toFields),
    (runtime, .mapping [("config_layers", .ofStrings ["base"])]), ("agents", .list [agent]),
    ("channels", .mapping [("irc", irc)])]

def soloDocument (defaults : Fields Value) (i : Value) : Value :=
  .mapping (("version", .ofNat 1) :: defaults ++ [("instances", .list [i])])

def soloAccounts : Value := .mapping [("ops", .empty), ("bob", .empty)]

def soloOlder : Value :=
  soloDocument [] (soloInstance [] "openclaw" (soloAgent [] "account_id")
    (.mapping [("accounts", soloAccounts)]))

def soloNewer : Value :=
  soloDocument [("defaults", .null)] (soloInstance [("bind", .null)] "runtime"
    (soloAgent [("role", .null)] "accountId") (.ofStrings ["bob", "ops", "bob"]))

theorem respelled_solo_agent {agent agent' irc : Value} (h : Agent.Respelled agent agent') :
    Instance.Respelled (soloInstance [] "openclaw" agent irc)
      (soloInstance [] "openclaw" agent' irc) := by
  have hagents : Among Agent.Respelled (.list [agent]) (.list [agent']) :=
    @Among.item _ [] [] agent agent' h
  exact .agents (.member rfl hagents)

theorem respelled_solo_channel {agent irc irc' : Value} (h : Channel.Respelled irc irc') :
    Instance.Respelled (soloInstance [] "openclaw" agent irc)
      (soloInstance [] "openclaw" agent irc') := by
  have hchannels :
      Anywhere Channel.Respelled (.mapping [("irc", irc)]) (.mapping [("irc", irc')]) :=
    @Anywhere.member _ [] [] "irc" irc irc' h
  exact .channels (.member rfl hchannels)

theorem respelled_solo_account :
    Agent.Respelled (soloAgent [] "accountId") (soloAgent [] "account_id") := by
  have hroute : Renames "accountId" "account_id"
      (.mapping [("channel", .string "irc"), ("accountId", .string "ops")])
      (.mapping [("channel", .string "irc"), ("account_id", .string "ops")]) :=
    @Renames.member _ _ [_] [] _ (by simp) (by simp)
  have hbinding : Under "match" (Renames "accountId" "account_id") (.mapping [("match", _)])
      (.mapping [("match", _)]) := .member rfl hroute
  exact .account (.member rfl (@Among.item _ [] [] _ _ hbinding))

/-- From the newer spelling to the older one: what is null is left out, the runtime block and the
account get their older names, and the accounts are no longer listed. -/
theorem respelled_solo : EqvGen Inventory.Respelled soloNewer soloOlder := by
  have hstep {v w : Value} (h : Instance.Respelled v w) :
      EqvGen Inventory.Respelled (soloDocument [] v) (soloDocument [] w) := by
    have hinstances : Among Instance.Respelled (.list [v]) (.list [w]) :=
      @Among.item _ [] [] v w h
    exact .rel _ _ (.instances (.member rfl hinstances))
  have hdefaults (i : Value) :
      EqvGen Inventory.Respelled (soloDocument [("defaults", .null)] i) (soloDocument [] i) :=
    .rel _ _ (.null (@Omits.null _ [_] [_] "defaults" (.head _) (by simp)))
  have hbind (agent irc : Value) : Instance.Respelled
      (soloInstance [("bind", .null)] "runtime" agent irc) (soloInstance [] "runtime" agent irc) :=
    .host (.member rfl (@Omits.null _ [_] [] "bind" (.head _) (by simp)))
  have hruntime (agent irc : Value) : Instance.Respelled
      (soloInstance [] "runtime" agent irc) (soloInstance [] "openclaw" agent irc) :=
    .runtime (@Renames.member _ _ [_, _, _] [_, _] _ (by simp) (by simp))
  have hrole :
      Agent.Respelled (soloAgent [("role", .null)] "accountId") (soloAgent [] "accountId") :=
    .null (@Omits.null _ [_] [_] "role" (.head _) (by simp))
  have hbare : Channel.Respelled (.mapping [("accounts", .ofStrings ["bob", "ops", "bob"])])
      (.ofStrings ["bob", "ops", "bob"]) := .bare (.accounts _)
  have hlist : Channel.Respelled (.mapping [("accounts", soloAccounts)])
      (.mapping [("accounts", .ofStrings ["bob", "ops", "bob"])]) :=
    .list (.member rfl (.ids (by decide) (by simp [Fields.keys])))
  refine .trans _ _ _ (hdefaults _) ?_
  refine .trans _ _ _ (hstep (hbind _ _)) ?_
  refine .trans _ _ _ (hstep (hruntime _ _)) ?_
  refine .trans _ _ _ (hstep (respelled_solo_agent hrole)) ?_
  refine .trans _ _ _ (hstep (respelled_solo_agent respelled_solo_account)) ?_
  refine .trans _ _ _ (.symm _ _ (hstep (respelled_solo_channel hbare))) ?_
  exact .symm _ _ (hstep (respelled_solo_channel hlist))

def soloFleet : Inventory where
  version := 1
  instances := [{
    id := "solo", host := { gatewayPort := 4000 }, paths := pairPaths "solo"
    runtime := { configLayers := ["base"] }
    agents := [{ id := "ada", role := .usecase, bindings := [Binding.of "irc" "ops"] }]
    channels := [("irc", { accounts := [("bob", .empty), ("ops", .empty)] })] }]

theorem ofValue?_of_respelled_solo :
    Inventory.ofValue? pairTree pairDir soloOlder = .ok soloFleet ∧
      Inventory.ofValue? pairTree pairDir soloNewer = .ok soloFleet := by
  have holder : Inventory.ofValue? pairTree pairDir soloOlder = .ok soloFleet := by rfl
  exact ⟨holder, (ofValue?_of_respelled respelled_solo soloFleet).2 holder⟩

end

end GatewayFleet.Fleet
