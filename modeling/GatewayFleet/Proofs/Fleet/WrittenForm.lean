import Mathlib.Data.List.Forall2
import GatewayFleet.Fleet.Record
import GatewayFleet.Proofs.Fleet.Passing

/-! The written forms of the records. A value is a written form of a record when its members say
what the record holds; which of several spellings was used does not show in the record. The reader
of a record passes with it exactly on its written forms. -/

namespace GatewayFleet.Fleet

variable {s : Section} {place : Place}

def IsStride (v : Value) (n : Nat) : Prop :=
  ∃ m, v.asUnsigned? = some m ∧ 1 ≤ m ∧ n = min m strideLimit

structure Defaults.WrittenAs (d : Defaults) (fs : Fields Value) : Prop where
  stride : Optional IsStride (Fields.get? fs "port_stride") d.portStride
  policy : Optional IsFragment (Fields.get? fs "policy") d.policy
  extra : d.extra = Fields.without fs ["port_stride", "policy"]

def readStride (s : Section) : Checked (Option Nat) :=
  match s.get? "port_stride" with
  | none | some .null => pure none
  | some v => match v.asUnsigned? with
    | some (n + 1) => pure (some (min (n + 1) strideLimit))
    | _ => Checked.faulty (s.at_ "port_stride") .notPositive none

theorem Defaults.read_some (fs : Fields Value) :
    Defaults.read (some fs) = (do
      let s : Section := ⟨fs, [.key "defaults"]⟩
      let stride ← readStride s
      let policy ← s.policy "policy"
      pure ⟨stride, policy, s.without ["port_stride", "policy"]⟩) := by
  simp only [Defaults.read, readStride]
  generalize Section.get? _ "port_stride" = v
  cases v with
  | none => rfl
  | some v =>
    cases v with
    | number x =>
      simp only
      generalize (Value.number x).asUnsigned? = n
      rcases n with _ | _ | n <;> rfl
    | null | bool _ | string _ | list _ | mapping _ => rfl

theorem readStride_eq_pure_iff {r : Option Nat} :
    readStride s = pure r ↔ Optional IsStride (s.get? "port_stride") r := by
  unfold readStride
  generalize s.get? "port_stride" = v
  constructor
  · intro h
    split at h
    · exact Checked.pure_eq_pure_iff.1 h ▸ .absent
    · exact Checked.pure_eq_pure_iff.1 h ▸ .null
    · split at h
      · rename_i n hn
        exact Checked.pure_eq_pure_iff.1 h ▸ .given ⟨n + 1, hn, by omega, rfl⟩
      · exact absurd h Checked.faulty_ne_pure
  · intro h
    cases h with
    | absent | null => rfl
    | @given v n h =>
      obtain ⟨m, hm, hpos, rfl⟩ := h
      obtain ⟨m, rfl⟩ := Nat.exists_eq_add_of_le' hpos
      cases v with
      | number x => simp [hm]
      | null | bool _ | string _ | list _ | mapping _ => cases hm

theorem Defaults.read_eq_pure_iff {m : Option (Fields Value)} {d : Defaults} :
    Defaults.read m = pure d ↔ (m = none ∧ d = {}) ∨ ∃ fs, m = some fs ∧ d.WrittenAs fs := by
  cases m with
  | none => simp [Defaults.read, eq_comm]
  | some fs =>
    simp only [Defaults.read_some, Checked.bind_eq_pure_iff, readStride_eq_pure_iff,
      Section.policy_eq_pure_iff, Checked.pure_eq_pure_iff, reduceCtorEq, false_and, false_or,
      Option.some.injEq, exists_eq_left']
    constructor
    · intro h
      obtain ⟨stride, hstride, policy, hpolicy, rfl⟩ := h
      exact ⟨hstride, hpolicy, rfl⟩
    · intro h
      exact ⟨_, h.stride, _, h.policy, by rw [Section.without, ← h.extra]⟩

structure Host.WrittenAs (h : Host) (fs : Fields Value) : Prop where
  port : port? (Fields.get? fs "gateway_port") = some h.gatewayPort
  bind : Optional IsText (Fields.get? fs "bind") h.bind
  extra : h.extra = Fields.without fs ["gateway_port", "bind"]

theorem Host.read_eq_pure_iff {r : Option Host} :
    Host.read s = pure r ↔ ∃ h, r = some h ∧ h.WrittenAs s.fields := by
  unfold Host.read
  cases hport : port? (s.get? "gateway_port") with
  | none =>
    simp only [Checked.bind_eq_pure_iff, Checked.faulty_ne_pure, false_and, exists_false,
      false_iff, not_exists, not_and]
    intro h _ hw
    cases hport.symm.trans hw.port
  | some p =>
    simp only [pure_bind, Checked.bind_eq_pure_iff, Section.optionalString_eq_pure_iff,
      Checked.pure_eq_pure_iff, Option.map_some]
    constructor
    · intro h
      obtain ⟨bind, hbind, rfl⟩ := h
      exact ⟨_, rfl, hport, hbind, rfl⟩
    · intro h
      obtain ⟨h, rfl, hw⟩ := h
      obtain rfl : p = h.gatewayPort := Option.some.inj (hport.symm.trans hw.port)
      exact ⟨_, hw.bind, by rw [Section.without, ← hw.extra]⟩

structure RolePaths.WrittenAs (p : RolePaths) (fs : Fields Value) : Prop where
  texts : ∀ role, Section.filled? (Fields.get? fs role.key) = some (p.get role)
  extra : p.extra = Fields.without fs (PathRole.all.map (·.key))

theorem RolePaths.read_eq_pure_iff {r : Option RolePaths} :
    RolePaths.read s = pure r ↔ ∃ p, r = some p ∧ p.WrittenAs s.fields := by
  simp only [RolePaths.read, Checked.bind_eq_pure_iff, Section.string_eq_pure_iff,
    Checked.pure_eq_pure_iff]
  constructor
  · intro h
    obtain ⟨_, ⟨c, rfl, hc⟩, _, ⟨t, rfl, ht⟩, _, ⟨w, rfl, hw⟩, _, ⟨g, rfl, hg⟩, rfl⟩ := h
    refine ⟨_, rfl, fun role => ?_, rfl⟩
    cases role with
    | configDir => exact hc
    | stateDir => exact ht
    | workspaceRoot => exact hw
    | generatedDir => exact hg
  · intro h
    obtain ⟨p, rfl, hp⟩ := h
    refine ⟨_, ⟨_, rfl, hp.texts .configDir⟩, _, ⟨_, rfl, hp.texts .stateDir⟩,
      _, ⟨_, rfl, hp.texts .workspaceRoot⟩, _, ⟨_, rfl, hp.texts .generatedDir⟩, ?_⟩
    simp only [RolePaths.get, Section.without, ← hp.extra]

theorem agents_ne_runtimeKey (s : Section) : "agents" ≠ runtimeKey s := by
  unfold runtimeKey
  split <;> decide

theorem runtimeKey_put (fs : Fields Value) (w : Value) (place : Place) :
    runtimeKey ⟨Fields.put fs "agents" w, place⟩ = runtimeKey ⟨fs, place⟩ := by
  unfold runtimeKey Section.get?
  rw [Fields.get?_put_of_ne fs w (by decide), Fields.get?_put_of_ne fs w (by decide)]

structure RuntimeBlock.WrittenAs (b : RuntimeBlock) (fs : Fields Value) : Prop where
  layers : Fields.get? fs "config_layers" = some (.ofStrings b.configLayers)
  layers_ne_nil : b.configLayers ≠ []
  extra : b.extra = Fields.without fs ["config_layers"]

theorem RuntimeBlock.read_eq_pure_iff {r : Option RuntimeBlock} :
    RuntimeBlock.read s = pure r ↔
      ∃ b fs, r = some b ∧ s.get? (runtimeKey s) = some (.mapping fs) ∧ b.WrittenAs fs := by
  simp only [RuntimeBlock.read, Checked.bind_eq_pure_iff, Section.mapping_eq_pure_iff]
  constructor
  · intro h
    obtain ⟨_, ⟨fs, rfl, hfs⟩, h⟩ := h
    simp only at h
    split at h
    · rename_i item items hlayers
      simp only [Checked.bind_eq_pure_iff, Section.texts_eq_pure_iff,
        Checked.pure_eq_pure_iff] at h
      obtain ⟨layers, hitems, rfl⟩ := h
      refine ⟨_, fs, rfl, hfs, ?_, ?_, rfl⟩
      · rw [Value.ofStrings, ← hitems]
        exact hlayers
      · rintro rfl
        cases hitems
    · exact absurd h Checked.faulty_ne_pure
  · intro h
    obtain ⟨b, fs, rfl, hfs, hb⟩ := h
    refine ⟨_, ⟨fs, rfl, hfs⟩, ?_⟩
    obtain ⟨layer, layers, hlayers⟩ := List.exists_cons_of_ne_nil hb.layers_ne_nil
    have hget := hb.layers
    rw [hlayers, Value.ofStrings, List.map_cons] at hget
    simp only [Section.get?, hget, Checked.bind_eq_pure_iff, Section.texts_eq_pure_iff,
      Checked.pure_eq_pure_iff, Option.some.injEq]
    refine ⟨b.configLayers, by rw [hlayers, List.map_cons], ?_⟩
    rw [Section.without, ← hb.extra]

def IsRole (v : Value) (role : Role) : Prop :=
  ∃ name, v = .string name ∧ Role.ofName? name = some role

theorem Role.read_eq_pure_iff {role : Role} :
    Role.read s = pure role ↔ ∃ r, Optional IsRole (s.get? "role") r ∧ r.getD .default = role := by
  unfold Role.read
  generalize s.get? "role" = v
  constructor
  · intro h
    split at h
    · exact ⟨none, .absent, Checked.pure_eq_pure_iff.1 h⟩
    · exact ⟨none, .null, Checked.pure_eq_pure_iff.1 h⟩
    · split at h
      · rename_i r hr
        exact ⟨some r, .given ⟨_, rfl, hr⟩, Checked.pure_eq_pure_iff.1 h⟩
      · exact absurd h Checked.faulty_ne_pure
    · exact absurd h Checked.faulty_ne_pure
  · intro h
    obtain ⟨r, hr, rfl⟩ := h
    cases hr with
    | absent | null => rfl
    | given h =>
      obtain ⟨name, rfl, hname⟩ := h
      simp [hname]

/-- The account is looked for under its older name when the newer one holds no text. -/
structure Match.WrittenAs (m : Match) (fs : Fields Value) : Prop where
  channel : Section.filled? (Fields.get? fs "channel") = some m.channel
  account : (Section.filled? (Fields.get? fs "accountId") <|>
    Section.filled? (Fields.get? fs "account_id")) = some m.accountId
  extra : m.extra = Fields.without fs matchKeys

inductive Binding.WrittenAs (b : Binding) : Value → Prop
  | mapping {fs route : Fields Value} (hroute : Fields.get? fs "match" = some (.mapping route))
      (hmatch : b.route.WrittenAs route) (hextra : b.extra = Fields.without fs ["match"]) :
      b.WrittenAs (.mapping fs)

theorem Binding.read_eq_pure_iff {v : Value} {r : Option Binding} :
    Binding.read place v = pure r ↔ ∃ b, r = some b ∧ b.WrittenAs v := by
  unfold Binding.read
  constructor
  · intro h
    split at h
    · rename_i fs
      split at h
      · rename_i route hroute
        simp only at h
        split at h
        · rename_i channel account hchannel haccount
          exact ⟨_, (Checked.pure_eq_pure_iff.1 h).symm, hroute, ⟨hchannel, haccount, rfl⟩, rfl⟩
        · exact absurd h Checked.faulty_ne_pure
      · exact absurd h Checked.faulty_ne_pure
    · exact absurd h Checked.faulty_ne_pure
  · intro h
    obtain ⟨b, rfl, hb⟩ := h
    cases hb with
    | mapping hroute hmatch hextra =>
      simp only [hroute, hmatch.channel, hmatch.account, ← hmatch.extra, ← hextra]

theorem Binding.readAll_eq_pure_iff {i : Nat} {items : List Value} {bs : List Binding} :
    Binding.readAll place i items = pure bs ↔
      List.Forall₂ (fun v b => Binding.WrittenAs b v) items bs := by
  induction items generalizing i bs with
  | nil => simp [Binding.readAll, eq_comm]
  | cons v items ih =>
    simp only [Binding.readAll, Checked.bind_eq_pure_iff, Binding.read_eq_pure_iff, ih,
      Checked.pure_eq_pure_iff, List.forall₂_cons_left_iff]
    constructor
    · intro h
      obtain ⟨_, ⟨b, rfl, hb⟩, others, hothers, rfl⟩ := h
      exact ⟨b, others, hb, hothers, rfl⟩
    · intro h
      obtain ⟨b, others, hb, hothers, rfl⟩ := h
      exact ⟨_, ⟨b, rfl, hb⟩, others, hothers, rfl⟩

inductive AreBindings (bs : List Binding) : Option Value → Prop
  | list {items : List Value} (hne : items ≠ [])
      (hitems : List.Forall₂ (fun v b => Binding.WrittenAs b v) items bs) :
      AreBindings bs (some (.list items))

theorem Agent.readBindings_eq_pure_iff {bs : List Binding} :
    Agent.readBindings s = pure bs ↔ AreBindings bs (s.get? "bindings") := by
  unfold Agent.readBindings
  constructor
  · intro h
    split at h
    · rename_i item items hitems
      rw [hitems]
      exact .list (List.cons_ne_nil _ _) (Binding.readAll_eq_pure_iff.1 h)
    · exact absurd h Checked.faulty_ne_pure
  · intro h
    generalize s.get? "bindings" = v at h ⊢
    cases h with
    | @list items hne hitems =>
      obtain ⟨item, items, rfl⟩ := List.exists_cons_of_ne_nil hne
      exact Binding.readAll_eq_pure_iff.2 hitems

structure Agent.WrittenAs (a : Agent) (fs : Fields Value) : Prop where
  id : Section.filled? (Fields.get? fs "id") = some a.id
  role : ∃ r, Optional IsRole (Fields.get? fs "role") r ∧ r.getD .default = a.role
  bindings : AreBindings a.bindings (Fields.get? fs "bindings")
  workspace : Optional IsText (Fields.get? fs "workspace") a.workspace
  agentDir : Optional IsText (Fields.get? fs "agent_dir") a.agentDir
  integrations :
    ∃ r, Optional IsTexts (Fields.get? fs "integrations") r ∧ r.getD [] = a.integrations
  skills : ∃ r, Optional IsTexts (Fields.get? fs "skills") r ∧ r.getD [] = a.skills
  skillSources : Optional IsTexts (Fields.get? fs "skill_sources") a.skillSources
  model : Optional IsText (Fields.get? fs "model") a.model
  policy : Optional IsFragment (Fields.get? fs "policy") a.policy
  extra : a.extra = Fields.without fs agentKeys

theorem Agent.read_eq_pure_iff {r : Option Agent} :
    Agent.read s = pure r ↔ ∃ a, r = some a ∧ a.WrittenAs s.fields := by
  unfold Agent.read
  constructor
  · intro h
    split at h
    · exact absurd h Checked.faulty_ne_pure
    · rename_i id hid
      simp only [Checked.bind_eq_pure_iff, Role.read_eq_pure_iff, Agent.readBindings_eq_pure_iff,
        Section.optionalString_eq_pure_iff, Section.strings_eq_pure_iff,
        Section.optionalStrings_eq_pure_iff, Section.policy_eq_pure_iff,
        Checked.pure_eq_pure_iff] at h
      obtain ⟨role, hrole, bindings, hbindings, workspace, hworkspace, agentDir, hagentDir,
        integrations, hintegrations, skills, hskills, sources, hsources, model, hmodel, policy,
        hpolicy, rfl⟩ := h
      exact ⟨_, rfl, hid, hrole, hbindings, hworkspace, hagentDir, hintegrations, hskills, hsources,
        hmodel, hpolicy, rfl⟩
  · intro h
    obtain ⟨a, rfl, ha⟩ := h
    have hid : Section.filled? (s.get? "id") = some a.id := ha.id
    simp only [hid, Checked.bind_eq_pure_iff, Role.read_eq_pure_iff,
      Agent.readBindings_eq_pure_iff, Section.optionalString_eq_pure_iff,
      Section.strings_eq_pure_iff, Section.optionalStrings_eq_pure_iff,
      Section.policy_eq_pure_iff, Checked.pure_eq_pure_iff]
    refine ⟨_, ha.role, _, ha.bindings, _, ha.workspace, _, ha.agentDir, _, ha.integrations, _,
      ha.skills, _, ha.skillSources, _, ha.model, _, ha.policy, ?_⟩
    rw [Section.without, ← ha.extra]

/-- Accounts without metadata, in the order of their identifiers. -/
def accountsOf (ids : List String) : Fields Value :=
  ids.foldl (fun fs id => Fields.insertNew fs id Value.empty) []

theorem accountsOfList_eq_pure_iff {items : List Value} {accounts : Fields Value} :
    accountsOfList place items = pure accounts ↔
      ∃ ids, items = ids.map .string ∧ accountsOf ids = accounts := by
  simp only [accountsOfList, Checked.bind_eq_pure_iff, Section.texts_eq_pure_iff,
    Checked.pure_eq_pure_iff]
  rfl

/-- Accounts are given by a list of identifiers or by a mapping from them to metadata. -/
inductive AreAccounts : Value → Fields Value → Prop
  | list (ids : List String) : AreAccounts (.ofStrings ids) (accountsOf ids)
  | mapping (fs : Fields Value) : AreAccounts (.mapping fs) (sortFields fs)

inductive Channel.WrittenAs : Channel → Value → Prop
  | null : Channel.WrittenAs {} .null
  | list (ids : List String) : Channel.WrittenAs ⟨accountsOf ids, []⟩ (.ofStrings ids)
  | mapping {fs : Fields Value} {r : Option (Fields Value)}
      (haccounts : Optional AreAccounts (Fields.get? fs "accounts") r) :
      Channel.WrittenAs ⟨r.getD [], Fields.without fs ["accounts"]⟩ (.mapping fs)

def readAccounts (place : Place) (fs : Fields Value) : Checked (Fields Value) :=
  match Fields.get? fs "accounts" with
  | none | some .null => pure []
  | some (.list items) => accountsOfList (place ++ [.key "accounts"]) items
  | some (.mapping accounts) => pure (sortFields accounts)
  | some v => Checked.faulty (place ++ [.key "accounts"]) (.listOrMappingExpected v.kind) []

theorem Channel.read_mapping (fs : Fields Value) :
    Channel.read place (.mapping fs) = (do
      let accounts ← readAccounts place fs
      pure (some ⟨accounts, Fields.without fs ["accounts"]⟩)) := by
  simp only [Channel.read, readAccounts]
  generalize Fields.get? fs "accounts" = v
  cases v with
  | none => rfl
  | some v => cases v <;> rfl

theorem readAccounts_eq_pure_iff {fs accounts : Fields Value} :
    readAccounts place fs = pure accounts ↔
      ∃ r, Optional AreAccounts (Fields.get? fs "accounts") r ∧ r.getD [] = accounts := by
  unfold readAccounts
  generalize Fields.get? fs "accounts" = v
  constructor
  · intro h
    split at h
    · exact ⟨none, .absent, Checked.pure_eq_pure_iff.1 h⟩
    · exact ⟨none, .null, Checked.pure_eq_pure_iff.1 h⟩
    · obtain ⟨ids, rfl, rfl⟩ := accountsOfList_eq_pure_iff.1 h
      exact ⟨some _, .given (.list ids), rfl⟩
    · exact ⟨some _, .given (.mapping _), Checked.pure_eq_pure_iff.1 h⟩
    · exact absurd h Checked.faulty_ne_pure
  · intro h
    obtain ⟨r, hr, rfl⟩ := h
    cases hr with
    | absent | null => rfl
    | given h =>
      cases h with
      | list ids => exact accountsOfList_eq_pure_iff.2 ⟨ids, rfl, rfl⟩
      | mapping fs => rfl

theorem Channel.read_eq_pure_iff {v : Value} {r : Option Channel} :
    Channel.read place v = pure r ↔ ∃ c, r = some c ∧ c.WrittenAs v := by
  constructor
  · intro h
    cases v with
    | null => exact ⟨{}, (Checked.pure_eq_pure_iff.1 h).symm, .null⟩
    | list items =>
      simp only [Channel.read, Checked.bind_eq_pure_iff, accountsOfList_eq_pure_iff,
        Checked.pure_eq_pure_iff] at h
      obtain ⟨_, ⟨ids, rfl, rfl⟩, rfl⟩ := h
      exact ⟨_, rfl, .list ids⟩
    | mapping fs =>
      simp only [Channel.read_mapping, Checked.bind_eq_pure_iff, readAccounts_eq_pure_iff,
        Checked.pure_eq_pure_iff] at h
      obtain ⟨_, ⟨r, hr, rfl⟩, rfl⟩ := h
      exact ⟨_, rfl, .mapping hr⟩
    | bool _ | number _ | string _ => exact absurd h Checked.faulty_ne_pure
  · intro h
    obtain ⟨c, rfl, hc⟩ := h
    cases hc with
    | null => rfl
    | list ids =>
      simp only [Channel.read, Value.ofStrings, Checked.bind_eq_pure_iff,
        accountsOfList_eq_pure_iff, Checked.pure_eq_pure_iff]
      exact ⟨_, ⟨ids, rfl, rfl⟩, rfl⟩
    | mapping haccounts =>
      simp only [Channel.read_mapping, Checked.bind_eq_pure_iff, readAccounts_eq_pure_iff,
        Checked.pure_eq_pure_iff]
      exact ⟨_, ⟨_, haccounts, rfl⟩, rfl⟩

def ChannelsWrittenAs (cs : Fields Channel) (fs : Fields Value) : Prop :=
  List.Forall₂ (fun m n => m.1 = n.1 ∧ n.2.WrittenAs m.2) fs cs

theorem Channel.readAll_eq_pure_iff {fs : Fields Value} {cs : Fields Channel} :
    Channel.readAll place fs = pure cs ↔ ChannelsWrittenAs cs fs := by
  unfold ChannelsWrittenAs
  induction fs generalizing cs with
  | nil => simp [Channel.readAll, eq_comm]
  | cons m fs ih =>
    simp only [Channel.readAll, Checked.bind_eq_pure_iff, Channel.read_eq_pure_iff, ih,
      Checked.pure_eq_pure_iff, List.forall₂_cons_left_iff]
    constructor
    · intro h
      obtain ⟨_, ⟨c, rfl, hc⟩, others, hothers, rfl⟩ := h
      exact ⟨_, others, ⟨rfl, hc⟩, hothers, rfl⟩
    · intro h
      obtain ⟨⟨name, c⟩, others, ⟨rfl, hc⟩, hothers, rfl⟩ := h
      exact ⟨_, ⟨c, rfl, hc⟩, others, hothers, rfl⟩

def AreChannels (v : Value) (cs : Fields Channel) : Prop :=
  ∃ fs found, v = .mapping fs ∧ ChannelsWrittenAs found fs ∧ cs = sortFields found

theorem readChannels_eq_pure_iff {cs : Fields Channel} :
    readChannels s = pure cs ↔
      ∃ r, Optional AreChannels (s.get? "channels") r ∧ r.getD [] = cs := by
  simp only [readChannels, Checked.bind_eq_pure_iff, Section.optionalMapping_eq_pure_iff]
  generalize s.get? "channels" = v
  constructor
  · intro h
    obtain ⟨m, hm, h⟩ := h
    cases hm with
    | absent => exact ⟨none, .absent, Checked.pure_eq_pure_iff.1 h⟩
    | null => exact ⟨none, .null, Checked.pure_eq_pure_iff.1 h⟩
    | @given v fs hv =>
      simp only [Checked.bind_eq_pure_iff, Channel.readAll_eq_pure_iff,
        Checked.pure_eq_pure_iff] at h
      obtain ⟨found, hfound, rfl⟩ := h
      exact ⟨some _, .given ⟨fs, found, hv, hfound, rfl⟩, rfl⟩
  · intro h
    obtain ⟨r, hr, rfl⟩ := h
    cases hr with
    | absent => exact ⟨none, .absent, rfl⟩
    | null => exact ⟨none, .null, rfl⟩
    | given h =>
      obtain ⟨fs, found, rfl, hfound, rfl⟩ := h
      refine ⟨some fs, .given rfl, ?_⟩
      simp only [Checked.bind_eq_pure_iff, Channel.readAll_eq_pure_iff, Checked.pure_eq_pure_iff]
      exact ⟨found, hfound, rfl⟩

end GatewayFleet.Fleet
