import GatewayFleet.Proofs.Fleet.Alteration

/-! What pruning takes away. An account counts as bound when the text that joins its channel and its
name is that of a binding. The joined text does not tell where the channel ends, so an account that
nobody is bound to is kept when a binding of another channel reads the same. -/

namespace GatewayFleet.Fleet

variable {i j s : Instance} {op : Operation} {channel account : String}

def Instance.Binds (i : Instance) (channel account : String) : Prop :=
  ∃ a ∈ i.agents, ∃ b ∈ a.bindings, b.channel = channel ∧ b.account = account

def Instance.Registers (i : Instance) (channel account : String) : Prop :=
  (i.account? channel account).isSome

/-- Some agent has a binding that reads like the account of the channel. -/
def Instance.Echoes (i : Instance) (channel account : String) : Prop :=
  ∃ channel' account', i.Binds channel' account' ∧
    channel' ++ ":" ++ account' = channel ++ ":" ++ account

instance : Decidable (i.Binds channel account) :=
  inferInstanceAs (Decidable (∃ a ∈ i.agents, ∃ b ∈ a.bindings, _ ∧ _))

instance : Decidable (i.Registers channel account) :=
  inferInstanceAs (Decidable (_ = true))

theorem Instance.mem_boundKeys_iff :
    accountKey channel account ∈ i.boundKeys ↔ i.Echoes channel account := by
  simp only [boundKeys, bindings, List.mem_map, List.mem_flatMap]
  constructor
  · rintro ⟨b, ⟨a, ha, hb⟩, hkey⟩
    exact ⟨b.channel, b.account, ⟨a, ha, b, hb, rfl, rfl⟩, hkey⟩
  · rintro ⟨_, _, ⟨a, ha, b, hb, rfl, rfl⟩, hkey⟩
    exact ⟨b, ⟨a, ha, hb⟩, hkey⟩

theorem Instance.Binds.echoes (h : i.Binds channel account) : i.Echoes channel account :=
  ⟨channel, account, h, rfl⟩

/-- The accounts that are left are those that were registered and are bound. Their metadata and all
that their channels hold otherwise are the same, and pruning again takes nothing away. -/
structure Instance.PrunedTo (bound : String → String → Prop) (s j : Instance) : Prop where
  accounts : ∀ channel account,
    j.Registers channel account ↔ s.Registers channel account ∧ bound channel account
  metadata : ∀ channel account, j.Registers channel account →
    j.account? channel account = s.account? channel account
  channels : Fields.keys j.channels = Fields.keys s.channels
  extra : ∀ name, j.channelExtra name = s.channelExtra name
  again : j.prune = j ∧ j.prunedCount = 0

def Operation.Prunes : Operation → Prop
  | .prune => True
  | .remove _ pruned => pruned = true
  | .add _ | .register _ _ => False

theorem Instance.prune_prune (i : Instance) : i.prune.prune = i.prune := by
  have hkeep (used : List String) (name : String) (c : Channel) :
      (c.keep used name).keep used name = c.keep used name := by
    simp [Channel.keep, List.filter_filter]
  have hkeys : i.prune.boundKeys = i.boundKeys := rfl
  rw [prune, hkeys]
  simp only [prune, List.map_map, Function.comp_def, hkeep]

theorem Instance.keys_prune (i : Instance) :
    Fields.keys i.prune.channels = Fields.keys i.channels := by
  simp [prune, Fields.keys, Function.comp_def]

theorem Instance.prunedTo_echoes (i : Instance) :
    i.PrunedTo i.prune.Echoes i.prune where
  accounts := by
    intro channel account
    have hechoes : i.prune.Echoes channel account ↔ i.Echoes channel account := Iff.rfl
    rw [hechoes, ← mem_boundKeys_iff, Registers, Registers, account?_prune]
    by_cases hbound : accountKey channel account ∈ i.boundKeys
    · simp [hbound]
    · simp [hbound]
  metadata := by
    intro channel account hregistered
    rw [Registers, account?_prune] at hregistered
    rw [account?_prune]
    by_cases hbound : accountKey channel account ∈ i.boundKeys
    · rw [if_pos hbound]
    · rw [if_neg hbound] at hregistered
      cases hregistered
  channels := i.keys_prune
  extra := i.tended_prune.extra
  again := ⟨i.prune_prune, by rw [prunedCount, i.prune_prune, Nat.sub_self]⟩

theorem Operation.Prunes.prunedTo_echoes (h : op.Prunes) (hop : op.apply s = .ok j) :
    s.PrunedTo j.Echoes j := by
  cases Operation.apply_eq_ok_iff.1 hop with
  | add | register => cases h
  | @remove id a hfind pruned =>
    obtain rfl : pruned = true := h
    -- dismissing an agent leaves the channels as they are
    exact { (s.dismiss id).prunedTo_echoes with }
  | prune => exact s.prunedTo_echoes

theorem Instance.PrunedTo.binds_iff (h : s.PrunedTo j.Echoes j) :
    s.PrunedTo j.Binds j ↔ ∀ channel account, s.Registers channel account →
      j.Echoes channel account → j.Binds channel account := by
  constructor
  · intro hpruned channel account hregistered hechoes
    have hleft := (h.accounts channel account).2 ⟨hregistered, hechoes⟩
    exact ((hpruned.accounts channel account).1 hleft).2
  · intro hbound
    refine ⟨fun channel account => ?_, h.metadata, h.channels, h.extra, h.again⟩
    rw [h.accounts]
    constructor
    · exact fun hleft => ⟨hleft.1, hbound channel account hleft.1 hleft.2⟩
    · exact fun hleft => ⟨hleft.1, hleft.2.echoes⟩

theorem Instance.binds_of_echoes (hregistered : ∀ name ∈ Fields.keys s.channels, ':' ∉ name.toList)
    (hbound : ∀ a ∈ j.agents, ∀ b ∈ a.bindings, ':' ∉ b.channel.toList)
    (h : s.Registers channel account) (hechoes : j.Echoes channel account) :
    j.Binds channel account := by
  obtain ⟨channel', account', ⟨a, ha, b, hb, rfl, rfl⟩, hkey⟩ := hechoes
  have hname : channel ∈ Fields.keys s.channels := by
    obtain ⟨info, hinfo⟩ := Option.isSome_iff_exists.1 h
    obtain ⟨c, hc, -⟩ := Option.bind_eq_some_iff.1 hinfo
    exact List.mem_map_of_mem (Fields.mem_of_get? hc)
  obtain ⟨rfl, rfl⟩ := eq_of_accountKey hkey (hbound a ha b hb) (hregistered channel hname)
  exact ⟨a, ha, b, hb, rfl, rfl⟩

/-- Whatever operation prunes an instance, it goes by the joined texts. It leaves exactly the
accounts that are bound if and only if no account that is registered reads like a binding without
being bound, which is so where no channel has a colon in its name. -/
theorem pruned_by_text (hprunes : op.Prunes) (hop : op.apply s = .ok j) :
    s.PrunedTo j.Echoes j ∧
    (s.PrunedTo j.Binds j ↔ ∀ channel account, s.Registers channel account →
      j.Echoes channel account → j.Binds channel account) ∧
    ((∀ name ∈ Fields.keys s.channels, ':' ∉ name.toList) →
      (∀ a ∈ j.agents, ∀ b ∈ a.bindings, ':' ∉ b.channel.toList) → s.PrunedTo j.Binds j) := by
  have hpruned := hprunes.prunedTo_echoes hop
  refine ⟨hpruned, hpruned.binds_iff, fun hregistered hbound => ?_⟩
  exact hpruned.binds_iff.2 fun channel account => Instance.binds_of_echoes hregistered hbound

/-- An instance where an account that nobody is bound to, `ops` of the channel `irc:eu`, reads like
the account `eu:ops` of the channel `irc`. -/
def knotEast : Instance := { pairEast with
  agents := [{ pairBob with bindings := [Binding.of "irc" "eu:ops"], model := some "acme/two" }]
  channels := [("irc:eu", { accounts := [("ops", .empty), ("spare", .empty)] })] }

def knotFleet : Inventory := { pairFleet with instances := [knotEast] }

theorem ofValue?_knot : Inventory.ofValue? pairTree pairDir knotFleet.toValue = .ok knotFleet := by
  rfl

theorem pruned_by_text_knot :
    ∃ j, Operation.prune.apply knotEast = .ok j ∧ knotEast.PrunedTo j.Echoes j ∧
      j.Registers "irc:eu" "ops" ∧ ¬ j.Registers "irc:eu" "spare" ∧
      ¬ knotEast.PrunedTo j.Binds j := by
  have hprune : Operation.prune.apply knotEast = .ok knotEast.prune := rfl
  have hprunes : Operation.prune.Prunes := trivial
  obtain ⟨hpruned, hiff, -⟩ := pruned_by_text hprunes hprune
  refine ⟨_, hprune, hpruned, by decide, by decide, fun hexact => ?_⟩
  have hbinds := hiff.1 hexact "irc:eu" "ops" (by decide) ⟨"irc", "eu:ops", by decide, rfl⟩
  exact absurd hbinds (by decide)

theorem not_prunedTo_binds_knot :
    Inventory.ofValue? pairTree pairDir knotFleet.toValue = .ok knotFleet ∧
    knotEast ∈ knotFleet.instances ∧
    ¬ ∀ j, Operation.prune.apply (knotEast.afterAll []) = .ok j →
      knotEast.PrunedTo j.Binds j := by
  refine ⟨ofValue?_knot, .head _, fun hexact => ?_⟩
  have hbinds := (((hexact _ rfl).accounts "irc:eu" "ops").1 (by decide)).2
  exact absurd hbinds (by decide)

end GatewayFleet.Fleet
