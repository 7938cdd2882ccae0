import GatewayFleet.Proofs.Fleet.Rearrangement

/-! The written forms of records, member by member. What a record is written as depends on what
stands under the names it knows, on each of them by itself, and on the rest as a whole; only a
member that has two names is looked for under both. -/

namespace GatewayFleet.Fleet

structure Alias where
  newer : String
  older : String
  holds : Option Value → Option Value → Prop

/-- What is asked of the members of a mapping, the names that are known, and what there is beside
the known members. -/
structure Form where
  members : List (String × (Option Value → Prop))
  aliases : List Alias := []
  known : List String
  extra : Fields Value

namespace Form

variable {f : Form} {fs gs before after : Fields Value} {names : List String} {k : String}
variable {v w : Value}

structure Fits (f : Form) (fs : Fields Value) : Prop where
  members : ∀ m ∈ f.members, m.2 (Fields.get? fs m.1)
  aliases : ∀ e ∈ f.aliases, e.holds (Fields.get? fs e.newer) (Fields.get? fs e.older)
  extra : f.extra = Fields.without fs f.known

/-- The names are known, and none of them has a second one. -/
structure Plain (f : Form) (names : List String) : Prop where
  known : ∀ k ∈ names, k ∈ f.known
  aliases : ∀ e ∈ f.aliases, e.newer ∉ names ∧ e.older ∉ names

theorem fits_congr
    (hmembers : ∀ m ∈ f.members, m.2 (Fields.get? fs m.1) ↔ m.2 (Fields.get? gs m.1))
    (haliases : ∀ e ∈ f.aliases, e.holds (Fields.get? fs e.newer) (Fields.get? fs e.older) ↔
      e.holds (Fields.get? gs e.newer) (Fields.get? gs e.older))
    (hrest : Fields.without fs f.known = Fields.without gs f.known) : f.Fits fs ↔ f.Fits gs := by
  constructor
  · exact fun h => ⟨fun m hm => (hmembers m hm).1 (h.members m hm),
      fun e he => (haliases e he).1 (h.aliases e he), h.extra.trans hrest⟩
  · exact fun h => ⟨fun m hm => (hmembers m hm).2 (h.members m hm),
      fun e he => (haliases e he).2 (h.aliases e he), h.extra.trans hrest.symm⟩

theorem fits_iff (hothers : ∀ k', k ≠ k' → Fields.get? fs k' = Fields.get? gs k')
    (hrest : Fields.without fs f.known = Fields.without gs f.known) (hplain : f.Plain names)
    (hk : k ∈ names)
    (hmember : ∀ m ∈ f.members, m.1 = k → (m.2 (Fields.get? fs k) ↔ m.2 (Fields.get? gs k))) :
    f.Fits fs ↔ f.Fits gs := by
  refine fits_congr (fun m hm => ?_) (fun e he => ?_) hrest
  · by_cases hname : m.1 = k
    · rw [hname]
      exact hmember m hm hname
    · rw [hothers m.1 (Ne.symm hname)]
  · obtain ⟨hnewer, holder⟩ := hplain.aliases e he
    rw [hothers _ (ne_of_mem_of_not_mem hk hnewer), hothers _ (ne_of_mem_of_not_mem hk holder)]

theorem fits_put_iff (hget : Fields.get? fs k = some v) (hplain : f.Plain [k])
    (hmember : ∀ m ∈ f.members, m.1 = k → (m.2 (some v) ↔ m.2 (some w))) :
    f.Fits fs ↔ f.Fits (Fields.put fs k w) := by
  refine fits_iff (fun k' hk => (Fields.get?_put_of_ne fs w hk).symm)
    (without_put (hplain.known k (.head _)) w).symm hplain (.head _) ?_
  rw [hget, Fields.get?_put_self]
  exact hmember

theorem get?_append_cons_self (hbefore : ∀ m ∈ before, m.1 ≠ k) :
    Fields.get? (before ++ (k, v) :: after) k = some v := by
  rw [Fields.get?_append, Fields.get?_eq_none_iff.2 hbefore, Fields.get?_cons, if_pos rfl,
    Option.none_or]

theorem get?_append_cons_of_ne {k' : String} (hk : k ≠ k') :
    Fields.get? (before ++ (k, v) :: after) k' = Fields.get? (before ++ after) k' := by
  rw [Fields.get?_append, Fields.get?_append, Fields.get?_cons, if_neg hk]

theorem without_append_cons {known : List String} (hk : k ∈ known) :
    Fields.without (before ++ (k, v) :: after) known = Fields.without (before ++ after) known := by
  rw [Fields.without_append, Fields.without_append, Fields.without_cons, if_pos hk]

theorem fits_omit_iff (hfree : ∀ m ∈ before ++ after, m.1 ≠ k) (hplain : f.Plain names)
    (hk : k ∈ names) (hmember : ∀ m ∈ f.members, m.1 = k → (m.2 (some .null) ↔ m.2 none)) :
    f.Fits (before ++ (k, .null) :: after) ↔ f.Fits (before ++ after) := by
  refine fits_iff (fun k' hne => get?_append_cons_of_ne hne)
    (without_append_cons (hplain.known k hk)) hplain hk ?_
  rw [get?_append_cons_self fun m hm => hfree m (List.mem_append_left _ hm),
    Fields.get?_eq_none_iff.2 hfree]
  exact hmember

theorem fits_rename_iff {newer older : String} (hne : newer ≠ older)
    (hnewer : ∀ m ∈ before ++ after, m.1 ≠ newer) (holder : ∀ m ∈ before ++ after, m.1 ≠ older)
    (hknown : newer ∈ f.known ∧ older ∈ f.known)
    (hmembers : ∀ m ∈ f.members, newer ≠ m.1 ∧ older ≠ m.1)
    (haliases : ∀ e ∈ f.aliases, e.newer = newer ∧ e.older = older ∧
      (e.holds (some v) none ↔ e.holds none (some v))) :
    f.Fits (before ++ (newer, v) :: after) ↔ f.Fits (before ++ (older, v) :: after) := by
  have hself {k : String} (hk : ∀ m ∈ before ++ after, m.1 ≠ k) :
      Fields.get? (before ++ (k, v) :: after) k = some v :=
    get?_append_cons_self fun m hm => hk m (List.mem_append_left _ hm)
  have hother {k k' : String} (hk' : ∀ m ∈ before ++ after, m.1 ≠ k') (hk : k ≠ k') :
      Fields.get? (before ++ (k, v) :: after) k' = none := by
    rw [get?_append_cons_of_ne hk, Fields.get?_eq_none_iff.2 hk']
  refine fits_congr (fun m hm => ?_) (fun e he => ?_) ?_
  · rw [get?_append_cons_of_ne (hmembers m hm).1, get?_append_cons_of_ne (hmembers m hm).2]
  · obtain ⟨rfl, rfl, hholds⟩ := haliases e he
    rw [hself hnewer, hother holder hne, hself holder, hother hnewer hne.symm]
    exact hholds
  · rw [without_append_cons hknown.1, without_append_cons hknown.2]

end Form

section

variable {fs : Fields Value}

def Defaults.form (d : Defaults) : Form where
  members := [("port_stride", (Optional IsStride · d.portStride)),
    ("policy", (Optional IsFragment · d.policy))]
  known := ["port_stride", "policy"]
  extra := d.extra

theorem Defaults.writtenAs_iff {d : Defaults} : d.WrittenAs fs ↔ d.form.Fits fs := by
  constructor
  · exact fun h => ⟨by simpa [form] using ⟨h.stride, h.policy⟩, by simp [form], h.extra⟩
  · intro h
    obtain ⟨hstride, hpolicy⟩ : _ ∧ _ := by simpa [form] using h.members
    exact ⟨hstride, hpolicy, h.extra⟩

def Host.form (h : Host) : Form where
  members := [("gateway_port", (port? · = some h.gatewayPort)),
    ("bind", (Optional IsText · h.bind))]
  known := ["gateway_port", "bind"]
  extra := h.extra

theorem Host.writtenAs_iff {h : Host} : h.WrittenAs fs ↔ h.form.Fits fs := by
  constructor
  · exact fun hw => ⟨by simpa [form] using ⟨hw.port, hw.bind⟩, by simp [form], hw.extra⟩
  · intro hf
    obtain ⟨hport, hbind⟩ : _ ∧ _ := by simpa [form] using hf.members
    exact ⟨hport, hbind, hf.extra⟩

def Match.form (m : Match) : Form where
  members := [("channel", (Section.filled? · = some m.channel))]
  aliases := [⟨"accountId", "account_id",
    fun newer older => (Section.filled? newer <|> Section.filled? older) = some m.accountId⟩]
  known := matchKeys
  extra := m.extra

theorem Match.writtenAs_iff {m : Match} : m.WrittenAs fs ↔ m.form.Fits fs := by
  constructor
  · exact fun h => ⟨by simpa [form] using h.channel, by simpa [form] using h.account, h.extra⟩
  · exact fun h => ⟨by simpa [form] using h.members, by simpa [form] using h.aliases, h.extra⟩

def Binding.form (b : Binding) : Form where
  members := [("match", fun v => ∃ route, v = some (.mapping route) ∧ b.route.WrittenAs route)]
  known := ["match"]
  extra := b.extra

theorem Binding.writtenAs_iff {b : Binding} : b.WrittenAs (.mapping fs) ↔ b.form.Fits fs := by
  constructor
  · rintro ⟨hroute, hmatch, hextra⟩
    exact ⟨by simpa [form] using ⟨_, hroute, hmatch⟩, by simp [form], hextra⟩
  · intro h
    obtain ⟨route, hroute, hmatch⟩ : ∃ route, _ ∧ _ := by simpa [form] using h.members
    exact ⟨hroute, hmatch, h.extra⟩

def Agent.form (a : Agent) : Form where
  members := [("id", (Section.filled? · = some a.id)),
    ("role", fun v => ∃ r, Optional IsRole v r ∧ r.getD .default = a.role),
    ("bindings", AreBindings a.bindings),
    ("workspace", (Optional IsText · a.workspace)),
    ("agent_dir", (Optional IsText · a.agentDir)),
    ("integrations", fun v => ∃ r, Optional IsTexts v r ∧ r.getD [] = a.integrations),
    ("skills", fun v => ∃ r, Optional IsTexts v r ∧ r.getD [] = a.skills),
    ("skill_sources", (Optional IsTexts · a.skillSources)),
    ("model", (Optional IsText · a.model)),
    ("policy", (Optional IsFragment · a.policy))]
  known := agentKeys
  extra := a.extra

theorem Agent.writtenAs_iff {a : Agent} : a.WrittenAs fs ↔ a.form.Fits fs := by
  constructor
  · intro h
    refine ⟨?_, by simp [form], h.extra⟩
    simpa [form] using ⟨h.id, h.role, h.bindings, h.workspace, h.agentDir, h.integrations,
      h.skills, h.skillSources, h.model, h.policy⟩
  · intro h
    obtain ⟨hid, hrole, hbindings, hworkspace, hagentDir, hintegrations, hskills, hskillSources,
      hmodel, hpolicy⟩ : _ ∧ _ := by simpa [form] using h.members
    exact ⟨hid, hrole, hbindings, hworkspace, hagentDir, hintegrations, hskills, hskillSources,
      hmodel, hpolicy, h.extra⟩

def Channel.form (c : Channel) : Form where
  members := [("accounts", fun v => ∃ r, Optional AreAccounts v r ∧ r.getD [] = c.accounts)]
  known := ["accounts"]
  extra := c.extra

theorem Channel.writtenAs_iff {c : Channel} : c.WrittenAs (.mapping fs) ↔ c.form.Fits fs := by
  constructor
  · rintro ⟨⟩
    rename_i r haccounts
    exact ⟨by simpa [form] using ⟨r, haccounts, rfl⟩, by simp [form], rfl⟩
  · intro h
    obtain ⟨r, hr, haccounts⟩ : ∃ r, _ ∧ _ := by simpa [form] using h.members
    obtain ⟨accounts, extra⟩ := c
    obtain rfl : r.getD [] = accounts := haccounts
    obtain rfl : extra = Fields.without fs ["accounts"] := h.extra
    exact .mapping hr

def Instance.form (i : Instance) : Form where
  members := [("id", (Section.filled? · = some i.id)),
    ("host", fun v => ∃ m, v = some (.mapping m) ∧ i.host.WrittenAs m),
    ("paths", fun v => ∃ m, v = some (.mapping m) ∧ i.paths.WrittenAs m),
    ("agents", fun v => ∃ r, Optional AreAgents v r ∧ r.getD [] = i.agents),
    ("channels", fun v => ∃ r, Optional AreChannels v r ∧ r.getD [] = i.channels),
    ("policy", (Optional IsFragment · i.policy))]
  aliases := [⟨"runtime", "openclaw", fun newer older =>
    ∃ m, newer.or older = some (.mapping m) ∧ i.runtime.WrittenAs m⟩]
  known := instanceKeys
  extra := i.extra

theorem get?_runtimeKey (fs : Fields Value) (place : Place) :
    Fields.get? fs (runtimeKey ⟨fs, place⟩) =
      (Fields.get? fs "runtime").or (Fields.get? fs "openclaw") := by
  unfold runtimeKey Section.get?
  cases hnewer : Fields.get? fs "runtime" with
  | some v => simp [hnewer]
  | none => cases holder : Fields.get? fs "openclaw" <;> simp [hnewer, holder]

theorem Instance.writtenAs_iff {i : Instance} : i.WrittenAs fs ↔ i.form.Fits fs := by
  constructor
  · intro h
    have hruntime := h.runtime
    rw [get?_runtimeKey] at hruntime
    refine ⟨?_, by simpa [form] using hruntime, h.extra⟩
    simpa [form] using ⟨h.id, h.host, h.paths, h.agents, h.channels, h.policy⟩
  · intro h
    obtain ⟨hid, hhost, hpaths, hagents, hchannels, hpolicy⟩ : _ ∧ _ := by
      simpa [form] using h.members
    have hruntime : ∃ m, (Fields.get? fs "runtime").or (Fields.get? fs "openclaw") =
        some (.mapping m) ∧ i.runtime.WrittenAs m := by simpa [form] using h.aliases
    rw [← get?_runtimeKey fs []] at hruntime
    exact ⟨hid, hhost, hpaths, hruntime, hagents, hchannels, hpolicy, h.extra⟩

def Inventory.form (inv : Inventory) : Form where
  members := [("version", fun v => v.bind Value.asUnsigned? = some supportedVersion ∧
      inv.version = supportedVersion),
    ("defaults", fun v => ∃ r, Optional AreDefaults v r ∧ r.getD {} = inv.defaults),
    ("policy", (Optional IsFragment · inv.policy)),
    ("instances", AreInstances inv.instances)]
  known := rootKeys
  extra := inv.extra

theorem Inventory.writtenAs_iff {inv : Inventory} : inv.WrittenAs fs ↔ inv.form.Fits fs := by
  constructor
  · intro h
    refine ⟨?_, by simp [form], h.extra⟩
    simpa [form] using ⟨⟨h.supported, h.version⟩, h.defaults, h.policy, h.instances⟩
  · intro h
    obtain ⟨⟨hsupported, hversion⟩, hdefaults, hpolicy, hinstances⟩ : (_ ∧ _) ∧ _ := by
      simpa [form] using h.members
    exact ⟨hsupported, hversion, hdefaults, hpolicy, hinstances, h.extra⟩

end

end GatewayFleet.Fleet
