import Mathlib.Data.List.Pairwise
import GatewayFleet.Fleet.Admission
import GatewayFleet.Fleet.Document
import GatewayFleet.Proofs.Fleet.WrittenForm

/-! When a document is admitted. Admission asks three things that have nothing to do with each
other: that the document is a written form of the inventory, that every layer is a file, and that
no two instances, and no two agents of an instance, collide. What the one pass has taken so far is
always what the records before it claim, so the pass finds every pair that collides. -/

namespace GatewayFleet.Fleet

variable {s : Section} {place : Place} {tree : Tree} {dir : Path} {stride : Nat}

def Agent.bindingKeys (a : Agent) : List String := a.bindings.map Binding.key

structure Agent.Apart (a b : Agent) : Prop where
  ids : a.id ≠ b.id
  workspaces : a.workspaceName ≠ b.workspaceName
  agentDirs : a.agentDirName ≠ b.agentDirName
  bindings : a.bindingKeys.Disjoint b.bindingKeys

structure Instance.CollisionFree (i : Instance) : Prop where
  agents : i.agents.Pairwise Agent.Apart
  bindings : ∀ a ∈ i.agents, a.bindingKeys.Nodup

def Seats.of (before : List Agent) : Seats where
  ids := before.map (·.id)
  workspaces := before.map (·.workspaceName)
  agentDirs := before.map (·.agentDirName)
  bindings := before.flatMap (·.bindingKeys)

theorem Seats.of_concat (before : List Agent) (a : Agent) :
    Seats.of (before ++ [a]) = ⟨(Seats.of before).ids ++ [a.id],
      (Seats.of before).workspaces ++ [a.workspaceName],
      (Seats.of before).agentDirs ++ [a.agentDirName],
      (Seats.of before).bindings ++ a.bindingKeys⟩ := by
  simp [Seats.of]

theorem claimName_eq_pure_iff {issue : String → Issue} {taken taken' : List String}
    {name : String} :
    claimName issue taken name = pure taken' ↔ name ∉ taken ∧ taken' = taken ++ [name] := by
  unfold claimName
  by_cases h : name ∈ taken
  · simp [h, Checked.mk_eq_pure_iff]
  · simp [h, eq_comm]

theorem claimNames_eq_pure_iff {issue : String → Issue} {names taken taken' : List String} :
    names.foldlM (claimName issue) taken = pure taken' ↔
      (names.Nodup ∧ taken.Disjoint names) ∧ taken' = taken ++ names := by
  induction names generalizing taken with
  | nil => simp [eq_comm]
  | cons name names ih =>
    simp only [List.foldlM_cons, Checked.bind_eq_pure_iff, claimName_eq_pure_iff, ih,
      List.nodup_cons, List.disjoint_cons_right]
    constructor
    · intro h
      obtain ⟨_, ⟨hname, rfl⟩, ⟨hnodup, hdisjoint⟩, rfl⟩ := h
      obtain ⟨hold, hnew⟩ := List.disjoint_append_left.1 hdisjoint
      exact ⟨⟨⟨List.singleton_disjoint.1 hnew, hnodup⟩, hname, hold⟩, List.append_assoc ..⟩
    · intro h
      obtain ⟨⟨⟨hfresh, hnodup⟩, hname, hold⟩, rfl⟩ := h
      refine ⟨_, ⟨hname, rfl⟩, ⟨hnodup, ?_⟩, List.append_cons ..⟩
      exact List.disjoint_append_left.2 ⟨hold, List.singleton_disjoint.2 hfresh⟩

theorem Seats.claim_eq_pure_iff {before : List Agent} {a : Agent} {seats : Seats}
    (hid : a.id ∉ (Seats.of before).ids) :
    (Seats.of before).claim a = pure seats ↔
      (a.bindingKeys.Nodup ∧ ∀ b ∈ before, b.Apart a) ∧ seats = Seats.of (before ++ [a]) := by
  simp only [Seats.claim, Checked.bind_eq_pure_iff, claimName_eq_pure_iff,
    claimNames_eq_pure_iff, Checked.pure_eq_pure_iff, Seats.of_concat]
  constructor
  · intro h
    obtain ⟨_, ⟨hworkspace, rfl⟩, _, ⟨hagentDir, rfl⟩, _, ⟨⟨hnodup, hbindings⟩, rfl⟩, rfl⟩ := h
    refine ⟨⟨hnodup, fun b hb => ⟨?_, ?_, ?_, ?_⟩⟩, rfl⟩
    · exact fun heq => hid (heq ▸ List.mem_map_of_mem hb)
    · exact fun heq => hworkspace (heq ▸ List.mem_map_of_mem hb)
    · exact fun heq => hagentDir (heq ▸ List.mem_map_of_mem hb)
    · exact fun k hk => hbindings (List.mem_flatMap.2 ⟨b, hb, hk⟩)
  · intro h
    obtain ⟨⟨hnodup, hapart⟩, rfl⟩ := h
    refine ⟨_, ⟨?_, rfl⟩, _, ⟨?_, rfl⟩, _, ⟨⟨hnodup, ?_⟩, rfl⟩, rfl⟩
    · intro hmem
      obtain ⟨b, hb, heq⟩ := List.mem_map.1 hmem
      exact (hapart b hb).workspaces heq
    · intro hmem
      obtain ⟨b, hb, heq⟩ := List.mem_map.1 hmem
      exact (hapart b hb).agentDirs heq
    · intro k hk
      obtain ⟨b, hb, hk⟩ := List.mem_flatMap.1 hk
      exact (hapart b hb).bindings hk

def IsAgent (v : Value) (a : Agent) : Prop := ∃ fs, v = .mapping fs ∧ a.WrittenAs fs

theorem Agent.readAll_cons_eq_pure_iff {i : Nat} {before : List Agent} {fs : Fields Value}
    {items : List Value} {agents : List Agent} :
    Agent.readAll place i (Seats.of before) (.mapping fs :: items) = pure agents ↔
      ∃ a others, a.WrittenAs fs ∧ (a.bindingKeys.Nodup ∧ ∀ b ∈ before, b.Apart a) ∧
        Agent.readAll place (i + 1) (Seats.of (before ++ [a])) items = pure others ∧
        agents = a :: others := by
  simp only [Agent.readAll, Checked.bind_eq_pure_iff, Agent.read_eq_pure_iff]
  constructor
  · intro h
    obtain ⟨_, ⟨a, rfl, ha⟩, h⟩ := h
    simp only at h
    split at h
    · simp at h
    · rename_i hid
      simp only [Checked.bind_eq_pure_iff, Seats.claim_eq_pure_iff hid,
        Checked.pure_eq_pure_iff] at h
      obtain ⟨_, ⟨hfree, rfl⟩, others, hothers, rfl⟩ := h
      exact ⟨a, others, ha, hfree, hothers, rfl⟩
  · intro h
    obtain ⟨a, others, ha, hfree, hothers, rfl⟩ := h
    have hid : a.id ∉ (Seats.of before).ids := by
      intro hmem
      obtain ⟨b, hb, heq⟩ := List.mem_map.1 hmem
      exact (hfree.2 b hb).ids heq
    refine ⟨_, ⟨a, rfl, ha⟩, ?_⟩
    simp only [hid, if_false, Checked.bind_eq_pure_iff, Seats.claim_eq_pure_iff hid,
      Checked.pure_eq_pure_iff]
    exact ⟨_, ⟨hfree, rfl⟩, others, hothers, rfl⟩

/-- The agents found are those that are written, and they and the agents before them are told
apart. -/
theorem Agent.readAll_eq_pure_iff {i : Nat} {before : List Agent} {items : List Value}
    {agents : List Agent} (hbefore : before.Pairwise Agent.Apart) :
    Agent.readAll place i (Seats.of before) items = pure agents ↔
      List.Forall₂ IsAgent items agents ∧ (before ++ agents).Pairwise Agent.Apart ∧
        ∀ a ∈ agents, a.bindingKeys.Nodup := by
  -- every agent that is read moves over to those before, with which the seats stay in step
  induction items generalizing i before agents with
  | nil =>
    simp only [Agent.readAll, Checked.pure_eq_pure_iff, List.forall₂_nil_left_iff]
    constructor
    · rintro rfl
      simpa using hbefore
    · exact fun h => h.1.symm
  | cons item items ih =>
    cases item with
    | mapping fs =>
      rw [Agent.readAll_cons_eq_pure_iff]
      constructor
      · intro h
        obtain ⟨a, others, ha, ⟨hnodup, hapart⟩, hothers, rfl⟩ := h
        have hnext : (before ++ [a]).Pairwise Agent.Apart := by
          simpa [List.pairwise_append, hbefore] using hapart
        obtain ⟨hwritten, hpairwise, hall⟩ := (ih hnext).1 hothers
        exact ⟨.cons ⟨fs, rfl, ha⟩ hwritten, by simpa using hpairwise,
          List.forall_mem_cons.2 ⟨hnodup, hall⟩⟩
      · intro h
        obtain ⟨hwritten, hpairwise, hall⟩ := h
        cases hwritten with
        | @cons _ a _ others ha hwritten =>
          obtain ⟨_, hfs, ha⟩ := ha
          cases hfs
          obtain ⟨hnodup, hall⟩ := List.forall_mem_cons.1 hall
          rw [List.append_cons] at hpairwise
          have hnext := (List.pairwise_append.1 hpairwise).1
          have hapart := (List.pairwise_append.1 hnext).2.2
          exact ⟨a, others, ha, ⟨hnodup, fun b hb => hapart b hb a (List.mem_singleton_self a)⟩,
            (ih hnext).2 ⟨hwritten, hpairwise, hall⟩, rfl⟩
    | null | bool _ | number _ | string _ | list _ =>
      simp [Agent.readAll, List.forall₂_cons_left_iff, IsAgent]

def AreAgents (v : Value) (agents : List Agent) : Prop :=
  ∃ items, v = .list items ∧ List.Forall₂ IsAgent items agents

theorem readAgents_eq_pure_iff {agents : List Agent} :
    readAgents s = pure agents ↔
      (∃ r, Optional AreAgents (s.get? "agents") r ∧ r.getD [] = agents) ∧
        agents.Pairwise Agent.Apart ∧ ∀ a ∈ agents, a.bindingKeys.Nodup := by
  have hreadAll (items : List Value) :
      Agent.readAll (s.at_ "agents") 0 (Seats.of []) items = pure agents ↔ _ :=
    Agent.readAll_eq_pure_iff .nil
  unfold readAgents
  generalize s.get? "agents" = v
  constructor
  · intro h
    split at h
    · obtain rfl := Checked.pure_eq_pure_iff.1 h
      exact ⟨⟨none, .absent, rfl⟩, .nil, List.forall_mem_nil _⟩
    · obtain rfl := Checked.pure_eq_pure_iff.1 h
      exact ⟨⟨none, .null, rfl⟩, .nil, List.forall_mem_nil _⟩
    · rename_i items
      obtain ⟨hwritten, hfree⟩ := (hreadAll items).1 h
      exact ⟨⟨some agents, .given ⟨items, rfl, hwritten⟩, rfl⟩, hfree⟩
    · exact absurd h Checked.faulty_ne_pure
  · intro h
    obtain ⟨⟨r, hr, rfl⟩, hfree⟩ := h
    cases hr with
    | absent | null => rfl
    | given h =>
      obtain ⟨items, rfl, hwritten⟩ := h
      exact (hreadAll items).2 ⟨hwritten, hfree⟩

def Instance.range (stride : Nat) (i : Instance) : PortRange := .of i.id i.host.gatewayPort stride

def Instance.pathClaim (dir : Path) (i : Instance) (role : PathRole) : PathClaim :=
  ⟨role, i.paths.locate dir role, i.id⟩

structure Instance.Apart (dir : Path) (stride : Nat) (i j : Instance) : Prop where
  ids : i.id ≠ j.id
  ports : ¬ (j.range stride).Meets (i.range stride)
  paths : ∀ role, i.paths.locate dir role ≠ j.paths.locate dir role

def Instance.LayersPresent (tree : Tree) (dir : Path) (i : Instance) : Prop :=
  ∀ layer ∈ i.runtime.configLayers, tree.isFile (dir.resolve (.ofString layer)) = true

def Claims.of (dir : Path) (stride : Nat) (before : List Instance) : Claims where
  ids := before.map (·.id)
  ports := before.map (·.range stride)
  paths := before.flatMap fun i => PathRole.all.map (i.pathClaim dir)

theorem Claims.of_concat (dir : Path) (stride : Nat) (before : List Instance) (i : Instance) :
    Claims.of dir stride (before ++ [i]) = ⟨(Claims.of dir stride before).ids ++ [i.id],
      (Claims.of dir stride before).ports ++ [i.range stride],
      (Claims.of dir stride before).paths ++ PathRole.all.map (i.pathClaim dir)⟩ := by
  simp [Claims.of]

theorem PathRole.mem_all (role : PathRole) : role ∈ PathRole.all := by
  cases role <;> decide

theorem claimPorts_eq_pure_iff {taken taken' : List PortRange} {range : PortRange} :
    claimPorts taken range = pure taken' ↔
      (∀ r ∈ taken, ¬ range.Meets r) ∧ taken' = taken ++ [range] := by
  simp only [claimPorts, Checked.mk_eq_pure_iff, List.map_eq_nil_iff, List.filter_eq_nil_iff,
    decide_eq_true_eq]
  exact and_congr_right fun _ => eq_comm

theorem claimPath_eq_pure_iff {id text : String} {raw : Fields Value}
    {taken taken' : List PathClaim} {role : PathRole}
    (htext : Section.filled? (Fields.get? raw role.key) = some text) :
    claimPath dir id raw taken role = pure taken' ↔
      (∀ c ∈ taken, ¬ (c.role = role ∧ c.location = dir.resolve (.ofString text))) ∧
        taken' = taken ++ [⟨role, dir.resolve (.ofString text), id⟩] := by
  simp only [claimPath, htext]
  cases hfind : PathClaim.find? taken role (dir.resolve (.ofString text)) with
  | none =>
    have hfree := List.find?_eq_none.1 hfind
    simp only [decide_eq_true_eq] at hfree
    simp only [Checked.pure_eq_pure_iff]
    exact ⟨fun h => ⟨hfree, h.symm⟩, fun h => h.2.symm⟩
  | some c =>
    have hc := List.find?_some hfind
    simp only [decide_eq_true_eq] at hc
    simp only [Checked.mk_eq_pure_iff, List.cons_ne_nil, false_and, false_iff, not_and]
    exact fun hfree => (hfree c (List.mem_of_find?_eq_some hfind) hc.1 hc.2).elim

theorem claimRoles_eq_pure_iff {p : RolePaths} {id : String} {raw : Fields Value}
    {roles : List PathRole} {taken taken' : List PathClaim} (hraw : p.WrittenAs raw)
    (hroles : roles.Nodup) :
    roles.foldlM (claimPath dir id raw) taken = pure taken' ↔
      (∀ role ∈ roles, ∀ c ∈ taken, ¬ (c.role = role ∧ c.location = p.locate dir role)) ∧
        taken' = taken ++ roles.map fun role => ⟨role, p.locate dir role, id⟩ := by
  induction roles generalizing taken with
  | nil => simp [eq_comm]
  | cons role roles ih =>
    obtain ⟨hrole, hroles⟩ := List.nodup_cons.1 hroles
    simp only [List.foldlM_cons, Checked.bind_eq_pure_iff, claimPath_eq_pure_iff (hraw.texts role),
      ih hroles, List.forall_mem_cons]
    constructor
    · intro h
      obtain ⟨_, ⟨hfree, rfl⟩, hrest, rfl⟩ := h
      refine ⟨⟨hfree, fun r hr c hc => hrest r hr c (List.mem_append_left _ hc)⟩, ?_⟩
      exact (List.append_cons ..).symm
    · intro h
      obtain ⟨⟨hfree, hrest⟩, rfl⟩ := h
      refine ⟨_, ⟨hfree, rfl⟩, fun r hr c hc => ?_, List.append_cons ..⟩
      rcases List.mem_append.1 hc with hc | hc
      · exact hrest r hr c hc
      · rw [List.mem_singleton.1 hc]
        rintro ⟨rfl, -⟩
        exact hrole hr

theorem claimPaths_eq_pure_iff {p : RolePaths} {id : String} {raw : Fields Value}
    {taken taken' : List PathClaim} (hraw : p.WrittenAs raw) :
    claimPaths dir id raw taken = pure taken' ↔
      (∀ role, ∀ c ∈ taken, ¬ (c.role = role ∧ c.location = p.locate dir role)) ∧
        taken' = taken ++ PathRole.all.map fun role => ⟨role, p.locate dir role, id⟩ := by
  rw [claimPaths, claimRoles_eq_pure_iff hraw (by decide)]
  exact and_congr_left fun _ => ⟨fun h role => h role role.mem_all, fun h role _ => h role⟩

theorem missingLayers_eq_nil_iff {id : String} {layers : List String} :
    missingLayers tree dir id layers = [] ↔
      ∀ layer ∈ layers, tree.isFile (dir.resolve (.ofString layer)) = true := by
  simp [missingLayers, List.filter_eq_nil_iff]

structure Instance.WrittenAs (i : Instance) (fs : Fields Value) : Prop where
  id : Section.filled? (Fields.get? fs "id") = some i.id
  host : ∃ m, Fields.get? fs "host" = some (.mapping m) ∧ i.host.WrittenAs m
  paths : ∃ m, Fields.get? fs "paths" = some (.mapping m) ∧ i.paths.WrittenAs m
  runtime : ∃ m, Fields.get? fs (runtimeKey ⟨fs, []⟩) = some (.mapping m) ∧ i.runtime.WrittenAs m
  agents : ∃ r, Optional AreAgents (Fields.get? fs "agents") r ∧ r.getD [] = i.agents
  channels : ∃ r, Optional AreChannels (Fields.get? fs "channels") r ∧ r.getD [] = i.channels
  policy : Optional IsFragment (Fields.get? fs "policy") i.policy
  extra : i.extra = Fields.without fs instanceKeys

/-- What is free for an instance when some instances before it have made their claims. -/
structure Claims.Free (claims : Claims) (dir : Path) (stride : Nat) (i : Instance) : Prop where
  ports : ∀ r ∈ claims.ports, ¬ (i.range stride).Meets r
  paths : ∀ role, ∀ c ∈ claims.paths, ¬ (c.role = role ∧ c.location = i.paths.locate dir role)

theorem Instance.read_eq_pure_iff {id : String} {claims : Claims}
    {out : Option Instance × Claims} (hid : Section.filled? (s.get? "id") = some id) :
    Instance.read tree dir stride id s claims = pure out ↔
      ∃ i : Instance, (i.WrittenAs s.fields ∧ i.LayersPresent tree dir ∧ i.CollisionFree) ∧
        claims.Free dir stride i ∧
        out = (some i, ⟨claims.ids, claims.ports ++ [i.range stride],
          claims.paths ++ PathRole.all.map (i.pathClaim dir)⟩) := by
  simp only [Instance.read, Checked.bind_eq_pure_iff, Section.mapping_eq_pure_iff]
  constructor
  · intro h
    obtain ⟨_, ⟨hostFields, rfl, hhostFields⟩, h⟩ := h
    simp only [Checked.bind_eq_pure_iff, Host.read_eq_pure_iff] at h
    obtain ⟨_, ⟨host, rfl, hhost⟩, h⟩ := h
    simp only [Checked.bind_eq_pure_iff, claimPorts_eq_pure_iff, Section.mapping_eq_pure_iff] at h
    obtain ⟨_, ⟨hports, rfl⟩, _, ⟨pathFields, rfl, hpathFields⟩, h⟩ := h
    simp only [Checked.bind_eq_pure_iff, RolePaths.read_eq_pure_iff] at h
    obtain ⟨_, hclaims, _, ⟨paths, rfl, hpaths⟩, h⟩ := h
    obtain ⟨hpathsFree, rfl⟩ := (claimPaths_eq_pure_iff hpaths).1 hclaims
    simp only [RuntimeBlock.read_eq_pure_iff] at h
    obtain ⟨_, ⟨runtime, runtimeFields, rfl, hruntimeFields, hruntime⟩, h⟩ := h
    simp only [Checked.mk_eq_pure_iff, missingLayers_eq_nil_iff,
      readAgents_eq_pure_iff, readChannels_eq_pure_iff, Section.policy_eq_pure_iff,
      Checked.pure_eq_pure_iff] at h
    obtain ⟨_, ⟨hlayers, -⟩, agents, ⟨hagents, hapart, hbindings⟩, channels, hchannels, policy,
      hpolicy, rfl⟩ := h
    exact ⟨⟨id, host, paths, runtime, agents, channels, policy, s.without instanceKeys⟩,
      ⟨⟨hid, ⟨_, hhostFields, hhost⟩, ⟨_, hpathFields, hpaths⟩,
        ⟨_, hruntimeFields, hruntime⟩, hagents, hchannels, hpolicy, rfl⟩, hlayers,
        ⟨hapart, hbindings⟩⟩,
      ⟨hports, hpathsFree⟩, rfl⟩
  · intro h
    obtain ⟨i, ⟨hi, hlayers, hcollision⟩, hfree, rfl⟩ := h
    obtain rfl : id = i.id := Option.some.inj (hid.symm.trans hi.id)
    obtain ⟨hostFields, hhostFields, hhost⟩ := hi.host
    obtain ⟨pathFields, hpathFields, hpaths⟩ := hi.paths
    obtain ⟨runtimeFields, hruntimeFields, hruntime⟩ := hi.runtime
    refine ⟨_, ⟨_, rfl, hhostFields⟩, ?_⟩
    simp only [Checked.bind_eq_pure_iff, Host.read_eq_pure_iff]
    refine ⟨_, ⟨_, rfl, hhost⟩, ?_⟩
    simp only [Checked.bind_eq_pure_iff, claimPorts_eq_pure_iff, Section.mapping_eq_pure_iff]
    refine ⟨_, ⟨hfree.ports, rfl⟩, _, ⟨_, rfl, hpathFields⟩, ?_⟩
    simp only [Checked.bind_eq_pure_iff, RolePaths.read_eq_pure_iff, claimPaths_eq_pure_iff hpaths,
      RuntimeBlock.read_eq_pure_iff, Checked.mk_eq_pure_iff, missingLayers_eq_nil_iff,
      readAgents_eq_pure_iff, readChannels_eq_pure_iff, Section.policy_eq_pure_iff,
      Checked.pure_eq_pure_iff]
    refine ⟨_, ⟨hfree.paths, rfl⟩, _, ⟨_, rfl, hpaths⟩, _, ⟨_, _, rfl, hruntimeFields, hruntime⟩,
      (), ⟨hlayers, trivial⟩, _, ⟨hi.agents, hcollision.agents, hcollision.bindings⟩, _,
      hi.channels, _, hi.policy, ?_⟩
    rw [Section.without, ← hi.extra]
    rfl

theorem Claims.of_free_iff {before : List Instance} {i : Instance}
    (hid : i.id ∉ (Claims.of dir stride before).ids) :
    (Claims.of dir stride before).Free dir stride i ↔ ∀ b ∈ before, b.Apart dir stride i := by
  constructor
  · intro h b hb
    refine ⟨fun heq => hid (heq ▸ List.mem_map_of_mem hb),
      h.ports _ (List.mem_map_of_mem hb), fun role heq => ?_⟩
    have hmem := List.mem_map_of_mem (f := b.pathClaim dir) role.mem_all
    exact h.paths role _ (List.mem_flatMap.2 ⟨b, hb, hmem⟩) ⟨rfl, heq⟩
  · intro h
    constructor
    · intro r hr
      obtain ⟨b, hb, rfl⟩ := List.mem_map.1 hr
      exact (h b hb).ports
    · intro role c hc
      obtain ⟨b, hb, hc⟩ := List.mem_flatMap.1 hc
      obtain ⟨role', -, rfl⟩ := List.mem_map.1 hc
      rintro ⟨rfl, heq⟩
      exact (h b hb).paths _ heq

def IsInstance (v : Value) (i : Instance) : Prop := ∃ fs, v = .mapping fs ∧ i.WrittenAs fs

theorem Instance.readAll_cons_eq_pure_iff {n : Nat} {before : List Instance} {fs : Fields Value}
    {items : List Value} {instances : List Instance} :
    Instance.readAll tree dir stride n (Claims.of dir stride before) (.mapping fs :: items) =
        pure instances ↔
      ∃ i others, (i.WrittenAs fs ∧ i.LayersPresent tree dir ∧ i.CollisionFree) ∧
        (∀ b ∈ before, b.Apart dir stride i) ∧
        Instance.readAll tree dir stride (n + 1) (Claims.of dir stride (before ++ [i])) items =
          pure others ∧
        instances = i :: others := by
  simp only [Instance.readAll]
  constructor
  · intro h
    split at h
    · simp at h
    · rename_i id hid
      split at h
      · simp at h
      · rename_i hfresh
        simp only [Checked.bind_eq_pure_iff, Instance.read_eq_pure_iff hid] at h
        obtain ⟨_, ⟨i, hi, hfree, rfl⟩, h⟩ := h
        obtain rfl : id = i.id := Option.some.inj (hid.symm.trans hi.1.id)
        have hclaims := (Claims.of_concat dir stride before i).symm
        simp only [hclaims, Checked.pure_eq_pure_iff] at h
        obtain ⟨others, hothers, rfl⟩ := h
        exact ⟨i, others, hi, (Claims.of_free_iff hfresh).1 ⟨hfree.ports, hfree.paths⟩, hothers,
          rfl⟩
  · intro h
    obtain ⟨i, others, hi, hapart, hothers, rfl⟩ := h
    have hid : Section.filled? (Section.get? ⟨fs, [.key "instances", .index n]⟩ "id") =
      some i.id := hi.1.id
    have hfresh : i.id ∉ (Claims.of dir stride before).ids := by
      intro hmem
      obtain ⟨b, hb, heq⟩ := List.mem_map.1 hmem
      exact (hapart b hb).ids heq
    have hfree := (Claims.of_free_iff hfresh).2 hapart
    simp only [hid, hfresh, if_false, Checked.bind_eq_pure_iff, Instance.read_eq_pure_iff hid]
    refine ⟨_, ⟨i, hi, ⟨hfree.ports, hfree.paths⟩, rfl⟩, ?_⟩
    have hclaims := (Claims.of_concat dir stride before i).symm
    simp only [hclaims, Checked.pure_eq_pure_iff]
    exact ⟨others, hothers, rfl⟩

theorem Instance.readAll_eq_pure_iff {n : Nat} {before : List Instance} {items : List Value}
    {instances : List Instance} (hbefore : before.Pairwise (Instance.Apart dir stride)) :
    Instance.readAll tree dir stride n (Claims.of dir stride before) items = pure instances ↔
      List.Forall₂ IsInstance items instances ∧
        (before ++ instances).Pairwise (Instance.Apart dir stride) ∧
        ∀ i ∈ instances, i.LayersPresent tree dir ∧ i.CollisionFree := by
  induction items generalizing n before instances with
  | nil =>
    simp only [Instance.readAll, Checked.pure_eq_pure_iff, List.forall₂_nil_left_iff]
    constructor
    · rintro rfl
      simpa using hbefore
    · exact fun h => h.1.symm
  | cons item items ih =>
    cases item with
    | mapping fs =>
      rw [Instance.readAll_cons_eq_pure_iff]
      constructor
      · intro h
        obtain ⟨i, others, hi, hapart, hothers, rfl⟩ := h
        have hnext : (before ++ [i]).Pairwise (Instance.Apart dir stride) := by
          simpa [List.pairwise_append, hbefore] using hapart
        obtain ⟨hwritten, hpairwise, hall⟩ := (ih hnext).1 hothers
        exact ⟨.cons ⟨fs, rfl, hi.1⟩ hwritten, by simpa using hpairwise,
          List.forall_mem_cons.2 ⟨hi.2, hall⟩⟩
      · intro h
        obtain ⟨hwritten, hpairwise, hall⟩ := h
        cases hwritten with
        | @cons _ i _ others hi hwritten =>
          obtain ⟨_, hfs, hi⟩ := hi
          cases hfs
          obtain ⟨hsound, hall⟩ := List.forall_mem_cons.1 hall
          rw [List.append_cons] at hpairwise
          have hnext := (List.pairwise_append.1 hpairwise).1
          have hapart := (List.pairwise_append.1 hnext).2.2
          exact ⟨i, others, ⟨hi, hsound⟩,
            fun b hb => hapart b hb i (List.mem_singleton_self i),
            (ih hnext).2 ⟨hwritten, hpairwise, hall⟩, rfl⟩
    | null | bool _ | number _ | string _ | list _ =>
      simp [Instance.readAll, List.forall₂_cons_left_iff, IsInstance]

def AreDefaults (v : Value) (d : Defaults) : Prop := ∃ fs, v = .mapping fs ∧ d.WrittenAs fs

inductive AreInstances (instances : List Instance) : Option Value → Prop
  | list {items : List Value} (hne : items ≠ [])
      (hitems : List.Forall₂ IsInstance items instances) :
      AreInstances instances (some (.list items))

structure Inventory.WrittenAs (inv : Inventory) (fs : Fields Value) : Prop where
  supported : (Fields.get? fs "version").bind Value.asUnsigned? = some supportedVersion
  version : inv.version = supportedVersion
  defaults : ∃ r, Optional AreDefaults (Fields.get? fs "defaults") r ∧ r.getD {} = inv.defaults
  policy : Optional IsFragment (Fields.get? fs "policy") inv.policy
  instances : AreInstances inv.instances (Fields.get? fs "instances")
  extra : inv.extra = Fields.without fs rootKeys

def Inventory.LayersPresent (tree : Tree) (dir : Path) (inv : Inventory) : Prop :=
  ∀ i ∈ inv.instances, i.LayersPresent tree dir

structure Inventory.CollisionFree (dir : Path) (inv : Inventory) : Prop where
  instances : inv.instances.Pairwise (Instance.Apart dir inv.defaults.stride)
  agents : ∀ i ∈ inv.instances, i.CollisionFree

theorem readDefaults_eq_pure_iff {d : Defaults} :
    (s.optionalMapping "defaults" >>= Defaults.read) = pure d ↔
      ∃ r, Optional AreDefaults (s.get? "defaults") r ∧ r.getD {} = d := by
  simp only [Checked.bind_eq_pure_iff, Section.optionalMapping_eq_pure_iff,
    Defaults.read_eq_pure_iff]
  generalize s.get? "defaults" = v
  constructor
  · intro h
    obtain ⟨m, hm, ⟨rfl, rfl⟩ | ⟨fs, rfl, hd⟩⟩ := h
    · cases hm with
      | absent => exact ⟨none, .absent, rfl⟩
      | null => exact ⟨none, .null, rfl⟩
    · cases hm with
      | given h => exact ⟨some d, .given ⟨fs, h, hd⟩, rfl⟩
  · intro h
    obtain ⟨r, hr, rfl⟩ := h
    cases hr with
    | absent => exact ⟨none, .absent, .inl ⟨rfl, rfl⟩⟩
    | null => exact ⟨none, .null, .inl ⟨rfl, rfl⟩⟩
    | given h =>
      obtain ⟨fs, hv, hd⟩ := h
      exact ⟨some fs, .given hv, .inr ⟨fs, rfl, hd⟩⟩

theorem Inventory.read_eq_pure_iff {v : Value} {r : Option Inventory} :
    Inventory.read tree dir v = pure r ↔
      ∃ inv fs, r = some inv ∧ v = .mapping fs ∧ inv.WrittenAs fs ∧ inv.LayersPresent tree dir ∧
        inv.CollisionFree dir := by
  cases v with
  | mapping fs =>
    have hdefaults (d : Defaults) := readDefaults_eq_pure_iff (s := ⟨fs, []⟩) (d := d)
    have hreadAll (stride : Nat) (items : List Value) (instances : List Instance) :
        Instance.readAll tree dir stride 0 (Claims.of dir stride []) items = pure instances ↔ _ :=
      Instance.readAll_eq_pure_iff .nil
    simp only [Inventory.read]
    by_cases hversion : (Section.get? ⟨fs, []⟩ "version").bind Value.asUnsigned? =
      some supportedVersion
    · rw [if_neg (not_not.2 hversion), hversion]
      constructor
      · intro h
        split at h
        · rename_i item items hitems
          simp only [Checked.bind_eq_pure_iff, Section.policy_eq_pure_iff] at h hdefaults
          obtain ⟨m, hm, d, hd, policy, hpolicy, instances, hinstances, h⟩ := h
          have hd := (hdefaults d).1 ⟨m, hm, hd⟩
          obtain ⟨hwritten, hapart, hall⟩ := (hreadAll ..).1 hinstances
          refine ⟨_, fs, (Checked.pure_eq_pure_iff.1 h).symm, rfl,
            ⟨hversion, rfl, hd, hpolicy, ?_, rfl⟩, fun i hi => (hall i hi).1, hapart,
            fun i hi => (hall i hi).2⟩
          have hget : Fields.get? fs "instances" = some (.list (item :: items)) := hitems
          rw [hget]
          exact .list (List.cons_ne_nil _ _) hwritten
        · exact absurd h Checked.faulty_ne_pure
      · intro h
        obtain ⟨inv, _, rfl, hgs, hinv, hlayers, hcollision⟩ := h
        cases hgs
        have hinstances := hinv.instances
        rw [show Fields.get? fs "instances" = Section.get? ⟨fs, []⟩ "instances" from rfl]
          at hinstances
        generalize Section.get? ⟨fs, []⟩ "instances" = found at hinstances ⊢
        cases hinstances with
        | @list items hne hitems =>
          obtain ⟨item, items, rfl⟩ := List.exists_cons_of_ne_nil hne
          simp only [Checked.bind_eq_pure_iff, Section.policy_eq_pure_iff] at hdefaults ⊢
          obtain ⟨m, hm, hd⟩ := (hdefaults inv.defaults).2 hinv.defaults
          refine ⟨m, hm, _, hd, _, hinv.policy, _, (hreadAll ..).2 ⟨hitems, hcollision.instances,
            fun i hi => ⟨hlayers i hi, hcollision.agents i hi⟩⟩, ?_⟩
          rw [Section.without, ← hinv.extra, Option.getD_some, ← hinv.version]
    · rw [if_pos hversion]
      simp only [Checked.bind_eq_pure_iff, Checked.report_ne_pure, false_and, exists_false,
        false_iff, not_exists, not_and]
      rintro inv gs - hgs hinv
      cases hgs
      exact absurd hinv.supported hversion
  | null | bool _ | number _ | string _ | list _ => simp [Inventory.read]

/-- A document is admitted as an inventory exactly when it is a written form of it, the layers are
files, and nothing collides. -/
theorem ofValue?_eq_ok_iff {v : Value} {inv : Inventory} :
    Inventory.ofValue? tree dir v = .ok inv ↔
      ∃ fs, v = .mapping fs ∧ inv.WrittenAs fs ∧ inv.LayersPresent tree dir ∧
        inv.CollisionFree dir := by
  have hread : Inventory.ofValue? tree dir v = .ok inv ↔
      Inventory.read tree dir v = pure (some inv) := by
    rw [Checked.eq_pure_iff]
    unfold Inventory.ofValue?
    generalize Inventory.read tree dir v = x
    simp only
    split
    · rename_i found hvalue hissues
      simp [hvalue, hissues]
    · rename_i h
      simp only [reduceCtorEq, false_iff, not_and]
      exact fun hissues hvalue => h inv hvalue hissues
  rw [hread, Inventory.read_eq_pure_iff]
  simp

def pairPaths (name : String) : RolePaths :=
  ⟨name ++ "/config", name ++ "/state", name ++ "/work", name ++ "/out", []⟩

def pairDocument : Value :=
  .mapping [
    ("version", .ofNat 1),
    ("policy", .mapping [
      ("skills", .mapping [("deny", .ofStrings ["web"]), ("note", .null)]),
      ("models", .mapping [("allow_providers", .ofStrings ["acme"])])]),
    ("instances", .list [
      .mapping [("id", .string "east"), ("host", .mapping [("gateway_port", .ofNat 4000)]),
        ("paths", .mapping (pairPaths "east").toFields),
        ("openclaw", .mapping [("config_layers", .ofStrings ["base"])]),
        ("agents", .list [
          .mapping [("id", .string "ada"),
            ("bindings", .list [.mapping [
              ("match", .mapping [("channel", .string "irc"), ("account_id", .string "ops")])]]),
            ("skills", .ofStrings ["web", " web "]), ("model", .string "acme/one")],
          .mapping [("id", .string "bob"),
            ("bindings", .list [.mapping [
              ("match", .mapping [("channel", .string "irc"), ("accountId", .string "bob")])]]),
            ("model", .string "other/two")]]),
        ("channels", .mapping [("irc", .ofStrings ["ops", "bob"])])],
      .mapping [("id", .string "west"), ("host", .mapping [("gateway_port", .ofNat 4020)]),
        ("paths", .mapping (pairPaths "west").toFields),
        ("runtime", .mapping [("config_layers", .ofStrings ["base"])])]])]

def pairDir : Path := ⟨["", "fleet"]⟩

def pairTree : Tree := ⟨[(⟨true, ["fleet", "base"]⟩, .file .empty)]⟩

def pairAda : Agent where
  id := "ada"
  role := .usecase
  bindings := [Binding.of "irc" "ops"]
  skills := ["web", " web "]
  model := some "acme/one"

def pairBob : Agent where
  id := "bob"
  role := .usecase
  bindings := [Binding.of "irc" "bob"]
  model := some "other/two"

def pairEast : Instance where
  id := "east"
  host := { gatewayPort := 4000 }
  paths := pairPaths "east"
  runtime := { configLayers := ["base"] }
  agents := [pairAda, pairBob]
  channels := [("irc", { accounts := [("bob", .empty), ("ops", .empty)] })]

def pairWest : Instance where
  id := "west"
  host := { gatewayPort := 4020 }
  paths := pairPaths "west"
  runtime := { configLayers := ["base"] }

def pairFleet : Inventory where
  version := 1
  policy := some {
    skills := some { deny := some ["web"], extra := [("note", .null)] }
    models := some { allowProviders := some ["acme"] } }
  instances := [pairEast, pairWest]

theorem ofValue?_pair : Inventory.ofValue? pairTree pairDir pairDocument = .ok pairFleet := by
  rfl

end GatewayFleet.Fleet
