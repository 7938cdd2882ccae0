import GatewayFleet.Proofs.Fleet.Soundness
import GatewayFleet.Proofs.Value.Ways

/-! Collisions seen in the document. Two entries of a list collide when they have something in
common: an identifier, a port, a location, a name, or a route. Where the document is a written form
of an inventory, its collisions are those of the inventory. -/

namespace GatewayFleet.Fleet

section

variable {α β γ : Type} {R : α → β → Prop} {has : α → γ → Prop} {has' : β → γ → Prop}
  {xs : List α} {ys : List β}

def Share (has : α → γ → Prop) (xs : List α) : Prop :=
  ∃ x y c, [x, y].Sublist xs ∧ has x c ∧ has y c

theorem not_share_iff :
    ¬ Share has xs ↔ xs.Pairwise fun x y => ∀ c, ¬ (has x c ∧ has y c) := by
  rw [List.pairwise_iff_forall_sublist]
  constructor
  · exact fun h x y hsub c hc => h ⟨x, y, c, hsub, hc⟩
  · exact fun h ⟨x, y, c, hsub, hc⟩ => h hsub c hc

theorem not_share_eq_iff {f : α → γ} :
    ¬ Share (fun x c => f x = c) xs ↔ (xs.map f).Nodup := by
  have hne (x y : α) : (∀ c, ¬ (f x = c ∧ f y = c)) ↔ f x ≠ f y :=
    ⟨fun h heq => h _ ⟨heq, rfl⟩, fun h c hc => h (hc.1.trans hc.2.symm)⟩
  simp only [not_share_iff, hne, List.nodup_iff_pairwise_ne, List.pairwise_map]

theorem exists_sublist_of_forall₂ (h : List.Forall₂ R xs ys) {zs : List α} (hz : zs.Sublist xs) :
    ∃ ws, ws.Sublist ys ∧ List.Forall₂ R zs ws := by
  induction hz generalizing ys with
  | slnil => exact ⟨[], List.nil_sublist _, .nil⟩
  | cons x _ ih =>
    cases h with
    | cons hx hrest =>
      obtain ⟨ws, hws, hzs⟩ := ih hrest
      exact ⟨ws, hws.cons _, hzs⟩
  | cons_cons x _ ih =>
    cases h with
    | cons hx hrest =>
      obtain ⟨ws, hws, hzs⟩ := ih hrest
      exact ⟨_, hws.cons_cons _, .cons hx hzs⟩

theorem Share.of_forall₂ (h : Share has xs) (hxs : List.Forall₂ R xs ys)
    (hR : ∀ x y, R x y → ∀ c, has x c → has' y c) : Share has' ys := by
  obtain ⟨x, x', c, hsub, hx, hx'⟩ := h
  obtain ⟨ws, hws, hpair⟩ := exists_sublist_of_forall₂ hxs hsub
  cases hpair with
  | cons hy hpair =>
    cases hpair with
    | cons hy' hnil =>
      cases hnil
      exact ⟨_, _, c, hws, hR _ _ hy c hx, hR _ _ hy' c hx'⟩

theorem forall_mem_iff_of_forall₂ {P : α → Prop} {Q : β → Prop} (hxs : List.Forall₂ R xs ys)
    (hR : ∀ x y, R x y → (P x ↔ Q y)) : (∀ x ∈ xs, P x) ↔ ∀ y ∈ ys, Q y := by
  induction hxs with
  | nil => simp
  | cons hxy _ ih => rw [List.forall_mem_cons, List.forall_mem_cons, hR _ _ hxy, ih]

theorem share_iff_of_forall₂ (hxs : List.Forall₂ R xs ys)
    (hR : ∀ x y, R x y → ∀ c, has x c ↔ has' y c) : Share has xs ↔ Share has' ys := by
  constructor
  · exact fun h => h.of_forall₂ hxs fun x y hxy c => (hR x y hxy c).1
  · exact fun h => h.of_forall₂ hxs.flip fun y x hxy c => (hR x y hxy c).2

end

def itemsOf : Option Value → List Value
  | some (.list items) => items
  | _ => []

def entries (v : Value) (k : String) : List Value := itemsOf (v.member? k)

def textAt (v : Value) (way : List String) : Option String := Section.filled? (v.at? way)

def Names (v : Value) (id : String) : Prop := textAt v ["id"] = some id

def strideIn (doc : Value) : Nat :=
  ((doc.at? ["defaults", "port_stride"]).bind Value.asUnsigned?).getD 20

/-- The port is one of those from the gateway port on, as many as the stride says. -/
def TakesPort (doc v : Value) (port : Nat) : Prop :=
  ∃ first, port? (v.at? ["host", "gateway_port"]) = some first ∧
    first ≤ port ∧ port ≤ min (first + strideIn doc - 1) 65535

def LiesAt (dir : Path) (role : PathRole) (v : Value) (l : Location) : Prop :=
  ∃ text, textAt v ["paths", role.key] = some text ∧ dir.resolve (.ofString text) = l

def WorksIn (v : Value) (name : String) : Prop :=
  (textAt v ["workspace"] <|> textAt v ["id"]) = some name

def StoresIn (v : Value) (name : String) : Prop :=
  (textAt v ["agent_dir"] <|> (textAt v ["id"]).map ("agents/" ++ ·)) = some name

def Routes (v : Value) (channel account : String) : Prop :=
  textAt v ["match", "channel"] = some channel ∧
    (textAt v ["match", "accountId"] <|> textAt v ["match", "account_id"]) = some account

def RoutesTo {κ : Type} (key : String → String → κ) (v : Value) (k : κ) : Prop :=
  ∃ channel account, Routes v channel account ∧ key channel account = k

def bindingEntries (v : Value) : List Value := (entries v "agents").flatMap (entries · "bindings")

/-- Two instances collide, or two agents of an instance, or two bindings of an instance whose
channels and accounts are told apart by `key`. -/
inductive Collides {κ : Type} (key : String → String → κ) (dir : Path) (doc : Value) : Prop
  | ids (h : Share Names (entries doc "instances"))
  | ports (h : Share (TakesPort doc) (entries doc "instances"))
  | paths (role : PathRole) (h : Share (LiesAt dir role) (entries doc "instances"))
  | agentIds {v : Value} (hv : v ∈ entries doc "instances") (h : Share Names (entries v "agents"))
  | workspaces {v : Value} (hv : v ∈ entries doc "instances")
      (h : Share WorksIn (entries v "agents"))
  | agentDirs {v : Value} (hv : v ∈ entries doc "instances")
      (h : Share StoresIn (entries v "agents"))
  | bindings {v : Value} (hv : v ∈ entries doc "instances")
      (h : Share (RoutesTo key) (bindingEntries v))

variable {fs : Fields Value} {k : String} {v : Value}

theorem entries_of_get? {items : List Value} (h : Fields.get? fs k = some (.list items)) :
    entries (.mapping fs) k = items :=
  congrArg itemsOf h

theorem get?_of_entries_ne_nil (h : entries v k ≠ []) :
    ∃ fs, v = .mapping fs ∧ Fields.get? fs k = some (.list (entries v k)) := by
  cases v with
  | mapping fs =>
    refine ⟨fs, rfl, ?_⟩
    simp only [entries, Value.member?] at h ⊢
    generalize Fields.get? fs k = m at h ⊢
    cases m with
    | none => exact absurd rfl h
    | some m =>
      cases m with
      | list items => rfl
      | null | bool _ | number _ | string _ | mapping _ => exact absurd rfl h
  | null | bool _ | number _ | string _ | list _ => exact absurd rfl h

theorem textAt_singleton (fs : Fields Value) (k : String) :
    textAt (.mapping fs) [k] = Section.filled? (Fields.get? fs k) := by
  rw [textAt, Value.at?_singleton]

theorem textAt_pair {ms : Fields Value} (h : Fields.get? fs k = some (.mapping ms)) (k' : String) :
    textAt (.mapping fs) [k, k'] = Section.filled? (Fields.get? ms k') := by
  rw [textAt, Value.at?_mapping, h]
  exact textAt_singleton ms k'

theorem textAt_of_optional {r : Option String} (h : Optional IsText (Fields.get? fs k) r) :
    textAt (.mapping fs) [k] = r := by
  rw [textAt_singleton]
  generalize Fields.get? fs k = m at h
  cases h with
  | absent | null => rfl
  | given h => exact h

theorem itemsOf_of_areInstances {instances : List Instance} {m : Option Value}
    (h : AreInstances instances m) : List.Forall₂ IsInstance (itemsOf m) instances := by
  cases h with
  | list hne hitems => exact hitems

theorem itemsOf_of_areAgents {m : Option Value} {r : Option (List Agent)}
    (h : Optional AreAgents m r) : List.Forall₂ IsAgent (itemsOf m) (r.getD []) := by
  cases h with
  | absent | null => exact .nil
  | given h =>
    obtain ⟨items, rfl, hitems⟩ := h
    exact hitems

theorem itemsOf_of_areBindings {bindings : List Binding} {m : Option Value}
    (h : AreBindings bindings m) :
    List.Forall₂ (fun v b => Binding.WrittenAs b v) (itemsOf m) bindings := by
  cases h with
  | list hne hitems => exact hitems

theorem IsInstance.names_iff {i : Instance} (h : IsInstance v i) (id : String) :
    Names v id ↔ i.id = id := by
  obtain ⟨fs, rfl, hi⟩ := h
  rw [Names, textAt_singleton, hi.id, Option.some.injEq]

theorem IsInstance.liesAt_iff {i : Instance} (h : IsInstance v i) (dir : Path) (role : PathRole)
    (l : Location) : LiesAt dir role v l ↔ i.paths.locate dir role = l := by
  obtain ⟨fs, rfl, hi⟩ := h
  obtain ⟨ms, hms, hpaths⟩ := hi.paths
  simp only [LiesAt, textAt_pair hms, hpaths.texts role, Option.some.injEq, exists_eq_left']
  rfl

theorem IsInstance.entries_agents {i : Instance} (h : IsInstance v i) :
    List.Forall₂ IsAgent (entries v "agents") i.agents := by
  obtain ⟨fs, rfl, hi⟩ := h
  obtain ⟨r, hr, hagents⟩ := hi.agents
  rw [← hagents]
  exact itemsOf_of_areAgents hr

theorem IsAgent.names_iff {a : Agent} (h : IsAgent v a) (id : String) :
    Names v id ↔ a.id = id := by
  obtain ⟨fs, rfl, ha⟩ := h
  rw [Names, textAt_singleton, ha.id, Option.some.injEq]

theorem IsAgent.worksIn_iff {a : Agent} (h : IsAgent v a) (name : String) :
    WorksIn v name ↔ a.workspaceName = name := by
  obtain ⟨fs, rfl, ha⟩ := h
  rw [WorksIn, textAt_of_optional ha.workspace, textAt_singleton, ha.id, Agent.workspaceName]
  cases a.workspace <;> simp

theorem IsAgent.storesIn_iff {a : Agent} (h : IsAgent v a) (name : String) :
    StoresIn v name ↔ a.agentDirName = name := by
  obtain ⟨fs, rfl, ha⟩ := h
  rw [StoresIn, textAt_of_optional ha.agentDir, textAt_singleton, ha.id, Agent.agentDirName]
  cases a.agentDir <;> simp

theorem IsAgent.entries_bindings {a : Agent} (h : IsAgent v a) :
    List.Forall₂ (fun v b => Binding.WrittenAs b v) (entries v "bindings") a.bindings := by
  obtain ⟨fs, rfl, ha⟩ := h
  exact itemsOf_of_areBindings ha.bindings

theorem IsInstance.bindingEntries {i : Instance} (h : IsInstance v i) :
    List.Forall₂ (fun v b => Binding.WrittenAs b v) (bindingEntries v) i.bindings :=
  List.rel_flatMap h.entries_agents fun _ _ ha => ha.entries_bindings

theorem Binding.WrittenAs.routes_iff {b : Binding} (h : b.WrittenAs v) (channel account : String) :
    Routes v channel account ↔ b.channel = channel ∧ b.account = account := by
  cases h with
  | mapping hroute hmatch hextra =>
    simp only [Routes, textAt_pair hroute, hmatch.channel, hmatch.account, Option.some.injEq]
    rfl

theorem Binding.WrittenAs.routesTo_iff {b : Binding} (h : b.WrittenAs v) (k : String) :
    RoutesTo accountKey v k ↔ b.key = k := by
  simp only [RoutesTo, h.routes_iff]
  constructor
  · rintro ⟨channel, account, ⟨rfl, rfl⟩, hk⟩
    exact hk
  · exact fun hk => ⟨_, _, ⟨rfl, rfl⟩, hk⟩

/-- No range goes beyond the last port, so it makes no difference that wide strides are cut. -/
theorem Inventory.WrittenAs.last_eq {inv : Inventory} (h : inv.WrittenAs fs) (first : Nat) :
    min (first + inv.defaults.stride - 1) 65535 =
      min (first + strideIn (.mapping fs) - 1) 65535 := by
  obtain ⟨r, hr, hdefaults⟩ := h.defaults
  rw [← hdefaults, strideIn, Value.at?_mapping]
  generalize Fields.get? fs "defaults" = m at hr
  cases hr with
  | absent | null => rfl
  | given h =>
    obtain ⟨ds, rfl, hd⟩ := h
    have hstride := hd.stride
    rw [Option.bind_some, Value.at?_mapping, Option.getD_some, Defaults.stride]
    generalize Fields.get? ds "port_stride" = m at hstride ⊢
    generalize Defaults.portStride _ = n at hstride ⊢
    cases hstride with
    | absent | null => rfl
    | given h =>
      obtain ⟨n, hn, hpos, heq⟩ := h
      simp only [Option.bind_some, Value.at?, hn, heq, Option.getD_some, strideLimit]
      omega

theorem IsInstance.takesPort_iff {inv : Inventory} {i : Instance} (hinv : inv.WrittenAs fs)
    (h : IsInstance v i) (port : Nat) :
    TakesPort (.mapping fs) v port ↔ i.Takes inv.defaults.stride port := by
  obtain ⟨gs, rfl, hi⟩ := h
  obtain ⟨ms, hms, hhost⟩ := hi.host
  have hport : port? ((Value.mapping gs).at? ["host", "gateway_port"]) =
      some i.host.gatewayPort := by
    rw [Value.at?_mapping, hms, ← hhost.port, Option.bind_some, Value.at?_singleton]
  simp only [TakesPort, hport, Option.some.injEq, exists_eq_left', ← hinv.last_eq]
  rfl

theorem PortRange.meets_iff {a b : PortRange} (ha : a.first ≤ a.last) (hb : b.first ≤ b.last) :
    a.Meets b ↔ ∃ port, (a.first ≤ port ∧ port ≤ a.last) ∧ b.first ≤ port ∧ port ≤ b.last := by
  constructor
  · intro h
    -- two ranges that meet both have the larger one of their first ports
    refine ⟨max a.first b.first, ?_⟩
    rw [PortRange.Meets] at h
    omega
  · rintro ⟨port, ⟨hle, hge⟩, hle', hge'⟩
    exact ⟨Nat.le_trans hle hge', Nat.le_trans hle' hge⟩

theorem not_meets_iff {stride : Nat} {i j : Instance} (hstride : 1 ≤ stride)
    (hi : i.host.gatewayPort ≤ 65535) (hj : j.host.gatewayPort ≤ 65535) :
    ¬ (j.range stride).Meets (i.range stride) ↔
      ∀ port, ¬ (i.Takes stride port ∧ j.Takes stride port) := by
  have hfilled {i : Instance} (h : i.host.gatewayPort ≤ 65535) :
      (i.range stride).first ≤ (i.range stride).last := by
    simp only [Instance.range, PortRange.of, maxPort]
    omega
  rw [PortRange.meets_iff (hfilled hj) (hfilled hi), not_exists]
  exact forall_congr' fun port => not_congr and_comm

theorem Defaults.Canonical.one_le_stride {d : Defaults} (h : d.Canonical) : 1 ≤ d.stride := by
  unfold Defaults.stride
  cases hstride : d.portStride with
  | none => exact Nat.le_of_ble_eq_true rfl
  | some n => exact (h.stride n hstride).1

theorem Instance.collisionFree_iff {i : Instance} :
    i.CollisionFree ↔ ((i.agents.map (·.id)).Nodup ∧ (i.agents.map (·.workspaceName)).Nodup ∧
      (i.agents.map (·.agentDirName)).Nodup) ∧ (i.bindings.map Binding.key).Nodup := by
  constructor
  · intro h
    exact ⟨⟨h.nodup_ids,
      nodup_map_of_pairwise h.agents fun _ _ hapart => hapart.workspaces,
      nodup_map_of_pairwise h.agents fun _ _ hapart => hapart.agentDirs⟩, h.boundKeys_nodup⟩
  · intro h
    obtain ⟨⟨hids, hworkspaces, hagentDirs⟩, hkeys⟩ := h
    rw [bindings, List.map_flatMap, List.nodup_flatMap] at hkeys
    rw [List.nodup_iff_pairwise_ne, List.pairwise_map] at hids hworkspaces hagentDirs
    refine ⟨?_, hkeys.1⟩
    have hall := hids.and (hworkspaces.and (hagentDirs.and hkeys.2))
    exact hall.imp fun h => ⟨h.1, h.2.1, h.2.2.1, h.2.2.2⟩

theorem Inventory.collisionFree_iff {inv : Inventory} {dir : Path} (h : inv.Canonical) :
    inv.CollisionFree dir ↔ ((inv.instances.map (·.id)).Nodup ∧
      ¬ Share (fun i port => i.Takes inv.defaults.stride port) inv.instances ∧
      ∀ role, (inv.instances.map (·.paths.locate dir role)).Nodup) ∧
      ∀ i ∈ inv.instances, i.CollisionFree := by
  have hmeets : inv.instances.Pairwise (fun i j => ¬ (j.range inv.defaults.stride).Meets
      (i.range inv.defaults.stride)) ↔
      ¬ Share (fun i port => i.Takes inv.defaults.stride port) inv.instances := by
    rw [not_share_iff]
    refine List.Pairwise.iff_of_mem fun {i j} hi hj => ?_
    exact not_meets_iff h.defaults.one_le_stride (h.instances i hi).host.port.2
      (h.instances j hj).host.port.2
  constructor
  · intro hfree
    refine ⟨⟨hfree.nodup_ids,
      hmeets.1 (hfree.instances.imp fun hapart => hapart.ports), fun role => ?_⟩, hfree.agents⟩
    exact nodup_map_of_pairwise hfree.instances fun _ _ hapart => hapart.paths role
  · rintro ⟨⟨hids, hports, hpaths⟩, hagents⟩
    simp only [List.nodup_iff_pairwise_ne, List.pairwise_map] at hids hpaths
    have hroles : inv.instances.Pairwise fun i j =>
        ∀ role, i.paths.locate dir role ≠ j.paths.locate dir role :=
      List.pairwise_iff_forall_sublist.2 fun hsub role =>
        List.pairwise_iff_forall_sublist.1 (hpaths role) hsub
    have hall := hids.and ((hmeets.2 hports).and hroles)
    exact ⟨hall.imp fun h => ⟨h.1, h.2.1, h.2.2⟩, hagents⟩

section

variable {κ : Type} {key : String → String → κ} {dir : Path} {doc : Value}

theorem not_collides_iff :
    ¬ Collides key dir doc ↔ (¬ Share Names (entries doc "instances") ∧
      ¬ Share (TakesPort doc) (entries doc "instances") ∧
      ∀ role, ¬ Share (LiesAt dir role) (entries doc "instances")) ∧
      ∀ v ∈ entries doc "instances", (¬ Share Names (entries v "agents") ∧
        ¬ Share WorksIn (entries v "agents") ∧ ¬ Share StoresIn (entries v "agents")) ∧
        ¬ Share (RoutesTo key) (bindingEntries v) := by
  constructor
  · intro h
    exact ⟨⟨mt .ids h, mt .ports h, fun role => mt (.paths role) h⟩, fun v hv =>
      ⟨⟨mt (.agentIds hv) h, mt (.workspaces hv) h, mt (.agentDirs hv) h⟩, mt (.bindings hv) h⟩⟩
  · rintro ⟨⟨hids, hports, hpaths⟩, hagents⟩ h
    cases h with
    | ids h => exact hids h
    | ports h => exact hports h
    | paths role h => exact hpaths role h
    | agentIds hv h => exact (hagents _ hv).1.1 h
    | workspaces hv h => exact (hagents _ hv).1.2.1 h
    | agentDirs hv h => exact (hagents _ hv).1.2.2 h
    | bindings hv h => exact (hagents _ hv).2 h

end

theorem IsInstance.collisionFree_iff {i : Instance} (h : IsInstance v i) :
    i.CollisionFree ↔ (¬ Share Names (entries v "agents") ∧ ¬ Share WorksIn (entries v "agents") ∧
      ¬ Share StoresIn (entries v "agents")) ∧
      ¬ Share (RoutesTo accountKey) (Fleet.bindingEntries v) := by
  have hkeys : Share (RoutesTo accountKey) (Fleet.bindingEntries v) ↔
      Share (fun b k => Binding.key b = k) i.bindings :=
    share_iff_of_forall₂ h.bindingEntries fun _ _ hb => hb.routesTo_iff
  rw [Instance.collisionFree_iff,
    share_iff_of_forall₂ h.entries_agents fun _ _ ha => ha.names_iff,
    share_iff_of_forall₂ h.entries_agents fun _ _ ha => ha.worksIn_iff,
    share_iff_of_forall₂ h.entries_agents fun _ _ ha => ha.storesIn_iff, hkeys]
  simp only [not_share_eq_iff]

theorem Inventory.WrittenAs.collisionFree_iff {inv : Inventory} {dir : Path}
    (h : inv.WrittenAs fs) :
    inv.CollisionFree dir ↔ ¬ Collides accountKey dir (.mapping fs) := by
  have hitems : List.Forall₂ IsInstance (entries (.mapping fs) "instances") inv.instances :=
    itemsOf_of_areInstances h.instances
  have hagents := forall_mem_iff_of_forall₂ hitems fun v i hi => hi.collisionFree_iff.symm
  rw [Inventory.collisionFree_iff h.canonical, not_collides_iff, hagents,
    share_iff_of_forall₂ hitems fun _ _ hi => hi.names_iff,
    share_iff_of_forall₂ hitems fun _ _ hi => hi.takesPort_iff h]
  have hpaths (role : PathRole) := share_iff_of_forall₂ hitems fun _ _ hi => hi.liesAt_iff dir role
  simp only [hpaths, not_share_eq_iff]

end GatewayFleet.Fleet
