import GatewayFleet.Proofs.Fleet.Registration
import GatewayFleet.Proofs.Fleet.Reporting
import GatewayFleet.Proofs.Fleet.Sharing

/-! Documents with which nothing but collisions is wrong. One that repeats no identifier is a
written form of an inventory, because every record of it is read; so the pass rejects a document
exactly when two records of it collide. Bindings collide when their channels and accounts make the
same text. -/

namespace GatewayFleet.Fleet

open Checked (OnlyCollisions)

variable {s : Section} {place : Place} {tree : Tree} {dir : Path} {stride : Nat}

theorem Checked.OfShape.exists_found {α : Type} {x : Checked (Option α)} {P : α → Prop}
    (hshape : x.OfShape) (h : x.OnlyCollisions)
    (hfound : ∀ r, x = pure r → ∃ a, r = some a ∧ P a) : ∃ a, x = pure (some a) ∧ P a := by
  have hpure := hshape.eq_pure h
  obtain ⟨a, ha, hP⟩ := hfound _ hpure
  exact ⟨a, ha ▸ hpure, hP⟩

theorem names_mapping_iff {fs : Fields Value} {id : String} :
    Names (.mapping fs) id ↔ Section.filled? (Fields.get? fs "id") = some id := by
  rw [Names, textAt_singleton]

theorem Agent.readAll_written {i : Nat} {seats : Seats} {items : List Value}
    (h : (Agent.readAll place i seats items).OnlyCollisions) (hids : ¬ Share Names items)
    (hfresh : ∀ v ∈ items, ∀ id ∈ seats.ids, ¬ Names v id) :
    List.Forall₂ IsAgent items (Agent.readAll place i seats items).value := by
  induction items generalizing i seats with
  | nil => exact .nil
  | cons item items ih =>
    rw [not_share_iff, List.pairwise_cons, ← not_share_iff] at hids
    obtain ⟨hitem, hfreshItems⟩ := List.forall_mem_cons.1 hfresh
    cases item with
    | mapping fs =>
      rw [Agent.readAll, Checked.onlyCollisions_bind_iff] at h
      obtain ⟨a, hread, ha⟩ :=
        (Agent.ofShape_read _).exists_found h.1 fun _ => Agent.read_eq_pure_iff.1
      have hname : Names (.mapping fs) a.id := names_mapping_iff.2 ha.id
      have hid : a.id ∉ seats.ids := fun hmem => hitem _ hmem hname
      rw [hread] at h
      simp only [Checked.value_pure, hid, if_false, Checked.onlyCollisions_bind_iff] at h
      rw [Agent.readAll, hread]
      simp only [Checked.value_bind, Checked.value_pure, hid, if_false]
      refine .cons ⟨fs, rfl, ha⟩ (ih h.2.2.1 hids.2 fun v hv id hmem hnames => ?_)
      rcases List.mem_append.1 hmem with hmem | hmem
      · exact hfreshItems v hv id hmem hnames
      · rw [List.mem_singleton.1 hmem] at hnames
        exact hids.1 v hv a.id ⟨hname, hnames⟩
    | null | bool _ | number _ | string _ | list _ =>
      simp [Agent.readAll] at h

theorem readAgents_written (h : (readAgents s).OnlyCollisions)
    (hids : ¬ Share Names (entries (.mapping s.fields) "agents")) :
    ∃ r, Optional AreAgents (s.get? "agents") r ∧ r.getD [] = (readAgents s).value := by
  have hget : entries (.mapping s.fields) "agents" = itemsOf (s.get? "agents") := rfl
  rw [hget] at hids
  unfold readAgents at h ⊢
  generalize s.get? "agents" = m at h hids ⊢
  split
  · exact ⟨none, .absent, rfl⟩
  · exact ⟨none, .null, rfl⟩
  · exact ⟨_, .given ⟨_, rfl, Agent.readAll_written h hids (by simp)⟩, rfl⟩
  · simp at h

theorem missingLayers_of_onlyCollisions {id : String} {layers : List String}
    (h : (⟨missingLayers tree dir id layers, ()⟩ : Checked Unit).OnlyCollisions) :
    missingLayers tree dir id layers = [] := by
  rw [List.eq_nil_iff_forall_not_mem]
  intro issue hissue
  obtain ⟨layer, -, rfl⟩ := List.mem_map.1 hissue
  cases h _ hissue

theorem exists_runtime (h : (RuntimeBlock.read s).OnlyCollisions) :
    ∃ b fs, RuntimeBlock.read s = pure (some b) ∧ s.get? (runtimeKey s) = some (.mapping fs) ∧
      b.WrittenAs fs := by
  have hpure := (RuntimeBlock.ofShape_read s).eq_pure h
  obtain ⟨b, fs, hb, hget, hwritten⟩ := RuntimeBlock.read_eq_pure_iff.1 hpure
  exact ⟨b, fs, hb ▸ hpure, hget, hwritten⟩

theorem Instance.read_written {id : String} {claims : Claims}
    (hid : Section.filled? (s.get? "id") = some id)
    (h : (Instance.read tree dir stride id s claims).OnlyCollisions)
    (hagents : ¬ Share Names (entries (.mapping s.fields) "agents")) :
    ∃ i claims', (Instance.read tree dir stride id s claims).value = (some i, claims') ∧
      claims'.ids = claims.ids ∧ i.WrittenAs s.fields ∧ i.LayersPresent tree dir := by
  have hmapping (k : String) (hk : (s.mapping k).OnlyCollisions) :=
    (s.ofShape_mapping k).exists_found hk fun _ => Section.mapping_eq_pure_iff.1
  unfold Instance.read at h ⊢
  obtain ⟨hostFields, hread, hhostFields⟩ :=
    hmapping "host" (Checked.onlyCollisions_bind_iff.1 h).1
  rw [hread, pure_bind] at h ⊢
  simp only at h ⊢
  obtain ⟨host, hread, hhost⟩ := (Host.ofShape_read _).exists_found
    (Checked.onlyCollisions_bind_iff.1 h).1 fun _ => Host.read_eq_pure_iff.1
  rw [hread, pure_bind] at h ⊢
  simp only at h ⊢
  rw [Checked.value_bind]
  replace h := (Checked.onlyCollisions_bind_iff.1 h).2
  obtain ⟨pathFields, hread, hpathFields⟩ :=
    hmapping "paths" (Checked.onlyCollisions_bind_iff.1 h).1
  rw [hread, pure_bind] at h ⊢
  simp only at h ⊢
  rw [Checked.value_bind]
  replace h := (Checked.onlyCollisions_bind_iff.1 h).2
  obtain ⟨paths, hread, hpaths⟩ := (RolePaths.ofShape_read _).exists_found
    (Checked.onlyCollisions_bind_iff.1 h).1 fun _ => RolePaths.read_eq_pure_iff.1
  rw [hread, pure_bind] at h ⊢
  obtain ⟨runtime, runtimeFields, hread, hruntimeFields, hruntime⟩ :=
    exists_runtime (Checked.onlyCollisions_bind_iff.1 h).1
  rw [hread, pure_bind] at h ⊢
  simp only [Checked.onlyCollisions_bind_iff, Option.map_some, Option.getD_some] at h
  obtain ⟨hlayers, hagentsRead, hchannels, hpolicy, -⟩ := h
  refine ⟨_, _, rfl, rfl, ⟨hid, ⟨_, hhostFields, hhost⟩, ⟨_, hpathFields, hpaths⟩,
    ⟨_, hruntimeFields, hruntime⟩, readAgents_written hagentsRead hagents, ?_, ?_, rfl⟩, ?_⟩
  · exact readChannels_eq_pure_iff.1 ((ofShape_readChannels s).eq_pure hchannels)
  · exact Section.policy_eq_pure_iff.1 ((s.ofShape_policy "policy").eq_pure hpolicy)
  · exact missingLayers_eq_nil_iff.1 (missingLayers_of_onlyCollisions hlayers)

theorem Instance.readAll_written {n : Nat} {claims : Claims} {items : List Value}
    (h : (Instance.readAll tree dir stride n claims items).OnlyCollisions)
    (hids : ¬ Share Names items) (hfresh : ∀ v ∈ items, ∀ id ∈ claims.ids, ¬ Names v id)
    (hagents : ∀ v ∈ items, ¬ Share Names (entries v "agents")) :
    List.Forall₂ IsInstance items (Instance.readAll tree dir stride n claims items).value ∧
      ∀ i ∈ (Instance.readAll tree dir stride n claims items).value, i.LayersPresent tree dir := by
  induction items generalizing n claims with
  | nil => exact ⟨.nil, List.forall_mem_nil _⟩
  | cons item items ih =>
    rw [not_share_iff, List.pairwise_cons, ← not_share_iff] at hids
    obtain ⟨hitem, hfreshItems⟩ := List.forall_mem_cons.1 hfresh
    obtain ⟨hagentsItem, hagentsItems⟩ := List.forall_mem_cons.1 hagents
    cases item with
    | mapping fs =>
      rw [Instance.readAll] at h ⊢
      simp only at h ⊢
      split at h
      · simp at h
      · rename_i id hid
        have hname : Names (.mapping fs) id := names_mapping_iff.2 hid
        have hnew : id ∉ claims.ids := fun hmem => hitem _ hmem hname
        rw [if_neg hnew, Checked.onlyCollisions_bind_iff] at h
        obtain ⟨i, claims', hvalue, hclaims, hi, hlayers⟩ :=
          Instance.read_written hid h.1 hagentsItem
        rw [hvalue, Checked.onlyCollisions_bind_iff] at h
        have hfreshNext : ∀ v ∈ items, ∀ id ∈ claims'.ids, ¬ Names v id := by
          intro v hv id' hmem hnames
          rw [hclaims] at hmem
          rcases List.mem_append.1 hmem with hmem | hmem
          · exact hfreshItems v hv id' hmem hnames
          · rw [List.mem_singleton.1 hmem] at hnames
            exact hids.1 v hv id ⟨hname, hnames⟩
        obtain ⟨hwritten, hpresent⟩ := ih h.2.1 hids.2 hfreshNext hagentsItems
        simp only [if_neg hnew, Checked.value_bind, hvalue, Checked.value_pure,
          Option.toList_some, List.singleton_append]
        exact ⟨.cons ⟨fs, rfl, hi⟩ hwritten, List.forall_mem_cons.2 ⟨hlayers, hpresent⟩⟩
    | null | bool _ | number _ | string _ | list _ =>
      simp [Instance.readAll] at h

/-- A document where nothing but collisions is wrong, and no identifier comes back, is a written
form of an inventory. -/
theorem Inventory.exists_written {doc : Value}
    (h : (Inventory.read tree dir doc).OnlyCollisions)
    (hids : ¬ Share Names (entries doc "instances"))
    (hagents : ∀ v ∈ entries doc "instances", ¬ Share Names (entries v "agents")) :
    ∃ fs, ∃ inv : Inventory, doc = .mapping fs ∧ inv.WrittenAs fs ∧
      inv.LayersPresent tree dir := by
  cases doc with
  | mapping fs =>
    unfold Inventory.read at h
    simp only at h
    split at h
    · simp at h
    · rename_i hversion
      split at h
      · rename_i item items hitems
        have hentries : entries (.mapping fs) "instances" = item :: items := congrArg itemsOf hitems
        rw [hentries] at hids hagents
        simp only [Checked.onlyCollisions_bind_iff] at h
        obtain ⟨hmapping, hdefaults, hpolicy, hinstances, -⟩ := h
        have hdefaults := ((Section.ofShape_optionalMapping _ _).bind Defaults.ofShape_read).eq_pure
          (Checked.onlyCollisions_bind_iff.2 ⟨hmapping, hdefaults⟩)
        have hpolicy := (Section.ofShape_policy _ _).eq_pure hpolicy
        have hfresh : ∀ v ∈ item :: items, ∀ id ∈ ({} : Claims).ids, ¬ Names v id :=
          fun _ _ _ hmem => absurd hmem List.not_mem_nil
        obtain ⟨hwritten, hlayers⟩ := Instance.readAll_written hinstances hids hfresh hagents
        refine ⟨fs, ⟨supportedVersion, _, _, _, Fields.without fs rootKeys⟩, rfl,
          ⟨not_not.1 hversion, rfl, readDefaults_eq_pure_iff.1 hdefaults,
            Section.policy_eq_pure_iff.1 hpolicy, ?_, rfl⟩, hlayers⟩
        have hget : Fields.get? fs "instances" = some (.list (item :: items)) := hitems
        rw [hget]
        exact .list (List.cons_ne_nil _ _) hwritten
      · simp at h
  | null | bool _ | number _ | string _ | list _ => simp [Inventory.read] at h

section

variable {doc : Value}

theorem onlyCollisions_of_ofValue?
    (h : ∀ issues, Inventory.ofValue? tree dir doc = .error issues →
      ∀ issue ∈ issues, issue.kind = .collision) :
    (Inventory.read tree dir doc).OnlyCollisions := by
  intro issue hissue
  unfold Inventory.ofValue? at h
  simp only at h
  split at h
  · rename_i inv hnone
    rw [hnone] at hissue
    cases hissue
  · exact h _ rfl issue hissue

theorem rejected_iff_collides (h : (Inventory.read tree dir doc).OnlyCollisions) :
    (∃ issues, Inventory.ofValue? tree dir doc = .error issues) ↔
      Collides accountKey dir doc := by
  constructor
  · rintro ⟨issues, hrejected⟩
    by_contra hfree
    obtain ⟨⟨hids, -, -⟩, hagents⟩ := not_collides_iff.1 hfree
    obtain ⟨fs, inv, rfl, hwritten, hlayers⟩ :=
      Inventory.exists_written h hids fun v hv => (hagents v hv).1.1
    have haccepted := ofValue?_eq_ok_iff.2
      ⟨fs, rfl, hwritten, hlayers, hwritten.collisionFree_iff.2 hfree⟩
    cases haccepted.symm.trans hrejected
  · intro hcollides
    cases hresult : Inventory.ofValue? tree dir doc with
    | error issues => exact ⟨issues, rfl⟩
    | ok inv =>
      obtain ⟨fs, rfl, hwritten, -, hfree⟩ := ofValue?_eq_ok_iff.1 hresult
      exact absurd hcollides (hwritten.collisionFree_iff.1 hfree)

theorem Collides.by_text (h : Collides Prod.mk dir doc) : Collides accountKey dir doc := by
  cases h with
  | ids h => exact .ids h
  | ports h => exact .ports h
  | paths role h => exact .paths role h
  | agentIds hv h => exact .agentIds hv h
  | workspaces hv h => exact .workspaces hv h
  | agentDirs hv h => exact .agentDirs hv h
  | bindings hv h =>
    obtain ⟨x, y, k, hsub, ⟨c, a, hx, hk⟩, ⟨c', a', hy, hk'⟩⟩ := h
    obtain ⟨rfl, rfl⟩ := Prod.mk.inj (hk.trans hk'.symm)
    exact .bindings hv ⟨x, y, _, hsub, ⟨c, a, hx, rfl⟩, ⟨c, a, hy, rfl⟩⟩

theorem Collides.by_pair_or_share (h : Collides accountKey dir doc) :
    Collides Prod.mk dir doc ∨
      ∃ v ∈ entries doc "instances", Share (RoutesTo accountKey) (bindingEntries v) := by
  cases h with
  | ids h => exact .inl (.ids h)
  | ports h => exact .inl (.ports h)
  | paths role h => exact .inl (.paths role h)
  | agentIds hv h => exact .inl (.agentIds hv h)
  | workspaces hv h => exact .inl (.workspaces hv h)
  | agentDirs hv h => exact .inl (.agentDirs hv h)
  | bindings hv h => exact .inr ⟨_, hv, h⟩

theorem share_pair_of_colonless {bindings : List Value}
    (hcolon : ∀ b ∈ bindings, ∀ channel account, Routes b channel account →
      ':' ∉ channel.toList)
    (h : Share (RoutesTo accountKey) bindings) : Share (RoutesTo Prod.mk) bindings := by
  obtain ⟨x, y, k, hsub, ⟨c, a, hx, hk⟩, ⟨c', a', hy, hk'⟩⟩ := h
  have hxmem : x ∈ bindings := hsub.subset List.mem_cons_self
  have hymem : y ∈ bindings := hsub.subset (List.mem_cons_of_mem _ List.mem_cons_self)
  obtain ⟨rfl, rfl⟩ := eq_of_accountKey (hk.trans hk'.symm) (hcolon x hxmem c a hx)
    (hcolon y hymem c' a' hy)
  exact ⟨x, y, (c, a), hsub, ⟨c, a, hx, rfl⟩, ⟨c, a, hy, rfl⟩⟩

/-- A document where at most collisions are wrong is rejected exactly when two records collide,
where bindings are told apart by the joined texts. So it is rejected without a collision exactly
when two bindings of an instance make the same text, not being the same, and nothing else collides;
which does not happen where no channel has a colon in its name. -/
theorem rejected_by_text
    (h : ∀ issues, Inventory.ofValue? tree dir doc = .error issues →
      ∀ issue ∈ issues, issue.kind = .collision) :
    ((∃ issues, Inventory.ofValue? tree dir doc = .error issues) ↔
      Collides accountKey dir doc) ∧
    (((∃ issues, Inventory.ofValue? tree dir doc = .error issues) ↔ Collides Prod.mk dir doc) ↔
      ∀ v ∈ entries doc "instances", Share (RoutesTo accountKey) (bindingEntries v) →
        Collides Prod.mk dir doc) ∧
    ((∀ v ∈ entries doc "instances", ∀ b ∈ bindingEntries v, ∀ channel account,
        Routes b channel account → ':' ∉ channel.toList) →
      ((∃ issues, Inventory.ofValue? tree dir doc = .error issues) ↔
        Collides Prod.mk dir doc)) := by
  have hrejected := rejected_iff_collides (onlyCollisions_of_ofValue? h)
  have hexact : ((∃ issues, Inventory.ofValue? tree dir doc = .error issues) ↔
      Collides Prod.mk dir doc) ↔ ∀ v ∈ entries doc "instances",
        Share (RoutesTo accountKey) (bindingEntries v) → Collides Prod.mk dir doc := by
    rw [hrejected]
    constructor
    · exact fun hiff v hv hshare => hiff.1 (.bindings hv hshare)
    · refine fun hall => ⟨fun hcollides => ?_, Collides.by_text⟩
      rcases hcollides.by_pair_or_share with hpair | ⟨v, hv, hshare⟩
      · exact hpair
      · exact hall v hv hshare
  refine ⟨hrejected, hexact, fun hcolon => hexact.2 fun v hv hshare => ?_⟩
  exact .bindings hv (share_pair_of_colonless (hcolon v hv) hshare)

end

def crossedAda : Agent := { pairAda with bindings := [Binding.of "irc:eu" "ops"] }

def crossedBob : Agent := { pairBob with bindings := [Binding.of "irc" "eu:ops"] }

/-- Two agents that are bound to different channels, with accounts that make the same text. -/
def crossedDocument : Value :=
  .mapping [("version", .ofNat 1), ("instances", .list [
    .mapping [("id", .string "east"), ("host", .mapping [("gateway_port", .ofNat 4000)]),
      ("paths", .mapping (pairPaths "east").toFields),
      ("runtime", .mapping [("config_layers", .ofStrings ["base"])]),
      ("agents", .list [crossedAda.toValue, crossedBob.toValue])]])]

theorem ofValue?_crossed : Inventory.ofValue? pairTree pairDir crossedDocument =
    .error [.duplicateBinding "irc:eu:ops"] := by
  rfl

theorem not_collides_crossed : ¬ Collides Prod.mk pairDir crossedDocument := by
  have hinstances {γ : Type} (has : Value → γ → Prop) :
      ¬ Share has (entries crossedDocument "instances") :=
    not_share_iff.2 (List.pairwise_singleton _ _)
  have hpair {γ : Type} {has : Value → γ → Prop} {x y : Value}
      (h : ∀ c, ¬ (has x c ∧ has y c)) : ¬ Share has [x, y] :=
    not_share_iff.2 (List.pairwise_pair.2 h)
  refine not_collides_iff.2 ⟨⟨hinstances _, hinstances _, fun _ => hinstances _⟩, fun v hv => ?_⟩
  obtain rfl := List.mem_singleton.1 hv
  refine ⟨⟨hpair ?_, hpair ?_, hpair ?_⟩, hpair ?_⟩
  · exact fun name h => absurd (h.1.trans h.2.symm) (by decide)
  · exact fun name h => absurd (h.1.trans h.2.symm) (by decide)
  · exact fun name h => absurd (h.1.trans h.2.symm) (by decide)
  · rintro _ ⟨⟨c, a, hada, rfl⟩, ⟨c', a', hbob, heq⟩⟩
    obtain ⟨rfl, -⟩ := Prod.mk.inj heq
    exact absurd (hada.1.trans hbob.1.symm) (by decide)

theorem rejected_by_text_crossed :
    (∃ issues, Inventory.ofValue? pairTree pairDir crossedDocument = .error issues) ∧
    Collides accountKey pairDir crossedDocument ∧
    ¬ ∀ v ∈ entries crossedDocument "instances",
      Share (RoutesTo accountKey) (bindingEntries v) →
        Collides Prod.mk pairDir crossedDocument := by
  have honly : ∀ issues, Inventory.ofValue? pairTree pairDir crossedDocument = .error issues →
      ∀ issue ∈ issues, issue.kind = .collision := by
    intro issues hissues
    rw [ofValue?_crossed] at hissues
    cases hissues
    decide
  obtain ⟨htext, hpair, -⟩ := rejected_by_text honly
  refine ⟨⟨_, ofValue?_crossed⟩, htext.1 ⟨_, ofValue?_crossed⟩, fun hall => ?_⟩
  exact not_collides_crossed ((hpair.2 hall).1 ⟨_, ofValue?_crossed⟩)

theorem rejected_without_collision_crossed :
    Inventory.ofValue? pairTree pairDir crossedDocument =
      .error [.duplicateBinding "irc:eu:ops"] ∧
    ¬ ((∃ issues, Inventory.ofValue? pairTree pairDir crossedDocument = .error issues) ↔
      Collides Prod.mk pairDir crossedDocument) :=
  ⟨ofValue?_crossed, fun hiff => not_collides_crossed (hiff.1 ⟨_, ofValue?_crossed⟩)⟩

end GatewayFleet.Fleet
