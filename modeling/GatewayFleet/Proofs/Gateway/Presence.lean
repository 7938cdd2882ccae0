import GatewayFleet.Proofs.Fleet.Loading
import GatewayFleet.Proofs.Gateway.Interchange

/-! Layers that are looked for and layers that are opened. An inventory is accepted only if the
layers of its instances are files, and the configuration of an instance is resolved from the same
files, wherever the inventory lies and however its layers are spelled. So only a file that a layer
includes can still be missing. -/

namespace GatewayFleet.Layer

variable {t : Tree} {opened : List Location} {l m n : Location} {sought : Sought} {q : Path}

theorem readAt_eq_none_iff : readAt t l = .ok none ↔ t.isFile l = false := by
  unfold readAt Tree.isFile
  cases t.content? l with
  | none => exact iff_of_true rfl rfl
  | some content =>
    refine iff_of_false ?_ nofun
    dsimp only
    split
    · exact nofun
    · split <;> exact nofun

/-- Loading from the first location finds no file at the second one. The location it starts from is
an included layer if others wait for it, and so is every location that is reached through it. -/
inductive Lacks (t : Tree) (opened : List Location) (l : Location) : Sought → Location → Prop
  | start (h : t.isFile l = false) :
    Lacks t opened l (if opened.isEmpty then .layer else .includedLayer) l
  | included {m : Location} (h : Relation.TransGen (Includes t) l m) (hm : t.isFile m = false) :
    Lacks t opened l .includedLayer m

theorem Lacks.head (hstep : Includes t l n) (h : Lacks t (opened ++ [l]) n sought m) :
    Lacks t opened l sought m := by
  cases h with
  | start hn =>
    have hwaits : (opened ++ [l]).isEmpty = false := by simp
    rw [hwaits]
    exact .included (.single hstep) hn
  | included hreach hm => exact .included (.head hstep hreach) hm

theorem missing_of_loadInto (h : loadInto t opened l = .error (.missing sought q)) :
    ∃ m, Lacks t opened l sought m ∧ q = m.toPath := by
  induction opened, l using loadInto.induct t with
  | case1 opened l hl =>
    rw [loadInto_opened hl] at h
    cases h
  | case2 opened l hl failure hfailure =>
    rw [loadInto_error hl hfailure] at h
    obtain rfl := Except.error.inj h
    rcases readAt_eq_error hfailure with heq | ⟨defect, heq⟩ <;> cases heq
  | case3 opened l hl hnone =>
    rw [loadInto_missing hl hnone] at h
    obtain ⟨rfl, rfl⟩ := Failure.missing.inj (Except.error.inj h)
    exact ⟨l, .start (readAt_eq_none_iff.1 hnone), rfl⟩
  | case4 opened l hl layer hlayer ih =>
    have hreads := readAt_eq_some_iff.1 hlayer
    rw [loadInto_layer hl hreads] at h
    obtain ⟨n, hn, hfails⟩ := Outcome.exists_of_mapM_eq_error (Outcome.map_eq_error h)
    obtain ⟨m, hlacks, hq⟩ := ih n hfails
    exact ⟨m, hlacks.head ((includes_iff hreads).2 hn), hq⟩

theorem load_eq_missing_iff :
    load t l = .error (.missing .layer q) ↔ t.isFile l = false ∧ q = l.toPath := by
  constructor
  · intro h
    obtain ⟨m, hlacks, hq⟩ := missing_of_loadInto h
    generalize hsought : Sought.layer = sought at hlacks
    cases hlacks with
    | start hl => exact ⟨hl, hq⟩
    | included => cases hsought
  · rintro ⟨hl, rfl⟩
    rw [load, loadInto_missing List.not_mem_nil (readAt_eq_none_iff.2 hl)]
    rfl

theorem included_of_load (h : load t l = .error (.missing sought q)) (hl : t.isFile l = true) :
    sought = .includedLayer ∧
      ∃ m, Relation.TransGen (Includes t) l m ∧ t.isFile m = false ∧ q = m.toPath := by
  obtain ⟨m, hlacks, hq⟩ := missing_of_loadInto h
  cases hlacks with
  | start hnone => exact absurd (hl.symm.trans hnone) nofun
  | included hreach hm => exact ⟨rfl, m, hreach, hm, hq⟩

end GatewayFleet.Layer

namespace GatewayFleet.Gateway

open Fleet (Instance Inventory)

variable {t t' : Tree} {env : Environment} {i : Instance} {p q : Path} {inv : Inventory}
variable {l : Location} {sought : Sought}

theorem resolve_eq_missing_iff :
    resolve t env i p = .error (.missing sought q) ↔
      Layer.loadAll t (layerLocations i p) = .error (.missing sought q) := by
  unfold resolve assemble
  cases Layer.loadAll t (layerLocations i p) with
  | error failure => exact Iff.rfl
  | ok below =>
    refine iff_of_false (fun h => ?_) nofun
    obtain ⟨name, -, -, hfailure⟩ := expand_eq_error h
    cases hfailure

theorem resolve_missing_first_iff :
    resolve t env i p = .error (.missing sought q) ↔
      ∃ front l back, layerLocations i p = front ++ l :: back ∧
        Layer.load t l = .error (.missing sought q) ∧ ∀ m ∈ front, ∃ v, Layer.load t m = .ok v := by
  rw [resolve_eq_missing_iff, ← Outcome.mapM_eq_error_iff]
  unfold Layer.loadAll
  constructor
  · exact Outcome.map_eq_error
  · intro h
    rw [h]
    rfl

theorem layersPresent_iff :
    i.LayersPresent t p.directory ↔ ∀ l ∈ layerLocations i p, t.isFile l = true := by
  unfold layerLocations Instance.LayersPresent
  rw [List.forall_mem_map]

theorem layersPresent_of_load (h : Fleet.load t p = .ok inv) (hi : i ∈ inv.instances) :
    ∀ l ∈ layerLocations i p, t.isFile l = true := by
  obtain ⟨v, -, haccept⟩ := Outcome.bind_eq_ok h
  obtain ⟨-, -, -, hpresent, -⟩ := Fleet.ofValue?_eq_ok_iff.1 (Outcome.mapError_eq_ok haccept)
  exact layersPresent_iff.1 (hpresent i hi)

theorem load_iff_layers (h : Fleet.load t p = .ok inv) (hstat : t'.stat p = t.stat p) :
    Fleet.load t' p = .ok inv ↔
      ∀ j ∈ inv.instances, ∀ l ∈ layerLocations j p, t'.isFile l = true := by
  constructor
  · exact fun h' j hj => layersPresent_of_load h' hj
  · intro hfiles
    refine Fleet.load_congr h hstat fun j hj layer hlayer => ?_
    have hmem := List.mem_map_of_mem (f := fun s => p.directory.resolve (.ofString s)) hlayer
    exact (hfiles j hj _ hmem).trans (layersPresent_of_load h hj _ hmem).symm

theorem locate_layer (hl : l ∈ layerLocations i p) : l.toPath.locate = l := by
  obtain ⟨layer, -, rfl⟩ := List.mem_map.1 hl
  exact (Path.canonical_locate _).locate_toPath

theorem included_of_resolve (h : Fleet.load t p = .ok inv) (hi : i ∈ inv.instances)
    (hmissing : resolve t env i p = .error (.missing sought q)) :
    sought = .includedLayer ∧ ∃ l ∈ layerLocations i p, ∃ m,
      Relation.TransGen (Layer.Includes t) l m ∧ t.isFile m = false ∧ q = m.toPath := by
  obtain ⟨front, l, back, hlayers, hload, -⟩ := resolve_missing_first_iff.1 hmissing
  have hl : l ∈ layerLocations i p := by
    rw [hlayers]
    exact List.mem_append_right _ List.mem_cons_self
  obtain ⟨hsought, hm⟩ := Layer.included_of_load hload (layersPresent_of_load h hi l hl)
  exact ⟨hsought, l, hl, hm⟩

/-- The layers of an instance of an accepted inventory are files, and their paths lead to them as
they are. So when its configuration is resolved, only a file that one of them includes is missed.
In any tree that holds the same inventory, the layers decide whether it is accepted, and the first
one that is not a file is the one that is missed. -/
theorem resolve_opens_layers (h : Fleet.load t p = .ok inv) (hi : i ∈ inv.instances) :
    (∀ l ∈ layerLocations i p, l.toPath.locate = l ∧ t.isFile l = true) ∧
    (∀ env q, resolve t env i p ≠ .error (.missing .layer q)) ∧
    (∀ env sought q, resolve t env i p = .error (.missing sought q) →
      sought = .includedLayer ∧ ∃ l ∈ layerLocations i p, ∃ m,
        Relation.TransGen (Layer.Includes t) l m ∧ t.isFile m = false ∧ q = m.toPath) ∧
    ∀ t', t'.stat p = t.stat p →
      (Fleet.load t' p = .ok inv ↔
        ∀ j ∈ inv.instances, ∀ l ∈ layerLocations j p, t'.isFile l = true) ∧
      ∀ env q, resolve t' env i p = .error (.missing .layer q) ↔
        ∃ front l back, layerLocations i p = front ++ l :: back ∧
          (t'.isFile l = false ∧ q = l.toPath) ∧ ∀ m ∈ front, ∃ v, Layer.load t' m = .ok v := by
  refine ⟨fun l hl => ⟨locate_layer hl, layersPresent_of_load h hi l hl⟩,
    fun env q hmissing => ?_, fun env sought q hmissing => included_of_resolve h hi hmissing,
    fun t' hstat => ⟨load_iff_layers h hstat, fun env q => ?_⟩⟩
  · cases (included_of_resolve h hi hmissing).1
  · rw [resolve_missing_first_iff]
    simp only [Layer.load_eq_missing_iff]

def bareText : String :=
  "version: 1\ninstances:\n- id: a\n  host: \x7bgateway_port: 9\x7d\n  paths: \x7bconfig_dir: " ++
  "c, state_dir: s, workspace_root: w, generated_dir: g\x7d\n" ++
  "  runtime: \x7bconfig_layers: [./x/../l]\x7d\n"

def bareInstance : Instance where
  id := "a"
  host := { gatewayPort := 9 }
  paths := ⟨"c", "s", "w", "g", []⟩
  runtime := { configLayers := ["./x/../l"] }

def bareFleet : Inventory := { version := 1, instances := [bareInstance] }

def bareDocument : Value :=
  .mapping [("version", .ofNat 1), ("instances", .list [.mapping [("id", .string "a"),
    ("host", .mapping [("gateway_port", .ofNat 9)]),
    ("paths", .mapping bareInstance.paths.toFields),
    ("runtime", .mapping [("config_layers", .ofStrings ["./x/../l"])])]])]

def barePath : Path := .ofString "fleet"

/-- The only layer is there; what it includes is not. -/
def bareTree : Tree :=
  ⟨[(⟨false, ["fleet"]⟩, .file bareText.toUTF8),
    (⟨false, ["l"]⟩, .file "\x7b\"$include\":\"m\"\x7d".toUTF8)]⟩

set_option maxRecDepth 100000 in
theorem document?_bare : Fleet.document? bareText = some bareDocument := by
  decide +kernel

theorem load_bare : Fleet.load bareTree barePath = .ok bareFleet := by
  have hstat : bareTree.stat barePath = .ok (.file bareText.toUTF8) := by rfl
  have hvalue : Inventory.ofValue? bareTree barePath.directory bareDocument = .ok bareFleet := by
    rfl
  exact Fleet.load_of_ofValue? (Fleet.readDocument_of_stat hstat document?_bare) hvalue

theorem readsAs_bare : Layer.ReadsAs bareTree ⟨false, ["l"]⟩ ⟨[], ["m"]⟩ := by
  have hread : Json.read "\x7b\"$include\":\"m\"\x7d" =
      .ok (.mapping [("$include", .string "m")]) := by cbv
  exact .of_read (by rfl) hread rfl

theorem resolve_bare (env : Environment) : resolve bareTree env bareInstance barePath =
    .error (.missing .includedLayer ⟨["m"]⟩) := by
  have hmissing : Layer.loadInto bareTree [⟨false, ["l"]⟩] ⟨false, ["m"]⟩ =
      .error (.missing .includedLayer ⟨["m"]⟩) :=
    Layer.loadInto_missing (by decide) (Layer.readAt_eq_none_iff.2 rfl)
  have hload : Layer.load bareTree ⟨false, ["l"]⟩ =
      .error (.missing .includedLayer ⟨["m"]⟩) := by
    have htargets : Layer.targets ⟨false, ["l"]⟩ ⟨[], ["m"]⟩ = [⟨false, ["m"]⟩] := rfl
    rw [Layer.load, Layer.loadInto_layer List.not_mem_nil readsAs_bare,
      htargets, List.nil_append, Outcome.mapM_cons_error [] hmissing]
    rfl
  exact resolve_missing_first_iff.2 ⟨[], _, [], rfl, hload, List.forall_mem_nil _⟩

theorem resolve_opens_layers_bare :
    Fleet.load bareTree barePath = .ok bareFleet ∧
    (∀ l ∈ layerLocations bareInstance barePath, bareTree.isFile l = true) ∧
    ∀ env, resolve bareTree env bareInstance barePath =
        .error (.missing .includedLayer ⟨["m"]⟩) ∧
      ∃ l ∈ layerLocations bareInstance barePath, ∃ m,
        Relation.TransGen (Layer.Includes bareTree) l m ∧ bareTree.isFile m = false ∧
          ⟨["m"]⟩ = m.toPath := by
  have hmem : bareInstance ∈ bareFleet.instances := List.mem_singleton_self bareInstance
  obtain ⟨hfiles, -, hincluded, -⟩ := resolve_opens_layers load_bare hmem
  refine ⟨load_bare, fun l hl => (hfiles l hl).2, fun env => ⟨resolve_bare env, ?_⟩⟩
  exact (hincluded env .includedLayer ⟨["m"]⟩ (resolve_bare env)).2

end GatewayFleet.Gateway
