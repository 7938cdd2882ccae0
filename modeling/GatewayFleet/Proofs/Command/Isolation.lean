import GatewayFleet.Proofs.Command.Rendering

/-! The files of one instance against the renders of another. Instances share no directory in one
role, though one may keep its configuration where the other has its generated files. Their files
are different all the same, so no render of the one reaches a file of the other. -/

namespace GatewayFleet.Command

open Fleet (Instance Inventory)
open Gateway (Placement)

variable {p : Path} {inv : Inventory} {x y : Instance}

theorem directoryOf_ne (hsound : inv.instances.Pairwise fun i j =>
      ∀ role, i.paths.locate p.directory role ≠ j.paths.locate p.directory role)
    (hx : x ∈ inv.instances) (hy : y ∈ inv.instances) (hne : x ≠ y) (role : Fleet.PathRole) :
    (Placement.of x p).directoryOf role ≠ (Placement.of y p).directoryOf role := by
  have : Std.Symm fun i j : Instance =>
      ∀ role, i.paths.locate p.directory role ≠ j.paths.locate p.directory role :=
    ⟨fun _ _ h role => Ne.symm (h role)⟩
  rw [Placement.directoryOf_of, Placement.directoryOf_of]
  exact hsound.forall hx hy hne role

theorem artifact_not_mem_renderedLocations {l : Location}
    (hroles : ∀ role, (Placement.of x p).directoryOf role ≠ (Placement.of y p).directoryOf role)
    (hl : l ∈ (Placement.of x p).artifacts) : l ∉ renderedLocations y p := by
  intro hmem
  rcases List.mem_append.1 hmem with hmem | hlog
  · rcases List.mem_append.1 hmem with hfile | htemporary
    · exact Placement.ne_of_mem hroles hl hfile rfl
    · obtain ⟨m, hm, rfl⟩ := List.mem_map.1 htemporary
      exact Placement.ne_sibling_of_mem hl hm rfl
  · exact artifact_ne_log hl (List.mem_singleton.1 hlog)

/-- The files of two instances of an admitted fleet are all different, and a render of one of them
leaves those of the other as they are, whatever comes of it. -/
theorem render_isolated {tree : Tree} {v : Value}
    (h : Inventory.ofValue? tree p.directory v = .ok inv) (hx : x ∈ inv.instances)
    (hy : y ∈ inv.instances) (hne : x ≠ y) :
    (∀ l ∈ (Placement.of x p).artifacts, l ∉ (Placement.of y p).artifacts) ∧
    ∀ (s : Surroundings) (t : Tree) (dryRun : Bool), Fleet.load t p = .ok inv →
      ∀ l ∈ (Placement.of x p).artifacts,
        (Disk.run (Command.run s p (.render y.id dryRun)) t).2.content? l = t.content? l := by
  obtain ⟨fs, -, hwritten, -, hfree⟩ := Fleet.ofValue?_eq_ok_iff.1 h
  have hids : (inv.instances.map (·.id)).Nodup :=
    Fleet.nodup_map_of_pairwise hfree.instances fun _ _ hapart => hapart.ids
  have hroles := directoryOf_ne (p := p) (hfree.instances.imp fun hapart => hapart.paths) hx hy hne
  have houtside : ∀ l ∈ (Placement.of x p).artifacts, l ∉ renderedLocations y p :=
    fun l hl => artifact_not_mem_renderedLocations hroles hl
  constructor
  · intro l hl hmem
    exact houtside l hl (List.mem_append_left _ (List.mem_append_left _ hmem))
  · intro s t dryRun hload l hl
    have hkeeps := keeps_render s dryRun hload (find?_of_mem hids hy)
    exact hkeeps.content? (houtside l hl)

def twinText : String :=
  "version: 1\ninstances:\n- id: a\n  host: \x7bgateway_port: 9\x7d\n  paths: \x7bconfig_dir: " ++
  "c, state_dir: s, workspace_root: w, generated_dir: g\x7d\n" ++
  "  runtime: \x7bconfig_layers: [l]\x7d\n" ++
  "- id: b\n  host: \x7bgateway_port: 99\x7d\n  paths: \x7bconfig_dir: g, state_dir: t, " ++
  "workspace_root: x, generated_dir: c\x7d\n  runtime: \x7bconfig_layers: [l]\x7d\n"

def twinInstance (id : String) (port : Nat) (paths : Fleet.RolePaths) : Instance where
  id := id
  host := { gatewayPort := port }
  paths := paths
  runtime := { configLayers := ["l"] }

/-- The generated files of each lie where the other one has its configuration. -/
def twinA : Instance := twinInstance "a" 9 ⟨"c", "s", "w", "g", []⟩
def twinB : Instance := twinInstance "b" 99 ⟨"g", "t", "x", "c", []⟩

def twinFleet : Inventory := { version := 1, instances := [twinA, twinB] }

def twinValue (id : String) (port : Nat) (paths : Fleet.RolePaths) : Value :=
  .mapping [("id", .string id), ("host", .mapping [("gateway_port", .ofNat port)]),
    ("paths", .mapping paths.toFields),
    ("runtime", .mapping [("config_layers", .ofStrings ["l"])])]

def twinDocument : Value :=
  .mapping [("version", .ofNat 1), ("instances", .list [twinValue "a" 9 twinA.paths,
    twinValue "b" 99 twinB.paths])]

def twinPath : Path := .ofString "/fleet"

def twinTree : Tree :=
  ⟨[(⟨true, ["fleet"]⟩, .file twinText.toUTF8), (⟨true, ["l"]⟩, .file "\x7b\x7d".toUTF8),
    (⟨true, ["c"]⟩, .directory), (⟨true, ["s"]⟩, .directory), (⟨true, ["w"]⟩, .directory),
    (⟨true, ["g"]⟩, .directory), (⟨true, ["t"]⟩, .directory), (⟨true, ["x"]⟩, .directory),
    (⟨true, [".fleetconf"]⟩, .directory),
    (⟨true, ["g", "gateway.resolved.json"]⟩, .file "old".toUTF8)]⟩

set_option maxRecDepth 100000 in
theorem document?_twin : Fleet.document? twinText = some twinDocument := by
  decide +kernel

theorem ofValue?_twin :
    Inventory.ofValue? twinTree twinPath.directory twinDocument = .ok twinFleet := by
  rfl

theorem stat_twin : twinTree.stat twinPath = .ok (.file twinText.toUTF8) := by
  rfl

theorem load_twin : Fleet.load twinTree twinPath = .ok twinFleet :=
  Fleet.load_of_ofValue? (Fleet.readDocument_of_stat stat_twin document?_twin) ofValue?_twin

theorem render_isolated_twin :
    Fleet.load twinTree twinPath = .ok twinFleet ∧
    ∀ (s : Surroundings) (dryRun : Bool), ∀ l ∈ (Placement.of twinA twinPath).artifacts,
      l ∉ (Placement.of twinB twinPath).artifacts ∧
      (Disk.run (Command.run s twinPath (.render "b" dryRun)) twinTree).2.content? l =
        twinTree.content? l := by
  have hx : twinA ∈ twinFleet.instances := by simp [twinFleet]
  have hy : twinB ∈ twinFleet.instances := by simp [twinFleet]
  obtain ⟨hapart, hkept⟩ := render_isolated ofValue?_twin hx hy (by decide)
  exact ⟨load_twin, fun s dryRun l hl => ⟨hapart l hl, hkept s twinTree dryRun load_twin l hl⟩⟩

end GatewayFleet.Command
