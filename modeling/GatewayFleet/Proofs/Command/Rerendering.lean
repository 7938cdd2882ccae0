import GatewayFleet.Proofs.Command.Isolation
import GatewayFleet.Proofs.Layer.Agreement

/-! Rendering again. Where a render does not write to what it reads, it can be repeated, and the
second render leaves the configuration and the policies as the first one left them. -/

namespace GatewayFleet.Command

open Fleet (Instance Inventory)
open Gateway (Placement fileBytes)
open GatewayFleet.Tree (Keeps Opens Ready)

variable {t t' : Tree} {p : Path} {instanceId : String} {env : Gateway.Environment}
  {r : Rendering} {ps : List Policy.Summary}

/-- What a render of the instance reads or looks for: the inventory, the layers of every instance,
and all that the layers of the instance itself lead to. -/
inductive Reads (t : Tree) (p : Path) (inv : Inventory) (i : Instance) : Location → Prop
  | inventory : Reads t p inv i p.locate
  | layer {j : Instance} {l : Location} (hj : j ∈ inv.instances)
    (hl : l ∈ Gateway.layerLocations j p) : Reads t p inv i l
  | included {l m : Location} (hl : l ∈ Gateway.layerLocations i p) (hm : Layer.Reaches t l m) :
    Reads t p inv i m

theorem rendering_of_keeps {ls : List Location} (h : rendering t env p instanceId = .ok r)
    (hkeeps : Keeps ls t t') (hreads : ∀ l, Reads t p r.fleet r.target l → l ∉ ls) :
    rendering t' env p instanceId = .ok r := by
  obtain ⟨hload, hcomply, hfind, hconfig⟩ := rendering_eq_ok_iff.1 h
  obtain ⟨bytes, hstat⟩ := Fleet.exists_stat_of_load hload
  have hstat' := hkeeps.stat_file (hreads _ .inventory) hstat
  have hlayers : ∀ i ∈ r.fleet.instances, ∀ layer ∈ i.runtime.configLayers,
      t'.isFile (p.directory.resolve (.ofString layer)) =
        t.isFile (p.directory.resolve (.ofString layer)) := by
    intro i hi layer hlayer
    exact hkeeps.isFile (hreads _ (.layer hi (List.mem_map_of_mem hlayer)))
  have hload' := Fleet.load_congr hload (hstat'.trans hstat.symm) hlayers
  have hconfig' : Gateway.resolve t' env r.target p = Gateway.resolve t env r.target p :=
    Gateway.resolve_congr fun l hl m hm => hkeeps.content? (hreads m (.included hl hm))
  exact rendering_eq_ok_iff.2 ⟨hload', hcomply, hfind, hconfig'.trans hconfig⟩

theorem exists_run_write {d : Location} (hps : r.policies = .ok ps) (stamp : Audit.Stamp)
    (instanceId : String) (hdir : Opens t p.directory d)
    (hdirectories : ∀ m ∈ (r.placement p).directories, Opens t m.toPath m)
    (hfree : ∀ l ∈ (r.placement p).artifacts, t.get? l ≠ some .directory ∧
      t.get? l.sibling ≠ some .directory)
    (hhome : t.get? (p.directory.locate.child ".fleetconf") = some .directory)
    (hlog : t.get? (Audit.logFor p.directory).locate ≠ some .directory) :
    ∃ t', Disk.run (r.write stamp p instanceId) t = (.ok (), t') := by
  have hready : ∀ l ∈ (r.placement p).artifacts, Ready t l := by
    intro l hl
    obtain ⟨role, _, hin⟩ := r.exists_inDirectory hl
    have hopens := hdirectories _ (Gateway.Placement.directoryOf_mem (r.placement p) role)
    exact ⟨⟨_, _, hin, hopens⟩, (hfree l hl).1, (hfree l hl).2⟩
  have hfiles : ∀ f ∈ r.files stamp.time p ps, Ready t f.1 :=
    fun f hf => hready f.1 (Rendering.mem_artifacts_of_mem_files hf)
  obtain ⟨u, hwritten⟩ := Gateway.exists_run_writeFiles hfiles
  have hreplaced := Gateway.writeFiles_eq_ok (fun f hf => (hfiles f hf).inDirectory) hwritten
  -- replacing files leaves the directories as they are, so the log is still within reach
  have hsame := hreplaced.directory_iff
  obtain ⟨t', hrecorded⟩ := Audit.exists_run_record (hdir.wider hreplaced.keeps.wider)
    ((hsame _).2 hhome) (fun hdirectory => hlog ((hsame _).1 hdirectory))
    (r.event stamp p instanceId)
  refine ⟨t', ?_⟩
  have hmade : Disk.run (Gateway.makeDirectories (r.placement p)) t = (.ok (), t) :=
    Gateway.forM_makeDirectories_of_opens hdirectories
  rw [write_eq hps, Disk.run_bind_of_ok hmade, Disk.run_bind_of_ok hwritten, hrecorded]

theorem Written.exists_run_write {stamp : Audit.Stamp}
    (h : Written r stamp p instanceId ps t t') (hps : r.policies = .ok ps) {d : Location}
    (hdir : Opens t' p.directory d) (again : Audit.Stamp) :
    ∃ t'', Disk.run (r.write again p instanceId) t' = (.ok (), t'') := by
  obtain ⟨u, v, -, -, -, hrecorded⟩ := h.steps
  refine Command.exists_run_write hps again instanceId hdir (fun m hm => h.opens hm) ?_
    hrecorded.directory ?_
  · intro l hl
    obtain ⟨f, hf, rfl⟩ := Rendering.exists_mem_contents stamp.time ps hl
    rw [h.content hf, h.cleared hl]
    exact ⟨nofun, nofun⟩
  · rw [hrecorded.content]
    exact nofun

/-- A render that writes to nothing it reads can be repeated, at any time and by anyone: the second
one gives the same answer and leaves both copies of the configuration and the policies as they
are. -/
theorem render_stable {s s' : Surroundings} {answer : Value} {inv : Inventory} {i : Instance}
    (hload : Fleet.load t p = .ok inv) (hfind : inv.find? instanceId = some i)
    (hrun : Disk.run (Command.run s p (.render instanceId false)) t = (.ok answer, t'))
    (hreads : ∀ l, Reads t p inv i l → l ∉ renderedLocations i p)
    (henvironment : s'.environment = s.environment) :
    ∃ t'', Disk.run (Command.run s' p (.render instanceId false)) t' = (.ok answer, t'') ∧
      ∀ l ∈ [(Placement.of i p).resolvedConfig, (Placement.of i p).mountedConfig,
        (Placement.of i p).effectivePolicy],
        ∃ bytes, t'.get? l = some (.file bytes) ∧ t''.get? l = some (.file bytes) := by
  cases hrendering : rendering t s.environment p instanceId with
  | error failure =>
    rw [run_render_error s false hrendering] at hrun
    cases hrun
  | ok r =>
    obtain ⟨hloaded, -, hfound, -⟩ := rendering_eq_ok_iff.1 hrendering
    obtain rfl : inv = r.fleet := Except.ok.inj (hload.symm.trans hloaded)
    obtain rfl : i = r.target := Option.some.inj (hfind.symm.trans hfound)
    obtain ⟨ps, hps⟩ := exists_policies hload (mem_of_find? hfind)
    obtain ⟨d, hdir⟩ := Fleet.exists_opens_of_load hload
    rw [run_render_ok s hrendering] at hrun
    obtain ⟨_, u, hwrite, hpure⟩ := Disk.run_bind_eq_ok hrun
    obtain ⟨hok, rfl⟩ := Prod.mk.inj hpure
    obtain rfl : r.answer p instanceId false = answer := Except.ok.inj hok
    have hfirst := write_eq_ok hps hdir hwrite
    have hrendering' := rendering_of_keeps hrendering hfirst.keeps hreads
    rw [← henvironment] at hrendering'
    have hdir' := hdir.wider hfirst.keeps.wider
    obtain ⟨t'', hwrite'⟩ := hfirst.exists_run_write hps hdir' s'.stamp
    have hsecond := write_eq_ok hps hdir' hwrite'
    refine ⟨t'', ?_, ?_⟩
    · rw [run_render_ok s' hrendering', Disk.run_bind_of_ok hwrite']
      rfl
    · intro l hl
      -- only the summary of a render tells when it was made
      obtain ⟨bytes, hmem⟩ : ∃ bytes, ∀ time,
          (l, bytes) ∈ Gateway.contents (r.files time p ps) := by
        simp only [List.mem_cons, List.not_mem_nil, or_false] at hl
        rcases hl with rfl | rfl | rfl
        · exact ⟨fileBytes r.config, fun time => .head _⟩
        · exact ⟨fileBytes r.config, fun time => .tail _ (.head _)⟩
        · exact ⟨fileBytes (.list (ps.map (·.toValue))),
            fun time => .tail _ (.tail _ (.tail _ (.head _)))⟩
      exact ⟨bytes, hfirst.content (hmem s.stamp.time), hsecond.content (hmem s'.stamp.time)⟩

def twinLayer : Location := ⟨true, ["l"]⟩

def twinSurroundings (second : Nat) : Surroundings :=
  ⟨fun _ => none, ⟨["", ""]⟩, ⟨⟨⟨2024, 1, 1⟩, second, false, 0⟩, "ada"⟩⟩

theorem readsAs_twin : Layer.ReadsAs twinTree twinLayer ⟨[], []⟩ := by
  have hread : Json.read "\x7b\x7d" = .ok (.mapping []) := by cbv
  exact .of_read (by rfl) hread rfl

theorem eq_of_reaches_twin {m : Location} (h : Layer.Reaches twinTree twinLayer m) :
    m = twinLayer := by
  rcases Relation.ReflTransGen.cases_head h with rfl | ⟨n, hn, -⟩
  · rfl
  · exact absurd ((Layer.includes_iff readsAs_twin).1 hn) List.not_mem_nil

theorem exists_rendering_twin (second : Nat) : ∃ r,
    rendering twinTree (twinSurroundings second).environment twinPath "b" = .ok r := by
  have hload : Layer.load twinTree twinLayer = .ok (.mapping []) := by
    rw [Layer.load, Layer.loadInto_layer List.not_mem_nil readsAs_twin]
    rfl
  have hassemble : Gateway.assemble twinTree twinB twinPath =
      .ok (.merge (.mapping []) (Gateway.overlay twinB (.of twinB twinPath))) := by
    have hlayers : Gateway.layerLocations twinB twinPath = [twinLayer] := rfl
    rw [Gateway.assemble, hlayers, Layer.loadAll, Outcome.mapM_cons_ok [] hload]
    rfl
  have hexpand : (Gateway.expand (fun _ => none)
      (.merge (.mapping []) (Gateway.overlay twinB (.of twinB twinPath)))).isOk = true := by
    decide +kernel
  obtain ⟨config, hconfig⟩ := Outcome.exists_eq_ok_of_isOk hexpand
  refine ⟨⟨twinFleet, twinB, config⟩, rendering_eq_ok_iff.2 ⟨load_twin, rfl, rfl, ?_⟩⟩
  rw [Gateway.resolve, hassemble]
  exact hconfig

theorem exists_run_render_twin (second : Nat) : ∃ answer t',
    Disk.run (Command.run (twinSurroundings second) twinPath (.render "b" false)) twinTree =
      (.ok answer, t') := by
  obtain ⟨r, hr⟩ := exists_rendering_twin second
  obtain ⟨hload, -, hfind, -⟩ := rendering_eq_ok_iff.1 hr
  obtain ⟨ps, hps⟩ := exists_policies hload (mem_of_find? hfind)
  obtain ⟨d, hdir⟩ := Fleet.exists_opens_of_load hload
  have hfleet : r.fleet = twinFleet := Except.ok.inj (hload.symm.trans load_twin)
  have htarget : twinB = r.target := by
    rw [hfleet] at hfind
    exact Option.some.inj hfind
  have hplacement : r.placement twinPath = .of twinB twinPath := by
    rw [Rendering.placement, htarget]
  obtain ⟨t', hwrite⟩ := exists_run_write hps (twinSurroundings second).stamp "b" hdir
    (by
      rw [hplacement]
      intro m hm
      simp only [Placement.directories, List.mem_cons, List.not_mem_nil, or_false] at hm
      rcases hm with rfl | rfl | rfl | rfl <;> exact ⟨rfl, rfl⟩)
    (by
      rw [hplacement]
      decide)
    rfl (by decide)
  rw [run_render_ok _ hr, Disk.run_bind_of_ok hwrite]
  exact ⟨_, _, rfl⟩

theorem not_mem_of_reads_twin {l : Location} (h : Reads twinTree twinPath twinFleet twinB l) :
    l ∉ renderedLocations twinB twinPath := by
  have hlayer : twinLayer ∉ renderedLocations twinB twinPath := by decide
  cases h with
  | inventory => decide
  | layer hj hl =>
    have hall : ∀ j ∈ twinFleet.instances, ∀ l ∈ Gateway.layerLocations j twinPath,
        l = twinLayer := by decide
    rw [hall _ hj _ hl]
    exact hlayer
  | included hl hm =>
    obtain rfl := List.mem_singleton.1 hl
    rw [eq_of_reaches_twin hm]
    exact hlayer

theorem render_stable_twin : ∃ answer t' t'',
    Disk.run (Command.run (twinSurroundings 0) twinPath (.render "b" false)) twinTree =
      (.ok answer, t') ∧
    Disk.run (Command.run (twinSurroundings 1) twinPath (.render "b" false)) t' =
      (.ok answer, t'') ∧
    ∃ bytes, t'.get? ⟨true, ["g", "gateway.json"]⟩ = some (.file bytes) ∧
      t''.get? ⟨true, ["g", "gateway.json"]⟩ = some (.file bytes) := by
  obtain ⟨answer, t', hrun⟩ := exists_run_render_twin 0
  have henvironment : (twinSurroundings 1).environment = (twinSurroundings 0).environment := rfl
  obtain ⟨t'', hagain, hsame⟩ := render_stable load_twin rfl hrun
    (fun l => not_mem_of_reads_twin) henvironment
  have hmounted : (Placement.of twinB twinPath).mountedConfig = ⟨true, ["g", "gateway.json"]⟩ := rfl
  rw [← hmounted]
  exact ⟨answer, t', t'', hrun, hagain, hsame _ (.tail _ (.head _))⟩

end GatewayFleet.Command
