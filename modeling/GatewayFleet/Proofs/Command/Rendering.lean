import GatewayFleet.Command.Run
import GatewayFleet.Proofs.Audit.Recording
import GatewayFleet.Proofs.Fleet.Loading
import GatewayFleet.Proofs.Fleet.Soundness
import GatewayFleet.Proofs.Gateway.Artifacts
import GatewayFleet.Proofs.Json.Indentation
import GatewayFleet.Proofs.Policy.Layering

/-! Rendering an instance. All that can be wrong with an inventory or a configuration shows before
anything is written, since the policies of an admitted fleet always exist. What is written is the
files of the instance, their temporary siblings and the log. -/

namespace GatewayFleet.Command

open Disk (Confined)
open Fleet (Instance Inventory)
open Gateway (Placement fileBytes)
open GatewayFleet.Tree (Keeps Opens ReplacedAll Separate)
open Audit (Recorded Stamp)

variable {t t' : Tree} {p : Path} {instanceId : String} {env : Gateway.Environment}
  {r : Rendering} {ps : List Policy.Summary} {l : Location}

theorem rendering_eq_ok_iff :
    rendering t env p instanceId = .ok r ↔
      Fleet.load t p = .ok r.fleet ∧ r.fleet.comply = .ok () ∧
        r.fleet.find? instanceId = some r.target ∧
        Gateway.resolve t env r.target p = .ok r.config := by
  constructor
  · intro h
    obtain ⟨inv, hcompliant, h⟩ := Outcome.bind_eq_ok h
    obtain ⟨hload, hcomply⟩ := Fleet.loadCompliant_eq_ok_iff.1 hcompliant
    obtain ⟨i, hi, h⟩ := Outcome.bind_eq_ok h
    obtain ⟨config, hconfig, h⟩ := Outcome.bind_eq_ok h
    obtain rfl := Except.ok.inj h
    exact ⟨hload, hcomply, Inventory.instance?_eq_ok_iff.1 hi, hconfig⟩
  · rintro ⟨hload, hcomply, hi, hconfig⟩
    have hi := Inventory.instance?_eq_ok_iff.2 hi
    simp only [rendering, Fleet.loadCompliant, hload, hcomply, hi, hconfig, bind, Except.bind,
      pure, Except.pure]

theorem mem_of_find? {inv : Inventory} {i : Instance} (h : inv.find? instanceId = some i) :
    i ∈ inv.instances := List.mem_of_find?_eq_some h

theorem exists_policies (hload : Fleet.load t p = .ok r.fleet)
    (hi : r.target ∈ r.fleet.instances) : ∃ ps, r.policies = .ok ps := by
  obtain ⟨v, -, hv⟩ := Outcome.bind_eq_ok hload
  obtain ⟨fs, -, hwritten, -, -⟩ := Fleet.ofValue?_eq_ok_iff.1 (Outcome.mapError_eq_ok hv)
  have hall : ∀ agent ∈ none :: r.target.agents.map some,
      ∃ summary, r.fleet.policySummary? r.target agent = .ok summary := by
    intro agent hagent
    have hmem : ∀ a ∈ agent, a ∈ r.target.agents := by
      rintro a rfl
      simpa using hagent
    refine ⟨⟨r.target.scope agent, Policy.layered (r.fleet.scopes r.target agent)⟩, ?_⟩
    rw [Inventory.policySummary?, hwritten.canonical.policy?_eq hi hmem]
    rfl
  obtain ⟨ps, hps⟩ := Outcome.exists_mapM_eq_ok_iff.2 hall
  exact ⟨ps, by rw [Rendering.policies, Inventory.policySummaries?, hps]; rfl⟩

def Rendering.files (r : Rendering) (time : Audit.Timestamp) (p : Path)
    (ps : List Policy.Summary) : List (Location × Value) :=
  [((r.placement p).resolvedConfig, r.config), ((r.placement p).mountedConfig, r.config),
    ((r.placement p).renderSummary, Gateway.Summary.toValue (r.placement p).id time r.counts),
    ((r.placement p).effectivePolicy, .list (ps.map (·.toValue)))]

def Rendering.event (r : Rendering) (stamp : Stamp) (p : Path) (instanceId : String) :
    Audit.Event :=
  stamp.event .render instanceId
    [("generated_path", .string (r.placement p).resolvedConfig.toString),
      ("agents", .ofNat r.counts.agents), ("bindings", .ofNat r.counts.bindings)]

def renderedLocations (i : Instance) (p : Path) : List Location :=
  (Placement.of i p).artifacts ++ (Placement.of i p).artifacts.map Location.sibling ++
    [(Audit.logFor p.directory).locate]

theorem Rendering.map_fst_files (r : Rendering) (time : Audit.Timestamp) (p : Path)
    (ps : List Policy.Summary) :
    (r.files time p ps).map Prod.fst = (Placement.of r.target p).artifacts := rfl

theorem Rendering.mem_artifacts_of_mem_files {time : Audit.Timestamp} {f : Location × Value}
    (hf : f ∈ r.files time p ps) : f.1 ∈ (Placement.of r.target p).artifacts := by
  rw [← r.map_fst_files time p ps]
  exact List.mem_map_of_mem hf

theorem Rendering.mem_artifacts_of_mem_contents {time : Audit.Timestamp}
    {f : Location × ByteArray} (hf : f ∈ Gateway.contents (r.files time p ps)) :
    f.1 ∈ (Placement.of r.target p).artifacts := List.mem_map_of_mem (f := Prod.fst) hf

theorem Rendering.exists_mem_contents (time : Audit.Timestamp) (ps : List Policy.Summary)
    (hl : l ∈ (Placement.of r.target p).artifacts) :
    ∃ f ∈ Gateway.contents (r.files time p ps), f.1 = l := List.mem_map.1 hl

theorem Rendering.exists_inDirectory (r : Rendering)
    (hl : l ∈ (Placement.of r.target p).artifacts) :
    ∃ role s, l.InDirectory ((r.placement p).directoryOf role) s := by
  obtain ⟨a, -, hin⟩ := Placement.exists_inDirectory (Placement.canonical_of r.target p) hl
  exact ⟨a.1, a.2, hin⟩

theorem write_eq (hps : r.policies = .ok ps) (stamp : Stamp) (p : Path) (instanceId : String) :
    r.write stamp p instanceId =
      (do Gateway.makeDirectories (r.placement p)
          Gateway.writeFiles (r.files stamp.time p ps)
          Audit.record p.directory (r.event stamp p instanceId)) := by
  have hask : (Disk.ask fun _ => r.policies) = (pure ps : Disk (List Policy.Summary)) := by
    rw [hps]
    rfl
  unfold Rendering.write
  simp only [hask, pure_bind, bind_assoc, Gateway.writeFiles, Rendering.files, Disk.forM_cons,
    Disk.forM_nil, Gateway.writeConfiguration, Gateway.writeSummary, Gateway.writePolicies,
    Rendering.event]

def fileLocations (i : Instance) (p : Path) : List Location :=
  (Placement.of i p).artifacts ++ (Placement.of i p).artifacts.map Location.sibling

theorem confined_makeDirectories (r : Rendering) (p : Path) :
    Confined [] (Gateway.makeDirectories (r.placement p)) :=
  Disk.confined_forM fun d _ => Disk.confined_makeDirectories .createDirectory d.toPath

theorem confined_writeFiles (r : Rendering) (time : Audit.Timestamp) (p : Path)
    (ps : List Policy.Summary) :
    Confined (fileLocations r.target p) (Gateway.writeFiles (r.files time p ps)) := by
  refine Disk.confined_forM fun f hf => ?_
  have hmem := Rendering.mem_artifacts_of_mem_files hf
  obtain ⟨_, _, hin⟩ := r.exists_inDirectory hmem
  refine (Gateway.confined_writeValue hin f.2).mono fun l hl => ?_
  rw [List.mem_cons, List.mem_singleton] at hl
  rcases hl with rfl | rfl
  · exact List.mem_append_left _ hmem
  · exact List.mem_append_right _ (List.mem_map_of_mem hmem)

theorem confined_write (hps : r.policies = .ok ps) (stamp : Stamp) (p : Path)
    (instanceId : String) :
    Confined (renderedLocations r.target p) (r.write stamp p instanceId) := by
  rw [write_eq hps]
  have hdirectories := confined_makeDirectories r p
  have hfiles := confined_writeFiles r stamp.time p ps
  have hrecord := Audit.confined_record p.directory (r.event stamp p instanceId)
  refine (hdirectories.mono (List.nil_subset _)).bind fun _ => ?_
  refine (hfiles.mono (List.subset_append_left _ _)).bind fun _ => ?_
  exact hrecord.mono (List.subset_append_right _ _)

theorem artifact_ne_log {i : Instance} (hl : l ∈ (Placement.of i p).artifacts) :
    l ≠ (Audit.logFor p.directory).locate := by
  rw [Audit.locate_logFor]
  exact Gateway.Placement.ne_child_of_mem (by decide) hl

theorem artifact_ne_logDirectory {i : Instance} (hl : l ∈ (Placement.of i p).artifacts) :
    l ≠ p.directory.locate.child ".fleetconf" :=
  Gateway.Placement.ne_child_of_mem (by decide) hl

theorem sibling_ne_child {m : Location} {s : String} (hs : ∀ x, Path.siblingName x ≠ s) :
    l.sibling ≠ m.child s := Location.child_ne (hs _)

theorem siblingName_ne_log (s : String) : Path.siblingName s ≠ "events.ndjson" := by
  intro h
  have hhead := congrArg (fun x : String => x.toList.head?) h
  simp [Path.toList_siblingName] at hhead

theorem separate_files (r : Rendering) (time : Audit.Timestamp) (p : Path)
    (ps : List Policy.Summary) : Separate (Gateway.contents (r.files time p ps)) where
  nodup := Gateway.Placement.artifacts_nodup (Placement.of r.target p)
  siblings _ hf _ hg := Gateway.Placement.ne_sibling_of_mem
    (Rendering.mem_artifacts_of_mem_contents hf) (Rendering.mem_artifacts_of_mem_contents hg)

/-- A render that gets through: the directories first, then the files, then the log. -/
structure Written (r : Rendering) (stamp : Stamp) (p : Path) (instanceId : String)
    (ps : List Policy.Summary) (t t' : Tree) : Prop where
  steps : ∃ u v, Keeps [] t u ∧ ReplacedAll (Gateway.contents (r.files stamp.time p ps)) u v ∧
    (∀ d ∈ (r.placement p).directories, Opens u d.toPath d) ∧
    Recorded (p.directory.locate.child ".fleetconf") (Audit.logFor p.directory).locate
      ((r.event stamp p instanceId).line ++ "\n").toUTF8 v t'
  keeps : Keeps (renderedLocations r.target p) t t'

theorem write_eq_ok {stamp : Stamp} {d : Location} (hps : r.policies = .ok ps)
    (hdir : Opens t p.directory d)
    (hrun : Disk.run (r.write stamp p instanceId) t = (.ok (), t')) :
    Written r stamp p instanceId ps t t' := by
  have hkeeps := (confined_write hps stamp p instanceId).keeps t
  rw [hrun] at hkeeps
  refine ⟨?_, hkeeps⟩
  rw [write_eq hps] at hrun
  obtain ⟨_, u, hmade, hrun⟩ := Disk.run_bind_eq_ok hrun
  obtain ⟨_, v, hwritten, hrecord⟩ := Disk.run_bind_eq_ok hrun
  have hcanonical := Gateway.Placement.canonical_of r.target p
  obtain ⟨hnew, hopens⟩ := Gateway.forM_makeDirectories_eq_ok hcanonical hmade
  have hreplaced : ReplacedAll (Gateway.contents (r.files stamp.time p ps)) u v := by
    refine Gateway.writeFiles_eq_ok (fun f hf => ?_) hwritten
    obtain ⟨_, _, hin⟩ := r.exists_inDirectory (Rendering.mem_artifacts_of_mem_files hf)
    exact ⟨_, _, hin, hopens _ (Gateway.Placement.directoryOf_mem _ _)⟩
  have hdir' := (hdir.wider hnew.wider).wider hreplaced.keeps.wider
  exact ⟨u, v, hnew, hreplaced, hopens, Audit.record_eq_ok hdir' hrecord⟩

namespace Written

variable {stamp : Stamp} {f : Location × ByteArray}

theorem content (h : Written r stamp p instanceId ps t t')
    (hf : f ∈ Gateway.contents (r.files stamp.time p ps)) : t'.get? f.1 = some (.file f.2) := by
  obtain ⟨u, v, -, hreplaced, -, hrecorded⟩ := h.steps
  have hmem := Rendering.mem_artifacts_of_mem_contents hf
  rw [hrecorded.others f.1 (artifact_ne_logDirectory hmem) (artifact_ne_log hmem)]
  exact hreplaced.content (separate_files r stamp.time p ps) hf

theorem cleared (h : Written r stamp p instanceId ps t t')
    (hl : l ∈ (Placement.of r.target p).artifacts) : t'.get? l.sibling = none := by
  obtain ⟨u, v, -, hreplaced, -, hrecorded⟩ := h.steps
  obtain ⟨f, hf, rfl⟩ := Rendering.exists_mem_contents stamp.time ps hl
  have hlog : f.1.sibling ≠ (Audit.logFor p.directory).locate := by
    rw [Audit.locate_logFor]
    exact sibling_ne_child siblingName_ne_log
  have hhome : f.1.sibling ≠ p.directory.locate.child ".fleetconf" :=
    sibling_ne_child Audit.siblingName_ne_logDirectory
  rw [hrecorded.others _ hhome hlog]
  exact hreplaced.cleared (separate_files r stamp.time p ps) hf

theorem opens (h : Written r stamp p instanceId ps t t') {d : Location}
    (hd : d ∈ (r.placement p).directories) : Opens t' d.toPath d := by
  obtain ⟨u, v, -, hreplaced, hopens, hrecorded⟩ := h.steps
  exact ((hopens d hd).wider hreplaced.keeps.wider).wider hrecorded.wider

theorem stat (h : Written r stamp p instanceId ps t t')
    (hf : f ∈ Gateway.contents (r.files stamp.time p ps)) :
    t'.stat f.1.toPath = .ok (.file f.2) := by
  obtain ⟨role, s, hin⟩ := r.exists_inDirectory (Rendering.mem_artifacts_of_mem_contents hf)
  have hopens := h.opens (Gateway.Placement.directoryOf_mem (r.placement p) role)
  have hentry := hin.plain.entry ((r.placement p).directoryOf role)
  refine Tree.stat_of_names hin.sits.names hopens hentry ?_
  rw [← hin.eq]
  exact h.content hf

end Written

theorem run_render_dry (s : Surroundings) (p : Path) (instanceId : String) (t : Tree) :
    (Disk.run (Command.run s p (.render instanceId true)) t).2 = t := by
  change (Disk.run (runRender s p instanceId true) t).2 = t
  unfold runRender
  rw [Disk.run_bind, Disk.run_ask]
  cases rendering t s.environment p instanceId <;> rfl

theorem run_render_error {failure : Failure} (s : Surroundings) (dryRun : Bool)
    (h : rendering t s.environment p instanceId = .error failure) :
    Disk.run (Command.run s p (.render instanceId dryRun)) t = (.error failure, t) := by
  refine Disk.run_bind_of_error ?_
  rw [Disk.run_ask, h]

theorem run_render_ok (s : Surroundings) (h : rendering t s.environment p instanceId = .ok r) :
    Disk.run (Command.run s p (.render instanceId false)) t =
      Disk.run (r.write s.stamp p instanceId >>= fun _ =>
        pure (r.answer p instanceId false)) t := by
  refine Disk.run_bind_of_ok ?_
  rw [Disk.run_ask, h]

/-- Both copies of the configuration are in place, their text is read back as the configuration,
and nothing but the files of the instance, the log and what is temporary has changed. -/
structure Rendered (r : Rendering) (p : Path) (t t' : Tree) : Prop where
  resolved : t'.stat (r.placement p).resolvedConfig.toPath = .ok (.file (fileBytes r.config))
  mounted : t'.stat (r.placement p).mountedConfig.toPath = .ok (.file (fileBytes r.config))
  legible : ∃ text, fileBytes r.config = text.toUTF8 ∧ text.toList.getLast? = some '\n' ∧
    (Json.Exact Json.maxDepth r.config → Json.read text = .ok r.config)
  cleared : ∀ l ∈ (r.placement p).artifacts, t'.get? l.sibling = none
  keeps : Keeps (renderedLocations r.target p) t t'

theorem Written.rendered {stamp : Stamp} (h : Written r stamp p instanceId ps t t') :
    Rendered r p t t' where
  resolved := h.stat (f := (_, fileBytes r.config)) List.mem_cons_self
  mounted := h.stat (f := (_, fileBytes r.config)) (List.mem_cons_of_mem _ List.mem_cons_self)
  legible := ⟨Json.pretty r.config, rfl, Json.getLast?_pretty _, Json.Exact.read_pretty⟩
  cleared _ hl := h.cleared hl
  keeps := h.keeps

/-- A dry run changes nothing, and neither does a render that fails for another reason than that
the system refuses a step. A render that succeeds leaves two equal copies of the configuration as it
was resolved before, and changes no other file than those of the instance and the log. -/
theorem render_allOrNothing (s : Surroundings) (t : Tree) (p : Path) (instanceId : String) :
    (Disk.run (Command.run s p (.render instanceId true)) t).2 = t ∧
    match Disk.run (Command.run s p (.render instanceId false)) t with
    | (.error failure, t') => failure.category ≠ .io → t' = t
    | (.ok _, t') => ∃ r : Rendering, Fleet.load t p = .ok r.fleet ∧
        r.fleet.find? instanceId = some r.target ∧
        Gateway.resolve t s.environment r.target p = .ok r.config ∧ Rendered r p t t' := by
  refine ⟨run_render_dry s p instanceId t, ?_⟩
  cases hrendering : rendering t s.environment p instanceId with
  | error failure =>
    rw [run_render_error s false hrendering]
    exact fun _ => rfl
  | ok r =>
    obtain ⟨hload, -, hfind, hconfig⟩ := rendering_eq_ok_iff.1 hrendering
    obtain ⟨ps, hps⟩ := exists_policies hload (mem_of_find? hfind)
    obtain ⟨d, hdir⟩ := Fleet.exists_opens_of_load hload
    rw [run_render_ok s hrendering, Disk.run_bind]
    rcases hwrite : Disk.run (r.write s.stamp p instanceId) t with ⟨outcome, u⟩
    cases outcome with
    | error failure =>
      have hio := (confined_write hps s.stamp p instanceId).io t failure (congrArg Prod.fst hwrite)
      exact fun hlogical => absurd hio hlogical
    | ok _ => exact ⟨r, hload, hfind, hconfig, (write_eq_ok hps hdir hwrite).rendered⟩

theorem find?_of_mem {inv : Inventory} {i : Instance} (hids : (inv.instances.map (·.id)).Nodup)
    (hi : i ∈ inv.instances) : inv.find? i.id = some i := by
  obtain ⟨before, after, hsplit⟩ := List.append_of_mem hi
  rw [hsplit, List.map_append, List.map_cons] at hids
  refine List.find?_eq_some_iff_append.2 ⟨by simp, before, after, hsplit, fun j hj => ?_⟩
  have hne : j.id ≠ i.id := by
    have hdisjoint := (List.nodup_append.1 hids).2.2
    exact hdisjoint _ (List.mem_map_of_mem hj) _ List.mem_cons_self
  simpa using hne

theorem keeps_render (s : Surroundings) (dryRun : Bool) {inv : Inventory} {i : Instance}
    (hload : Fleet.load t p = .ok inv) (hfind : inv.find? instanceId = some i) :
    Keeps (renderedLocations i p) t
      (Disk.run (Command.run s p (.render instanceId dryRun)) t).2 := by
  cases dryRun with
  | true =>
    rw [run_render_dry]
    exact .refl _ t
  | false =>
    cases hrendering : rendering t s.environment p instanceId with
    | error failure =>
      rw [run_render_error s false hrendering]
      exact .refl _ t
    | ok r =>
      obtain ⟨hloaded, -, hfound, -⟩ := rendering_eq_ok_iff.1 hrendering
      obtain ⟨ps, hps⟩ := exists_policies hloaded (mem_of_find? hfound)
      obtain rfl : inv = r.fleet := Except.ok.inj (hload.symm.trans hloaded)
      obtain rfl : i = r.target := Option.some.inj (hfind.symm.trans hfound)
      rw [run_render_ok s hrendering]
      have hconfined := (confined_write hps s.stamp p instanceId).bind fun _ =>
        Disk.confined_pure _ (r.answer p instanceId false)
      exact hconfined.keeps t

end GatewayFleet.Command
