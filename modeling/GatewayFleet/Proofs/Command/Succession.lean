import GatewayFleet.Proofs.Command.Mutation
import GatewayFleet.Proofs.Fleet.Alteration

/-! Changes of agents one after the other. As long as what is written is read back, every change
that succeeds leaves an admitted and compliant inventory in the file, which differs from the one
before in the one agent and its accounts. -/

namespace GatewayFleet.Command

open Fleet (Inventory)

variable {t t' : Tree} {p : Path} {instanceId : String} {c : AgentChange}

structure Request where
  surroundings : Surroundings
  instanceId : String
  change : AgentChange

namespace Request

def run (r : Request) (p : Path) (t : Tree) : Except Failure Value × Tree :=
  Disk.run (Command.run r.surroundings p (r.change.command r.instanceId)) t

def runAll (p : Path) (t : Tree) (rs : List Request) : Tree :=
  rs.foldl (fun t r => (r.run p t).2) t

theorem runAll_cons (p : Path) (t : Tree) (r : Request) (rs : List Request) :
    runAll p t (r :: rs) = runAll p (r.run p t).2 rs := rfl

def Rereads (r : Request) (p : Path) (t : Tree) : Prop :=
  ∀ again, LeadsTo t p r.instanceId r.change again →
    Yaml.read (Yaml.write again.toValue) = some again.toValue

/-- If the request succeeds, its result is admitted and complies, and it is the inventory before it
with what was asked for. -/
def Persists (r : Request) (p : Path) (t : Tree) : Prop :=
  ∀ answer t', r.run p t = (.ok answer, t') → ∃ inv inv', Fleet.load t p = .ok inv ∧
    inv.Altered r.instanceId r.change.operation inv' ∧ Fleet.loadCompliant t' p = .ok inv'

end Request

/-- No layer of the inventory in the file is the temporary sibling of the file. -/
def LayersApart (t : Tree) (p : Path) : Prop :=
  ∀ inv, Fleet.load t p = .ok inv → ∀ i ∈ inv.instances, ∀ layer ∈ i.runtime.configLayers,
    p.directory.resolve (.ofString layer) ≠ p.locate.sibling

theorem mem_endLine {x : Char} {line : List Char} (h : x ∈ line) : x ∈ Yaml.endLine line := by
  unfold Yaml.endLine
  split
  · exact h
  · exact List.mem_append_left _ h

theorem not_isAllBlank_write (inv : Inventory) :
    Text.isAllBlank (Yaml.write inv.toValue) = false := by
  have hmem : ':' ∈ (Yaml.write inv.toValue).toList := by
    rw [Yaml.write, String.toList_ofList]
    obtain ⟨rest, hfields⟩ : ∃ rest, inv.toFields = ("version", .ofNat inv.version) :: rest :=
      ⟨_, rfl⟩
    have hsimple : Yaml.isSimpleName "version" = true := by decide
    rw [Inventory.toValue, hfields, Yaml.lines, if_neg (by simp), Yaml.fieldLines, if_pos hsimple]
    refine List.mem_append_left _ ?_
    rw [Value.ofNat, Yaml.memberLines]
    · refine mem_endLine (List.mem_append_left _ ?_)
      simp
    · intro _ h
      cases h
    · intro _ h
      cases h
  rw [Text.isAllBlank, List.all_eq_false]
  exact ⟨':', hmem, by decide⟩

theorem document?_write {inv : Inventory}
    (h : Yaml.read (Yaml.write inv.toValue) = some inv.toValue) :
    Fleet.document? (Yaml.write inv.toValue) = some inv.toValue := by
  unfold Fleet.document?
  rw [not_isAllBlank_write, h]
  rfl

theorem readDocument_of_stat {inv : Inventory}
    (hstat : t.stat p = .ok (.file (inventoryBytes inv)))
    (h : Yaml.read (Yaml.write inv.toValue) = some inv.toValue) :
    Fleet.readDocument t p = .ok inv.toValue :=
  Fleet.readDocument_of_stat hstat (document?_write h)

theorem AgentChange.adjusts {i j : Fleet.Instance} (h : c.operation.Effect i j) :
    c.operation.Adjusts i j := by
  cases c with
  | add spec => exact h.adjusts_add
  | remove agentId prune => exact h.adjusts_remove

theorem LeadsTo.altered {again : Inventory} (h : LeadsTo t p instanceId c again) :
    ∃ inv, Fleet.load t p = .ok inv ∧ inv.Altered instanceId c.operation again := by
  obtain ⟨inv, i, new, hload, hfind, hop, rfl⟩ := h.changed
  have heffect := Fleet.Operation.apply_eq_ok_iff.1 hop
  exact ⟨inv, hload, Inventory.altered_setInstance hfind (AgentChange.adjusts heffect)⟩

theorem LeadsTo.layersApart {again : Inventory} (h : LeadsTo t p instanceId c again)
    (hlayers : LayersApart t p) : ∀ i ∈ again.instances, ∀ layer ∈ i.runtime.configLayers,
      p.directory.resolve (.ofString layer) ≠ p.locate.sibling := by
  obtain ⟨inv, hload, haltered⟩ := h.altered
  intro j hj
  obtain ⟨i, hi, hruntime⟩ := haltered.runtime j hj
  rw [← hruntime]
  exact hlayers inv hload i hi

theorem Persisted.isFile {again : Inventory} {e : Audit.Event} {l : Location}
    (h : Persisted p again e t t') (hl : t.isFile l = true) (hne : l ≠ p.locate.sibling) :
    t'.isFile l = true := by
  have hfile {bytes : ByteArray} {l : Location} (hcontent : t'.content? l = some bytes) :
      t'.isFile l = true := by
    rw [Tree.isFile, hcontent]
    rfl
  by_cases hinventory : l = p.locate
  · obtain ⟨-, m, hwalk, hget⟩ := Tree.stat_eq_ok.1 h.inventory
    obtain rfl := Tree.eq_locate_of_walk hwalk
    subst hinventory
    exact hfile (Tree.content?_eq_some_iff.2 hget)
  by_cases hlog : l = (Audit.logFor p.directory).locate
  · subst hlog
    exact hfile h.recorded
  have hhome : l ≠ (Audit.logFor p.directory).locate.directory := by
    rintro rfl
    obtain ⟨bytes, hbytes⟩ := Option.isSome_iff_exists.1 hl
    have hget := Tree.content?_eq_some_iff.1 hbytes
    rcases h.logDirectoryBefore with hdirectory | hnone
    · cases hdirectory.symm.trans hget
    · cases hnone.symm.trans hget
  rw [Tree.isFile, Tree.content?_congr (h.others l hinventory hne hlog hhome)]
  exact hl

theorem load_of_persisted {again : Inventory} {e : Audit.Event}
    (hleads : LeadsTo t p instanceId c again) (h : Persisted p again e t t')
    (hyaml : Yaml.read (Yaml.write again.toValue) = some again.toValue)
    (hlayers : LayersApart t p) : Fleet.load t' p = .ok again := by
  obtain ⟨fs, hfs, hwritten, hpresent, hfree⟩ :=
    Fleet.ofValue?_eq_ok_iff.1 (Outcome.mapError_eq_ok hleads.accepted)
  refine Fleet.load_of_ofValue? (readDocument_of_stat h.inventory hyaml) ?_
  refine Fleet.ofValue?_eq_ok_iff.2 ⟨fs, hfs, hwritten, ?_, hfree⟩
  intro i hi layer hlayer
  exact h.isFile (hpresent i hi layer hlayer) (hleads.layersApart hlayers i hi layer hlayer)

theorem Request.persists {r : Request} {text : String} (hyaml : r.Rereads (.ofString text) t)
    (hlayers : LayersApart t (.ofString text)) : r.Persists (.ofString text) t := by
  intro answer t' hrun
  obtain ⟨again, hleads, hpersisted⟩ := exists_persisted_of_run r.surroundings text hrun
  obtain ⟨inv, hload, haltered⟩ := hleads.altered
  have hagain := load_of_persisted hleads hpersisted (hyaml again hleads) hlayers
  exact ⟨inv, again, hload, haltered, Fleet.loadCompliant_eq_ok_iff.2 ⟨hagain, hleads.complies⟩⟩

theorem eq_of_load {inv inv' : Inventory} (h : Fleet.load t p = .ok inv)
    (h' : Fleet.load t' p = .ok inv')
    (hread : Fleet.readDocument t' p = Fleet.readDocument t p) : inv' = inv := by
  obtain ⟨v, hv, haccept⟩ := Outcome.bind_eq_ok h
  obtain ⟨v', hv', haccept'⟩ := Outcome.bind_eq_ok h'
  obtain rfl : v' = v := Except.ok.inj (hv'.symm.trans (hread.trans hv))
  obtain ⟨fs, rfl, hwritten, -, -⟩ := Fleet.ofValue?_eq_ok_iff.1 (Outcome.mapError_eq_ok haccept)
  obtain ⟨gs, hgs, hwritten', -, -⟩ :=
    Fleet.ofValue?_eq_ok_iff.1 (Outcome.mapError_eq_ok haccept')
  obtain rfl := Value.mapping.inj hgs
  exact hwritten'.unique hwritten

theorem LeadsTo.eq_of_load {again inv' : Inventory} (h : LeadsTo t p instanceId c again)
    (hload : Fleet.load t' p = .ok inv') (hread : Fleet.readDocument t' p = .ok again.toValue) :
    inv' = again := by
  obtain ⟨v, hv, haccept⟩ := Outcome.bind_eq_ok hload
  obtain rfl : again.toValue = v := Except.ok.inj (hread.symm.trans hv)
  obtain ⟨fs, -, hwritten, -, -⟩ :=
    Fleet.ofValue?_eq_ok_iff.1 (Outcome.mapError_eq_ok h.accepted)
  exact hwritten.canonical.eq_of_ofValue? (Outcome.mapError_eq_ok haccept)

theorem Request.layersApart {r : Request} {text : String} (hyaml : r.Rereads (.ofString text) t)
    (hlayers : LayersApart t (.ofString text)) :
    LayersApart (r.run (.ofString text) t).2 (.ofString text) := by
  intro inv' hload'
  rw [Request.run] at hload'
  rcases run_change_cases r.surroundings t text r.instanceId r.change with
    ⟨failure, herror⟩ | ⟨⟨found, hfound⟩, hwhole⟩
  · rw [herror] at hload'
    exact hlayers inv' hload'
  rcases hrun : Disk.run (Command.run r.surroundings (.ofString text)
    (r.change.command r.instanceId)) t with ⟨outcome, t'⟩
  rw [hrun] at hload' hwhole
  cases outcome with
  | ok answer =>
    obtain ⟨again, hleads, hpersisted⟩ := hwhole
    have hagain := load_of_persisted hleads hpersisted (hyaml again hleads) hlayers
    obtain rfl := Except.ok.inj (hagain.symm.trans hload')
    exact hleads.layersApart hlayers
  | error failure =>
    -- the file holds the old document or the whole new one
    obtain ⟨-, hsame | ⟨again, hleads, hnew⟩⟩ := hwhole
    · obtain ⟨inv, hload, -⟩ := hfound.altered
      obtain rfl := eq_of_load hload hload' (Fleet.readDocument_congr hsame)
      exact hlayers inv' hload
    · obtain rfl := hleads.eq_of_load hload' (readDocument_of_stat hnew (hyaml again hleads))
      exact hleads.layersApart hlayers

theorem layersApart_runAll {text : String} {rs : List Request}
    (hyaml : ∀ past r, past ++ [r] <+: rs →
      r.Rereads (.ofString text) (Request.runAll (.ofString text) t past))
    (hlayers : LayersApart t (.ofString text)) :
    LayersApart (Request.runAll (.ofString text) t rs) (.ofString text) := by
  induction rs generalizing t with
  | nil => exact hlayers
  | cons r rs ih =>
    have hfirst : r.Rereads (.ofString text) t :=
      hyaml [] r (List.cons_prefix_cons.2 ⟨rfl, List.nil_prefix⟩)
    refine ih (fun past q hpast => ?_) (Request.layersApart hfirst hlayers)
    exact hyaml (r :: past) q (List.cons_prefix_cons.2 ⟨rfl, hpast⟩)

/-- In a run of requests from any tree, each one that succeeds leaves an admitted and compliant
inventory in the file, altered as it asked for. -/
theorem changes_persist (t : Tree) (text : String) (rs : List Request)
    (hyaml : ∀ past r, past ++ [r] <+: rs →
      r.Rereads (.ofString text) (Request.runAll (.ofString text) t past))
    (hlayers : LayersApart t (.ofString text)) :
    ∀ past r, past ++ [r] <+: rs →
      r.Persists (.ofString text) (Request.runAll (.ofString text) t past) := by
  intro past r hpast
  refine Request.persists (hyaml past r hpast) (layersApart_runAll ?_ hlayers)
  intro earlier q hearlier
  exact hyaml earlier q (hearlier.trans ((List.prefix_append past [r]).trans hpast))

def twinStaffed : Fleet.Instance :=
  { twinB with
    agents := [{
      id := "n", role := .human, workspace := some "n", agentDir := some "agents/n",
      bindings := [Fleet.Binding.of "chat" "me"], integrations := ["chat"],
      skillSources := some ["workspace"] }]
    channels := [("chat", { accounts := [("me", .empty)] })] }

/-- The second instance when the agent has gone, with a channel without accounts. -/
def twinDismissed : Fleet.Instance := { twinB with channels := [("chat", {})] }

def twinGrown : Inventory := twinFleet.setInstance "b" twinStaffed

def twinShrunk : Inventory := twinFleet.setInstance "b" twinDismissed

def twinRequest : Request :=
  ⟨⟨fun _ => none, ⟨["", ""]⟩, ⟨⟨⟨2024, 1, 1⟩, 0, false, 0⟩, "ada"⟩⟩, "b", twinChange⟩

def twinDismissal : Request := { twinRequest with change := .remove "n" true }

theorem apply_twin : twinChange.operation.apply twinB = .ok twinStaffed := by
  rfl

theorem apply_dismissal : twinDismissal.change.operation.apply twinStaffed = .ok twinDismissed := by
  rfl

def twinLines : List String :=
  ["version: 1", "instances:", "- id: a", "  host:", "    gateway_port: 9", "  paths:",
    "    config_dir: c", "    state_dir: s", "    workspace_root: w", "    generated_dir: g",
    "  runtime:", "    config_layers:", "    - l", "  agents: []", "- id: b", "  host:",
    "    gateway_port: 99", "  paths:", "    config_dir: g", "    state_dir: t",
    "    workspace_root: x", "    generated_dir: c", "  runtime:", "    config_layers:",
    "    - l"]

def linesText (lines : List String) : List Char := lines.flatMap fun line => line.toList ++ ['\n']

def grownText : List Char := linesText (twinLines ++
  ["  agents:", "  - id: n", "    role: human", "    workspace: n",
    "    agent_dir: agents/n", "    bindings:", "    - match:", "        channel: chat",
    "        accountId: me", "    integrations:", "    - chat", "    skill_sources:",
    "    - workspace", "  channels:", "    chat:", "      accounts:", "        me: {}"])

def shrunkText : List Char := linesText (twinLines ++
  ["  agents: []", "  channels:", "    chat: {}"])

set_option maxRecDepth 100000 in
theorem lines_twinGrown : Yaml.lines [] 0 twinGrown.toValue = grownText := by
  decide +kernel

set_option maxRecDepth 100000 in
theorem lines_twinShrunk : Yaml.lines [] 0 twinShrunk.toValue = shrunkText := by
  decide +kernel

-- the characters are looked at one by one, and never as the bytes of a text
set_option maxRecDepth 100000 in
theorem read_grownText : Yaml.read (String.ofList grownText) = some twinGrown.toValue := by
  unfold Yaml.read Yaml.tokens? Yaml.glyphs
  rw [String.toList_ofList]
  decide +kernel

set_option maxRecDepth 100000 in
theorem read_shrunkText : Yaml.read (String.ofList shrunkText) = some twinShrunk.toValue := by
  unfold Yaml.read Yaml.tokens? Yaml.glyphs
  rw [String.toList_ofList]
  decide +kernel

theorem eq_twinGrown {again : Inventory} (h : LeadsTo twinTree twinPath "b" twinChange again) :
    again = twinGrown := by
  obtain ⟨inv, i, new, hload, hfind, hop, rfl⟩ := h.changed
  obtain rfl := Except.ok.inj (load_twin.symm.trans hload)
  obtain rfl : twinB = i := Option.some.inj hfind
  obtain rfl := Except.ok.inj (apply_twin.symm.trans hop)
  rfl

theorem eq_twinShrunk {again : Inventory} (hgrown : Fleet.load t twinPath = .ok twinGrown)
    (h : LeadsTo t twinPath "b" twinDismissal.change again) : again = twinShrunk := by
  obtain ⟨inv, i, new, hload, hfind, hop, rfl⟩ := h.changed
  obtain rfl := Except.ok.inj (hgrown.symm.trans hload)
  obtain rfl : twinStaffed = i := Option.some.inj hfind
  obtain rfl := Except.ok.inj (apply_dismissal.symm.trans hop)
  rfl

theorem rereads_twin : twinRequest.Rereads twinPath twinTree := by
  intro again hleads
  obtain rfl := eq_twinGrown hleads
  change Yaml.read (String.ofList (Yaml.lines [] 0 twinGrown.toValue)) = some twinGrown.toValue
  rw [lines_twinGrown, read_grownText]

theorem rereads_dismissal (hgrown : Fleet.load t twinPath = .ok twinGrown) :
    twinDismissal.Rereads twinPath t := by
  intro again hleads
  obtain rfl := eq_twinShrunk hgrown hleads
  change Yaml.read (String.ofList (Yaml.lines [] 0 twinShrunk.toValue)) = some twinShrunk.toValue
  rw [lines_twinShrunk, read_shrunkText]

theorem layersApart_twin : LayersApart twinTree twinPath := by
  intro inv hload
  obtain rfl := Except.ok.inj (load_twin.symm.trans hload)
  decide

theorem exists_run_of_apply_twin (s : Surroundings)
    (h : c.operation.apply twinB = .ok twinStaffed) :
    ∃ answer t', Disk.run (Command.run s twinPath (c.command "b")) twinTree = (.ok answer, t') := by
  obtain ⟨again, hchanged⟩ := exists_changed_twin
  have hfind : twinFleet.find? "b" = some twinB := rfl
  have hsame := changed_congr load_twin hfind (h.trans apply_twin.symm)
  exact exists_run_change_twin unobstructed_twin (hsame.trans hchanged) s

theorem exists_run_twin : ∃ answer t', twinRequest.run twinPath twinTree = (.ok answer, t') :=
  exists_run_of_apply_twin twinRequest.surroundings apply_twin

theorem persisted_of_run_twin {answer : Value}
    (h : twinRequest.run twinPath twinTree = (.ok answer, t')) :
    Fleet.loadCompliant t' twinPath = .ok twinGrown ∧
      ∃ e, Persisted twinPath twinGrown e twinTree t' := by
  obtain ⟨again, hleads, hpersisted⟩ := exists_persisted_of_run twinRequest.surroundings "/fleet" h
  have hload := load_of_persisted hleads hpersisted (rereads_twin again hleads) layersApart_twin
  obtain rfl := eq_twinGrown hleads
  exact ⟨Fleet.loadCompliant_eq_ok_iff.2 ⟨hload, hleads.complies⟩, _, hpersisted⟩

theorem exists_run_dismissal {answer : Value}
    (h : twinRequest.run twinPath twinTree = (.ok answer, t')) :
    ∃ answer' t'', twinDismissal.run twinPath t' = (.ok answer', t'') := by
  obtain ⟨hgrown, e, hpersisted⟩ := persisted_of_run_twin h
  have hstaffed : twinStaffed ∈ twinGrown.instances := .tail _ (.head _)
  obtain ⟨left, hchanged⟩ := exists_changed_remove hgrown hstaffed (.head _) true
  exact exists_run_change_twin hpersisted.unobstructed hchanged twinDismissal.surroundings

theorem changes_persist_twin : ∃ answer t' answer' t'',
    twinRequest.run twinPath twinTree = (.ok answer, t') ∧
    twinDismissal.run twinPath t' = (.ok answer', t'') ∧
    (∃ inv inv', Fleet.load twinTree twinPath = .ok inv ∧
      inv.Altered "b" twinChange.operation inv' ∧ Fleet.loadCompliant t' twinPath = .ok inv') ∧
    ∃ inv inv', Fleet.load t' twinPath = .ok inv ∧
      inv.Altered "b" (AgentChange.remove "n" true).operation inv' ∧
      Fleet.loadCompliant t'' twinPath = .ok inv' := by
  obtain ⟨answer, t', hrun⟩ := exists_run_twin
  obtain ⟨answer', t'', hrun'⟩ := exists_run_dismissal hrun
  have hfirst : Request.runAll twinPath twinTree [twinRequest] = t' := by
    rw [Request.runAll_cons, hrun]
    rfl
  have hyaml : ∀ past r, past ++ [r] <+: [twinRequest, twinDismissal] →
      r.Rereads (.ofString "/fleet") (Request.runAll (.ofString "/fleet") twinTree past) := by
    intro past r hpast
    match past with
    | [] =>
      obtain rfl : r = twinRequest := (List.cons_prefix_cons.1 hpast).1
      exact rereads_twin
    | [q] =>
      obtain ⟨rfl, hrest⟩ := List.cons_prefix_cons.1 hpast
      obtain rfl : r = twinDismissal := (List.cons_prefix_cons.1 hrest).1
      have hgrown := Fleet.loadCompliant_eq_ok_iff.1 (persisted_of_run_twin hrun).1
      exact hfirst ▸ rereads_dismissal hgrown.1
    | _ :: _ :: _ =>
      have hlength := hpast.length_le
      simp at hlength
  have hpersists := changes_persist twinTree "/fleet" [twinRequest, twinDismissal] hyaml
    layersApart_twin
  have hfirstPersists := hpersists [] twinRequest ⟨[twinDismissal], rfl⟩
  have hsecondPersists := hpersists [twinRequest] twinDismissal (List.prefix_refl _)
  have htext : Path.ofString "/fleet" = twinPath := rfl
  rw [htext, hfirst] at hsecondPersists
  obtain ⟨inv, inv', hload, haltered, hagain⟩ := hfirstPersists answer t' hrun
  exact ⟨answer, t', answer', t'', hrun, hrun', ⟨inv, inv', hload, haltered, hagain⟩,
    hsecondPersists answer' t'' hrun'⟩

end GatewayFleet.Command
