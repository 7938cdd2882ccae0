import GatewayFleet.Proofs.Audit.Decoding
import GatewayFleet.Proofs.Command.Succession

/-! The log over a run of commands. A change or a render that gets through adds one line, which is
read back as what was done; every other command, and every one that fails at any step, leaves the
bytes of the log as they are. No directory that an instance names leads a render to the log. -/

namespace GatewayFleet.Command

open Audit (Deed Event Logged)
open Gateway (Placement)
open GatewayFleet.Tree (Keeps Opens)

variable {t t' : Tree} {p dir : Path} {instanceId : String} {d l : Location} {α : Type}

def deed? : Command → Option (Deed × String)
  | .agentAdd instanceId _ => some (.agentAdd, instanceId)
  | .agentRemove instanceId _ _ => some (.agentRemove, instanceId)
  | .render instanceId false => some (.render, instanceId)
  | _ => none

theorem run_ask_pure {β : Type} (q : Tree → Except Failure α) (f : α → β) (t : Tree) :
    (Disk.run (Disk.ask q >>= fun a => pure (f a)) t).2 = t := by
  rw [Disk.run_bind, Disk.run_ask]
  cases q t <;> rfl

theorem run_of_not_recorded {c : Command} (h : c.deed? = none) (s : Surroundings) (p : Path)
    (t : Tree) : (Disk.run (Command.run s p c) t).2 = t := by
  cases c with
  | validate => exact run_ask_pure _ _ t
  | policyCheck => exact run_ask_pure _ _ t
  | policyEffective _ _ => rfl
  | policyIntegrations => rfl
  | agentList _ => rfl
  | agentAdd _ _ => cases h
  | agentRemove _ _ _ => cases h
  | render instanceId dryRun =>
    cases dryRun with
    | true => exact run_render_dry s p instanceId t
    | false => cases h

theorem log_not_mem_inventory {s : String} (hsits : p.Sits dir s) :
    (Audit.logFor p.directory).locate ∉ [p.locate, p.locate.sibling] := by
  rw [hsits.directory_eq, List.mem_cons, List.mem_singleton, not_or]
  exact ⟨Audit.logFor_ne_inventory hsits, Audit.logFor_ne_sibling hsits⟩

theorem logged_runChange {change : Fleet.Instance → Except Failure Fleet.Instance}
    {again : Fleet.Inventory} {s : String}
    (hchanged : changed t p instanceId change = .ok again) (hsits : p.Sits dir s)
    (hs : '/' ∉ s.toList) (hdir : Opens t p.directory d) (e : Event) (answer : Value) :
    Logged (Audit.logFor p.directory).locate (e.line ++ "\n").toUTF8 t
      (Disk.run (runChange p instanceId change e answer) t) := by
  have hreplace := (Disk.confined_replaceFile hsits.ends hs (inventoryBytes again)).keeps t
  rw [← run_mutate hchanged] at hreplace
  unfold runChange
  refine Audit.logged_bind hreplace (log_not_mem_inventory hsits) fun _ u hmutate => ?_
  rw [hmutate] at hreplace
  exact (Audit.logged_record (hdir.wider hreplace.wider) e).pure answer

theorem AgentChange.logged (c : AgentChange) (s : Surroundings) {text : String}
    {again : Fleet.Inventory}
    (h : changed t (.ofString text) instanceId c.operation.apply = .ok again) :
    Logged (Audit.logFor (Path.ofString text).directory).locate
      ((c.event s.stamp instanceId).line ++ "\n").toUTF8 t
      (Disk.run (Command.run s (.ofString text) (c.command instanceId)) t) := by
  obtain ⟨_, _, _, hload, -⟩ := Fleet.changed_eq_ok_iff.1 h
  obtain ⟨dir, name, _, hsits, hname, -⟩ := exists_sits_of_changed h
  obtain ⟨d, hdir⟩ := Fleet.exists_opens_of_load hload
  obtain ⟨answer, hcommand⟩ := c.exists_runChange s (.ofString text) instanceId
  rw [hcommand]
  exact logged_runChange h hsits hname hdir _ answer

theorem AgentChange.exact_details (c : AgentChange) (stamp : Audit.Stamp) (instanceId : String) :
    Json.Exact (Json.maxDepth - 1) (c.event stamp instanceId).details := by
  cases c with
  | add spec =>
    have hnames : ["agent", "role"].Nodup := by decide
    refine .mapping hnames fun m hm => ?_
    simp only [List.mem_cons, List.not_mem_nil, or_false] at hm
    rcases hm with rfl | rfl
    · exact .string _
    · exact .string _
  | remove agentId prune =>
    have hnames : ["agent", "pruned_accounts"].Nodup := by decide
    refine .mapping hnames fun m hm => ?_
    simp only [List.mem_cons, List.not_mem_nil, or_false] at hm
    rcases hm with rfl | rfl
    · exact .string _
    · exact .bool _

theorem log_not_mem_fileLocations (i : Fleet.Instance) (p : Path) :
    (Audit.logFor p.directory).locate ∉ fileLocations i p := by
  intro hmem
  rcases List.mem_append.1 hmem with hfile | htemporary
  · exact artifact_ne_log hfile rfl
  · obtain ⟨l, -, hl⟩ := List.mem_map.1 htemporary
    rw [Audit.locate_logFor] at hl
    exact sibling_ne_child siblingName_ne_log hl

variable {r : Rendering} {ps : List Policy.Summary}

theorem logged_write (hps : r.policies = .ok ps) (hdir : Opens t p.directory d)
    (stamp : Audit.Stamp) :
    Logged (Audit.logFor p.directory).locate ((r.event stamp p instanceId).line ++ "\n").toUTF8 t
      (Disk.run (r.write stamp p instanceId) t) := by
  have hmade := confined_makeDirectories r p
  have hfiles := confined_writeFiles r stamp.time p ps
  rw [write_eq hps]
  refine Audit.logged_bind (hmade.keeps t) List.not_mem_nil fun _ u hu => ?_
  have hnew := hmade.keeps t
  rw [hu] at hnew
  refine Audit.logged_bind (hfiles.keeps u) (log_not_mem_fileLocations _ p) fun _ v hv => ?_
  have hwritten := hfiles.keeps u
  rw [hv] at hwritten
  exact Audit.logged_record ((hdir.wider hnew.wider).wider hwritten.wider) _

theorem logged_render (s : Surroundings)
    (h : rendering t s.environment p instanceId = .ok r) :
    Logged (Audit.logFor p.directory).locate ((r.event s.stamp p instanceId).line ++ "\n").toUTF8 t
      (Disk.run (Command.run s p (.render instanceId false)) t) := by
  obtain ⟨hload, -, hfind, -⟩ := rendering_eq_ok_iff.1 h
  obtain ⟨ps, hps⟩ := exists_policies hload (mem_of_find? hfind)
  obtain ⟨d, hdir⟩ := Fleet.exists_opens_of_load hload
  rw [run_render_ok s h]
  exact (logged_write hps hdir s.stamp).pure _

theorem Rendering.exact_details {stamp : Audit.Stamp} (hagents : r.counts.agents ≤ Json.maxUnsigned)
    (hbindings : r.counts.bindings ≤ Json.maxUnsigned) :
    Json.Exact (Json.maxDepth - 1) (r.event stamp p instanceId).details := by
  have hcount {n : Nat} (hn : n ≤ Json.maxUnsigned) : Json.Exact 125 (.ofNat n) :=
    .integer (by omega) (Int.ofNat_le.2 hn)
  have hnames : ["generated_path", "agents", "bindings"].Nodup := by decide
  refine .mapping hnames fun m hm => ?_
  simp only [List.mem_cons, List.not_mem_nil, or_false] at hm
  rcases hm with rfl | rfl | rfl
  · exact .string _
  · exact hcount hagents
  · exact hcount hbindings

structure Call where
  surroundings : Surroundings
  command : Command

def logOf (p : Path) (t : Tree) : Option ByteArray :=
  t.content? (Audit.logFor p.directory).locate

def StandsFor (line : String) (deed : Deed) (instanceId : String) : Prop :=
  ∃ e, Event.read line = .ok e ∧ e.deed = deed ∧ e.instanceId = some instanceId

namespace Call

variable {c : Call} {e : Event}

def run (c : Call) (p : Path) (t : Tree) : Except Failure Value × Tree :=
  Disk.run (Command.run c.surroundings p c.command) t

/-- What a call records: it has to succeed. -/
def recorded? (c : Call) (p : Path) (t : Tree) : Option (Deed × String) :=
  match (c.run p t).1 with
  | .ok _ => c.command.deed?
  | .error _ => none

/-- The time of the call is read back from its text, and what a render counts fits 64 bits. -/
structure Legible (c : Call) (p : Path) (t : Tree) : Prop where
  time : Audit.Timestamp.read c.surroundings.stamp.time.text = .ok c.surroundings.stamp.time
  counts : ∀ instanceId r, c.command = .render instanceId false →
    rendering t c.surroundings.environment p instanceId = .ok r →
      r.counts.agents ≤ Json.maxUnsigned ∧ r.counts.bindings ≤ Json.maxUnsigned

structure Adds (c : Call) (p : Path) (t : Tree) (deed : Deed) (instanceId line : String) :
    Prop where
  oneLine : Json.OneLine line
  stands : c.Legible p t → StandsFor line deed instanceId
  content : logOf p (c.run p t).2 =
    some ((logOf p t).getD ByteArray.empty ++ (line ++ "\n").toUTF8)

def Logs (c : Call) (p : Path) (t : Tree) : Prop :=
  match c.recorded? p t with
  | some (deed, instanceId) => ∃ line, c.Adds p t deed instanceId line
  | none => logOf p (c.run p t).2 = logOf p t

theorem Logs.exists_adds {deed : Deed} (h : c.Logs p t)
    (hrecorded : c.recorded? p t = some (deed, instanceId)) :
    ∃ line, c.Adds p t deed instanceId line := by
  rwa [Logs, hrecorded] at h

theorem Logs.same (h : c.Logs p t) (hrecorded : c.recorded? p t = none) :
    logOf p (c.run p t).2 = logOf p t := by
  rwa [Logs, hrecorded] at h

theorem logs_of_same (hrecorded : c.recorded? p t = none) (h : (c.run p t).2 = t) :
    c.Logs p t := by
  rw [Logs, hrecorded, h]

theorem logs_of_logged (hdeed : c.command.deed? = some (e.deed, instanceId))
    (hinstance : e.instanceId = some instanceId)
    (hread : c.Legible p t → Event.read e.line = .ok e)
    (h : Logged (Audit.logFor p.directory).locate (e.line ++ "\n").toUTF8 t (c.run p t)) :
    c.Logs p t := by
  rcases hrun : c.run p t with ⟨outcome, t'⟩
  rw [hrun] at h
  cases outcome with
  | error failure =>
    have hrecorded : c.recorded? p t = none := by rw [recorded?, hrun]
    rw [Logs, hrecorded, hrun]
    exact h
  | ok answer =>
    have hrecorded : c.recorded? p t = some (e.deed, instanceId) := by
      rw [recorded?, hrun]
      exact hdeed
    have hstands : c.Legible p t → StandsFor e.line e.deed instanceId :=
      fun hlegible => ⟨e, hread hlegible, rfl, hinstance⟩
    rw [Logs, hrecorded]
    exact ⟨e.line, e.oneLine, hstands, by rw [hrun]; exact h⟩

theorem logs_change (s : Surroundings) (change : AgentChange) (t : Tree)
    (text instanceId : String) :
    Logs ⟨s, change.command instanceId⟩ (.ofString text) t := by
  have hdeed : (change.command instanceId).deed? =
      some ((change.event s.stamp instanceId).deed, instanceId) := by
    cases change <;> rfl
  have hinstance : (change.event s.stamp instanceId).instanceId = some instanceId := by
    cases change <;> rfl
  have htime : (change.event s.stamp instanceId).time = s.stamp.time := by
    cases change <;> rfl
  cases hchanged : changed t (.ofString text) instanceId change.operation.apply with
  | error failure =>
    obtain ⟨answer, hcommand⟩ := change.exists_runChange s (.ofString text) instanceId
    have hrun : run ⟨s, change.command instanceId⟩ (.ofString text) t = (.error failure, t) := by
      rw [run, hcommand]
      exact run_runChange_error hchanged _ answer
    exact logs_of_same (by rw [recorded?, hrun]) (by rw [hrun])
  | ok again =>
    refine logs_of_logged hdeed hinstance (fun hlegible => ?_) (change.logged s hchanged)
    exact Event.read_line (htime ▸ hlegible.time) (change.exact_details s.stamp instanceId)

theorem logs_render (s : Surroundings) (t : Tree) (p : Path) (instanceId : String) :
    Logs ⟨s, .render instanceId false⟩ p t := by
  cases hrendering : rendering t s.environment p instanceId with
  | error failure =>
    have hrun : run ⟨s, .render instanceId false⟩ p t = (.error failure, t) :=
      run_render_error s false hrendering
    exact logs_of_same (by rw [recorded?, hrun]) (by rw [hrun])
  | ok r =>
    refine logs_of_logged (e := r.event s.stamp p instanceId) rfl rfl (fun hlegible => ?_)
      (logged_render s hrendering)
    obtain ⟨hagents, hbindings⟩ := hlegible.counts instanceId r rfl hrendering
    exact Event.read_line hlegible.time (Rendering.exact_details hagents hbindings)

theorem logs (c : Call) (t : Tree) (text : String) : c.Logs (.ofString text) t := by
  obtain ⟨s, command⟩ := c
  cases hdeed : command.deed? with
  | none =>
    refine logs_of_same ?_ (run_of_not_recorded hdeed s _ t)
    rw [recorded?, hdeed]
    split <;> rfl
  | some due =>
    cases command with
    | agentAdd instanceId spec => exact logs_change s (.add spec) t text instanceId
    | agentRemove instanceId agentId prune =>
      exact logs_change s (.remove agentId prune) t text instanceId
    | render instanceId dryRun =>
      cases dryRun with
      | false => exact logs_render s t _ instanceId
      | true => cases hdeed
    | _ => cases hdeed

def runAll (p : Path) (t : Tree) (cs : List Call) : Tree := cs.foldl (fun t c => (c.run p t).2) t

/-- The lines that a run leaves behind, one for each call that is recorded. -/
inductive Leaves (p : Path) : Tree → List Call → List String → Prop
  | done (t : Tree) : Leaves p t [] []
  | silent {t : Tree} {c : Call} {cs : List Call} {lines : List String}
      (unrecorded : c.recorded? p t = none) (rest : Leaves p (c.run p t).2 cs lines) :
      Leaves p t (c :: cs) lines
  | line {t : Tree} {c : Call} {cs : List Call} {lines : List String} {line : String} {deed : Deed}
      {instanceId : String} (recorded : c.recorded? p t = some (deed, instanceId))
      (adds : c.Adds p t deed instanceId line) (rest : Leaves p (c.run p t).2 cs lines) :
      Leaves p t (c :: cs) (line :: lines)

end Call

def linesBytes : List String → ByteArray
  | [] => ByteArray.empty
  | line :: rest => (line ++ "\n").toUTF8 ++ linesBytes rest

theorem exists_leaves (t : Tree) (text : String) (calls : List Call) :
    ∃ lines, Call.Leaves (.ofString text) t calls lines ∧
      (logOf (.ofString text) (Call.runAll (.ofString text) t calls)).getD ByteArray.empty =
        (logOf (.ofString text) t).getD ByteArray.empty ++ linesBytes lines := by
  induction calls generalizing t with
  | nil => exact ⟨[], .done t, ByteArray.append_empty.symm⟩
  | cons c calls ih =>
    obtain ⟨lines, hleaves, hbytes⟩ := ih (c.run (.ofString text) t).2
    have hlogs := c.logs t text
    cases hrecorded : c.recorded? (.ofString text) t with
    | none =>
      rw [hlogs.same hrecorded] at hbytes
      exact ⟨lines, .silent hrecorded hleaves, hbytes⟩
    | some due =>
      obtain ⟨line, hadds⟩ := hlogs.exists_adds hrecorded
      refine ⟨line :: lines, .line hrecorded hadds hleaves, ?_⟩
      rw [hadds.content, Option.getD_some, ByteArray.append_assoc] at hbytes
      exact hbytes

/-- The log only grows, and only at its end. After any run of commands from any tree the next one
adds a line about what it has done if it is recorded, and nothing otherwise; so a whole run adds the
lines of the calls that are recorded, in their order. -/
theorem log_appendOnly (t : Tree) (text : String) (calls : List Call) :
    (∀ c : Call, c.Logs (.ofString text) (Call.runAll (.ofString text) t calls)) ∧
      ∃ lines, Call.Leaves (.ofString text) t calls lines ∧
        (logOf (.ofString text) (Call.runAll (.ofString text) t calls)).getD ByteArray.empty =
          (logOf (.ofString text) t).getD ByteArray.empty ++ linesBytes lines :=
  ⟨fun c => c.logs _ text, exists_leaves t text calls⟩

def twinCall : Call := ⟨twinRequest.surroundings, twinChange.command "b"⟩

def twinRecall : Call := ⟨twinRequest.surroundings, twinDismissal.change.command "b"⟩

theorem legible_twin (t : Tree) : twinCall.Legible twinPath t where
  time := by decide +kernel
  counts _ _ h _ := nomatch h

theorem legible_recall (t : Tree) : twinRecall.Legible twinPath t where
  time := (legible_twin t).time
  counts _ _ h _ := nomatch h

theorem Call.Leaves.exists_line {p : Path} {c : Call} {cs : List Call} {lines : List String}
    {deed : Deed} (h : Leaves p t (c :: cs) lines) (hlegible : c.Legible p t)
    (hrecorded : c.recorded? p t = some (deed, instanceId)) :
    ∃ line rest, lines = line :: rest ∧ Json.OneLine line ∧ StandsFor line deed instanceId ∧
      Leaves p (c.run p t).2 cs rest := by
  cases h with
  | silent hunrecorded _ =>
    rw [hrecorded] at hunrecorded
    cases hunrecorded
  | @line _ _ _ rest line _ _ hrecorded' hadds hrest =>
    obtain ⟨rfl, rfl⟩ := Prod.mk.inj (Option.some.inj (hrecorded.symm.trans hrecorded'))
    exact ⟨line, rest, rfl, hadds.oneLine, hadds.stands hlegible, hrest⟩

theorem log_appendOnly_twin : logOf twinPath twinTree = none ∧
    ∃ line line', (Json.OneLine line ∧ StandsFor line .agentAdd "b") ∧
      (Json.OneLine line' ∧ StandsFor line' .agentRemove "b") ∧
      (logOf twinPath (Call.runAll twinPath twinTree [twinCall, twinRecall])).getD ByteArray.empty =
        linesBytes [line, line'] := by
  obtain ⟨answer, t', hrun⟩ := exists_run_twin
  obtain ⟨answer', t'', hrun'⟩ := exists_run_dismissal hrun
  have hrun : twinCall.run twinPath twinTree = (.ok answer, t') := hrun
  have hrun' : twinRecall.run twinPath t' = (.ok answer', t'') := hrun'
  have hrecorded : twinCall.recorded? twinPath twinTree = some (.agentAdd, "b") := by
    rw [Call.recorded?, hrun]
    rfl
  have hrecorded' : twinRecall.recorded? twinPath t' = some (.agentRemove, "b") := by
    rw [Call.recorded?, hrun']
    rfl
  have hempty : logOf twinPath twinTree = none := by decide
  -- stated for any tree, so that the commands are not run on this one
  have hall : ∀ t, ∃ lines, Call.Leaves twinPath t [twinCall, twinRecall] lines ∧
      (logOf twinPath (Call.runAll twinPath t [twinCall, twinRecall])).getD ByteArray.empty =
        (logOf twinPath t).getD ByteArray.empty ++ linesBytes lines :=
    fun t => (log_appendOnly t "/fleet" [twinCall, twinRecall]).2
  obtain ⟨lines, hleaves, hlog⟩ := hall twinTree
  obtain ⟨line, rest, rfl, hline, hstands, hrest⟩ :=
    hleaves.exists_line (legible_twin _) hrecorded
  rw [hrun] at hrest
  obtain ⟨line', rest', rfl, hline', hstands', hdone⟩ :=
    hrest.exists_line (legible_recall _) hrecorded'
  cases hdone
  rw [hempty, Option.getD_none, ByteArray.empty_append] at hlog
  exact ⟨hempty, line, line', ⟨hline, hstands⟩, ⟨hline', hstands'⟩, hlog⟩

end GatewayFleet.Command
