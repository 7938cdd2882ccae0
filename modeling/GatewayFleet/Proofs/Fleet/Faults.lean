import GatewayFleet.Proofs.Fleet.Entries

/-! What is at fault with a document apart from what its records share. No record hides the faults
of another: an entry of the list of instances has the faults it would have if it were the only one,
and an agent has its own whatever the agents beside it are. An entry that repeats an identifier is
the only one that is not looked into. -/

namespace GatewayFleet.Fleet

open Checked (OnlyCollisions)

variable {tree : Tree} {dir : Path} {stride : Nat} {id : String} {fs : Fields Value}

/-- An issue with a record itself: with its shape, or with a file that it refers to. -/
def Issue.isFault (issue : Issue) : Bool := issue.kind ≠ .collision

theorem filter_isFault_under (place : Place) (issues : List Issue) :
    (issues.map (Issue.under place)).filter Issue.isFault =
      (issues.filter Issue.isFault).map (Issue.under place) := by
  have hkind : Issue.isFault ∘ Issue.under place = Issue.isFault := by
    funext issue
    simp only [Function.comp, Issue.isFault, Issue.kind_under]
  rw [List.filter_map, hkind]

namespace Checked

variable {α β : Type}

def faults (x : Checked α) : List Issue := x.issues.filter Issue.isFault

@[simp] theorem faults_pure (a : α) : (pure a : Checked α).faults = [] := rfl

@[simp] theorem faults_faulty (place : Place) (problem : Problem) (a : α) :
    (faulty place problem a).faults = [.shape place problem] := rfl

@[simp] theorem faults_report (place : Place) (problem : Problem) :
    (report (.shape place problem)).faults = [.shape place problem] := rfl

@[simp] theorem faults_bind (x : Checked α) (f : α → Checked β) :
    (x >>= f).faults = x.faults ++ (f x.value).faults := List.filter_append ..

@[simp] theorem faults_under (place : Place) (x : Checked α) :
    (x.under place).faults = x.faults.map (Issue.under place) := filter_isFault_under ..

theorem OnlyCollisions.faults_eq_nil {x : Checked α} (h : x.OnlyCollisions) : x.faults = [] := by
  refine List.filter_eq_nil_iff.2 fun issue hissue => ?_
  simp [Issue.isFault, h issue hissue]

end Checked

theorem Instance.faults_read (s : Section) (claims : Claims) :
    (Instance.read tree dir stride id s claims).faults =
      (readHost s).faults ++ ((s.mapping "paths").faults ++
        ((readRolePaths s (s.mapping "paths").value).faults ++ ((RuntimeBlock.read s).faults ++
          ((reportMissing tree dir id (RuntimeBlock.read s).value).faults ++
            ((readAgents s).faults ++
              ((readChannels s).faults ++ (s.policy "policy").faults)))))) := by
  simp only [Instance.read_eq, Checked.faults_bind, Checked.faults_pure, List.append_nil,
    (onlyCollisions_claimHost _ _).faults_eq_nil, (onlyCollisions_claimRaw _ _).faults_eq_nil,
    List.nil_append]

theorem Instance.faults_readEntry {place : Place} {claims : Claims} {v : Value}
    (h : ∀ id ∈ claims.ids, ¬ Names v id) :
    (readEntry tree dir stride place claims v).faults =
      (readEntry tree dir stride place {} v).faults := by
  cases v with
  | mapping fs =>
    simp only [readEntry, Section.get?]
    cases hname : Section.filled? (Fields.get? fs "id") with
    | none => rfl
    | some id =>
      have hid : id ∉ claims.ids := fun hid => h id hid (names_mapping_iff.2 hname)
      simp only [hid, if_false, List.not_mem_nil, Instance.faults_read]
  | null | bool _ | number _ | string _ | list _ => rfl

def entryFaults (tree : Tree) (dir : Path) (stride : Nat) (v : Value) : List Issue :=
  (Instance.readEntry tree dir stride [] {} v).faults

theorem entryFaults_of_no_id (h : Section.filled? (Fields.get? fs "id") = none) :
    entryFaults tree dir stride (.mapping fs) = [.shape [.key "id"] .notFilledString] := by
  simp only [entryFaults, Instance.readEntry, Section.get?, h]
  rfl

theorem entryFaults_of_id (h : Section.filled? (Fields.get? fs "id") = some id) :
    entryFaults tree dir stride (.mapping fs) =
      (Instance.read tree dir stride id ⟨fs, []⟩ { ids := [id] }).faults := by
  simp only [entryFaults, Instance.readEntry, Section.get?, h, List.not_mem_nil, if_false,
    List.nil_append]

theorem filter_entryPart {before : List Value} {v : Value} (h : ¬ Repeats before v) :
    (entryPart tree dir stride before v).filter Issue.isFault =
      (entryFaults tree dir stride v).map (Issue.under (entryPlace before.length)) := by
  have hfaults : (entryIssues tree dir stride before v).filter Issue.isFault =
      entryFaults tree dir stride v :=
    Instance.faults_readEntry (Claims.fresh_of_not_repeats h)
  rw [entryPart, filter_isFault_under, hfaults]

def only (fs : Fields Value) (v : Value) : Value :=
  .mapping (Fields.put fs "instances" (.list [v]))

/-- The faults of an entry when it is alone: what comes after the issues with the document. -/
def faultsAlone (tree : Tree) (dir : Path) (fs : Fields Value) (v : Value) : List Issue :=
  ((report tree dir (only fs v)).filter Issue.isFault).drop (rootIssues fs).length

def Issue.renumber (depth n : Nat) : Issue → Issue
  | .shape place problem => .shape (place.set depth (.index n)) problem
  | issue => issue

theorem Issue.renumber_under_entryPlace (n : Nat) (issue : Issue) :
    (issue.under (entryPlace 0)).renumber 1 n = issue.under (entryPlace n) := by
  cases issue <;> rfl

theorem Issue.under_under (place p : Place) (issue : Issue) :
    (issue.under p).under place = issue.under (place ++ p) := by
  cases issue with
  | shape q problem => rw [under, under, under, List.append_assoc]
  | _ => rfl

namespace Section

variable {s : Section} {k k' : String}

def put (s : Section) (k : String) (v : Value) : Section := ⟨Fields.put s.fields k v, s.place⟩

theorem get?_put_of_ne (v : Value) (h : k ≠ k') : (s.put k v).get? k' = s.get? k' :=
  Fields.get?_put_of_ne _ _ h

theorem mapping_put_of_ne (v : Value) (h : k ≠ k') : (s.put k v).mapping k' = s.mapping k' := by
  simp only [mapping, get?_put_of_ne v h]
  rfl

theorem optionalMapping_put_of_ne (v : Value) (h : k ≠ k') :
    (s.put k v).optionalMapping k' = s.optionalMapping k' := by
  simp only [optionalMapping, get?_put_of_ne v h]
  rfl

theorem policy_put_of_ne (v : Value) (h : k ≠ k') : (s.put k v).policy k' = s.policy k' := by
  simp only [policy, optionalMapping_put_of_ne v h]
  rfl

theorem optionalString_put_of_ne (v : Value) (h : k ≠ k') :
    (s.put k v).optionalString k' = s.optionalString k' := by
  simp only [optionalString, get?_put_of_ne v h]
  rfl

theorem optionalStrings_put_of_ne (v : Value) (h : k ≠ k') :
    (s.put k v).optionalStrings k' = s.optionalStrings k' := by
  simp only [optionalStrings, get?_put_of_ne v h]
  rfl

theorem strings_put_of_ne (v : Value) (h : k ≠ k') : (s.put k v).strings k' = s.strings k' := by
  simp only [strings, optionalStrings_put_of_ne v h]

end Section

theorem filter_rootIssues (fs : Fields Value) :
    (rootIssues fs).filter Issue.isFault = rootIssues fs := by
  refine List.filter_eq_self.2 fun issue hissue => ?_
  rw [Issue.isFault, structural_of_mem_rootIssues hissue]
  rfl

section

variable (tree dir fs) (v : Value)

theorem readDefaults_put :
    readDefaults ((⟨fs, []⟩ : Section).put "instances" v) = readDefaults ⟨fs, []⟩ := by
  rw [readDefaults, Section.optionalMapping_put_of_ne v (by decide)]
  rfl

theorem rootIssues_put : rootIssues (Fields.put fs "instances" v) = rootIssues fs := by
  have hroot : (⟨Fields.put fs "instances" v, []⟩ : Section) =
      (⟨fs, []⟩ : Section).put "instances" v := rfl
  simp only [rootIssues, hroot, reportVersion, readDefaults_put,
    Section.get?_put_of_ne v (show "instances" ≠ "version" by decide),
    Section.policy_put_of_ne v (show "instances" ≠ "policy" by decide)]

theorem strideOf_put : strideOf (Fields.put fs "instances" v) = strideOf fs :=
  congrArg (fun d : Checked Defaults => d.value.stride) (readDefaults_put fs v)

theorem faults_only :
    (report tree dir (only fs v)).filter Issue.isFault =
      rootIssues fs ++ (entryFaults tree dir (strideOf fs) v).map (Issue.under (entryPlace 0)) := by
  have hfirst : ¬ Repeats [] v := fun ⟨_, hu, _⟩ => nomatch hu
  rw [only, report_mapping (Fields.get?_put_self _ _ _) (List.cons_ne_nil _ _), rootIssues_put,
    strideOf_put, inTurn, inTurn, List.flatMap_singleton, List.filter_append, filter_rootIssues,
    filter_entryPart hfirst]
  rfl

theorem faultsAlone_eq :
    faultsAlone tree dir fs v =
      (entryFaults tree dir (strideOf fs) v).map (Issue.under (entryPlace 0)) := by
  rw [faultsAlone, faults_only, List.drop_left]

theorem faultsAlone_renumber (n : Nat) :
    (faultsAlone tree dir fs v).map (Issue.renumber 1 n) =
      (entryFaults tree dir (strideOf fs) v).map (Issue.under (entryPlace n)) := by
  rw [faultsAlone_eq, List.map_map]
  exact List.map_congr_left fun issue _ => Issue.renumber_under_entryPlace n issue

end

def eachAt (place : Place) (own : Value → List Issue) (items : List Value) : List Issue :=
  items.zipIdx.flatMap fun m => (own m.1).map (Issue.under (place ++ [.index m.2]))

theorem eachAt_under (place p : Place) (own : Value → List Issue) (items : List Value) :
    (eachAt p own items).map (Issue.under place) = eachAt (place ++ p) own items := by
  rw [eachAt, eachAt, List.map_flatMap]
  simp only [List.map_map, Function.comp_def, Issue.under_under, List.append_assoc]

def Agent.faultsOf : Value → List Issue
  | .mapping fs => (Agent.read ⟨fs, []⟩).faults
  | _ => [.shape [] .notMapping]

theorem Agent.faults_readAll (place : Place) (i : Nat) (seats : Seats) (items : List Value) :
    (Agent.readAll place i seats items).faults = (items.zipIdx i).flatMap fun m =>
      (Agent.faultsOf m.1).map (Issue.under (place ++ [.index m.2])) := by
  induction items generalizing i seats with
  | nil => rfl
  | cons v items ih =>
    rw [List.zipIdx_cons, List.flatMap_cons]
    cases v with
    | mapping fs =>
      have hplace : (⟨fs, place ++ [.index i]⟩ : Section) =
          (⟨fs, []⟩ : Section).under (place ++ [.index i]) := by
        rw [Section.under, List.append_nil]
      rw [Agent.readAll, hplace, Agent.read_under, Checked.faults_bind, Checked.faults_under]
      refine congrArg₂ _ rfl ?_
      split
      · exact ih _ _
      · split
        · rw [Checked.faults_bind, ih]
          rfl
        · simp only [Checked.faults_bind, Checked.faults_pure, List.append_nil, ih,
            (seats.onlyCollisions_claim _).faults_eq_nil, List.nil_append]
    | null | bool _ | number _ | string _ | list _ =>
      simp only [Agent.readAll, Checked.faults_bind, Checked.faults_report, ih, Agent.faultsOf,
        Issue.under, List.map_cons, List.map_nil, List.append_nil]

theorem Binding.faults_readAll (place : Place) (i : Nat) (items : List Value) :
    (Binding.readAll place i items).faults = (items.zipIdx i).flatMap fun m =>
      (Binding.read [] m.1).faults.map (Issue.under (place ++ [.index m.2])) := by
  induction items generalizing i with
  | nil => rfl
  | cons v items ih =>
    have hread : Binding.read (place ++ [.index i]) v =
        (Binding.read [] v).under (place ++ [.index i]) := by
      rw [← Binding.read_under, List.append_nil]
    rw [Binding.readAll, hread, List.zipIdx_cons, List.flatMap_cons]
    simp only [Checked.faults_bind, Checked.faults_under, Checked.faults_pure, ih, List.append_nil]

section

variable (s : Section) (v : Value)

theorem readHost_put : readHost (s.put "agents" v) = readHost s := by
  rw [readHost, Section.mapping_put_of_ne v (by decide)]
  rfl

theorem RuntimeBlock.read_put : RuntimeBlock.read (s.put "agents" v) = RuntimeBlock.read s := by
  have hkey : runtimeKey (s.put "agents" v) = runtimeKey s := runtimeKey_put _ _ _
  rw [RuntimeBlock.read, hkey, Section.mapping_put_of_ne v (agents_ne_runtimeKey s)]
  rfl

theorem readChannels_put : readChannels (s.put "agents" v) = readChannels s := by
  rw [readChannels, Section.optionalMapping_put_of_ne v (by decide)]
  rfl

theorem readAgents_put (agents : List Value) :
    readAgents (s.put "agents" (.list agents)) = Agent.readAll (s.at_ "agents") 0 {} agents := by
  have hget : (s.put "agents" (.list agents)).get? "agents" = some (.list agents) :=
    Fields.get?_put_self _ _ _
  rw [readAgents, hget]
  rfl

theorem Role.read_put : Role.read (s.put "bindings" v) = Role.read s := by
  rw [Role.read, Section.get?_put_of_ne v (by decide)]
  rfl

theorem Agent.readBindings_put {bindings : List Value} (hne : bindings ≠ []) :
    Agent.readBindings (s.put "bindings" (.list bindings)) =
      Binding.readAll (s.at_ "bindings") 0 bindings := by
  obtain ⟨binding, bindings, rfl⟩ := List.exists_cons_of_ne_nil hne
  have hget : (s.put "bindings" (.list (binding :: bindings))).get? "bindings" =
      some (.list (binding :: bindings)) := Fields.get?_put_self _ _ _
  rw [Agent.readBindings, hget]
  rfl

end

theorem Agent.faults_read {s : Section} (h : Section.filled? (s.get? "id") = some id) :
    (Agent.read s).faults = (Role.read s).faults ++ ((Agent.readBindings s).faults ++
      ((s.optionalString "workspace").faults ++ ((s.optionalString "agent_dir").faults ++
        ((s.strings "integrations").faults ++ ((s.strings "skills").faults ++
          ((s.optionalStrings "skill_sources").faults ++ ((s.optionalString "model").faults ++
            (s.policy "policy").faults))))))) := by
  rw [Agent.read, h]
  simp only [Checked.faults_bind, Checked.faults_pure, List.append_nil]

theorem filled?_put {fs : Fields Value} {k : String} (v : Value) (h : k ≠ "id") :
    Section.filled? (Fields.get? (Fields.put fs k v) "id") =
      Section.filled? (Fields.get? fs "id") :=
  congrArg _ (Fields.get?_put_of_ne _ _ h)

theorem Agent.exists_faultsOf (ms : Fields Value) :
    ∃ (before after : List Issue) (own : Value → List Issue), ∀ bindings : List Value,
      bindings ≠ [] → Agent.faultsOf (.mapping (Fields.put ms "bindings" (.list bindings))) =
        before ++ eachAt [.key "bindings"] own bindings ++ after := by
  have hid (bindings : List Value) := @filled?_put ms "bindings" (.list bindings) (by decide)
  cases hname : Section.filled? (Fields.get? ms "id") with
  | none =>
    refine ⟨[.shape [.key "id"] .notFilledString], [], fun _ => [], fun bindings _ => ?_⟩
    have hread : Section.filled? (Section.get? ⟨Fields.put ms "bindings" (.list bindings), []⟩
        "id") = none := (hid bindings).trans hname
    rw [Agent.faultsOf, Agent.read, hread]
    simp [eachAt, Section.at_]
  | some id =>
    let s : Section := ⟨ms, []⟩
    refine ⟨(Role.read s).faults, (s.optionalString "workspace").faults ++
      ((s.optionalString "agent_dir").faults ++ ((s.strings "integrations").faults ++
        ((s.strings "skills").faults ++ ((s.optionalStrings "skill_sources").faults ++
          ((s.optionalString "model").faults ++ (s.policy "policy").faults))))),
      fun v => (Binding.read [] v).faults, fun bindings hne => ?_⟩
    have hput : (⟨Fields.put ms "bindings" (.list bindings), []⟩ : Section) =
        s.put "bindings" (.list bindings) := rfl
    have hread : Section.filled? ((s.put "bindings" (.list bindings)).get? "id") = some id :=
      (hid bindings).trans hname
    rw [Agent.faultsOf, hput, Agent.faults_read hread]
    simp only [Role.read_put, Agent.readBindings_put s hne, Binding.faults_readAll,
      Section.optionalString_put_of_ne _ (show "bindings" ≠ "workspace" by decide),
      Section.optionalString_put_of_ne _ (show "bindings" ≠ "agent_dir" by decide),
      Section.strings_put_of_ne _ (show "bindings" ≠ "integrations" by decide),
      Section.strings_put_of_ne _ (show "bindings" ≠ "skills" by decide),
      Section.optionalStrings_put_of_ne _ (show "bindings" ≠ "skill_sources" by decide),
      Section.optionalString_put_of_ne _ (show "bindings" ≠ "model" by decide),
      Section.policy_put_of_ne _ (show "bindings" ≠ "policy" by decide), List.append_assoc]
    rfl

/-- Of the faults of an entry some come before those of its agents and some after them. -/
theorem exists_entryFaults {gs : Fields Value}
    (hname : Section.filled? (Fields.get? gs "id") = some id) :
    ∃ before after : List Issue, ∀ agents : List Value,
      entryFaults tree dir stride (.mapping (Fields.put gs "agents" (.list agents))) =
        before ++ eachAt [.key "agents"] Agent.faultsOf agents ++ after := by
  let s : Section := ⟨gs, []⟩
  refine ⟨(readHost s).faults ++ ((s.mapping "paths").faults ++
    ((readRolePaths s (s.mapping "paths").value).faults ++ ((RuntimeBlock.read s).faults ++
      (reportMissing tree dir id (RuntimeBlock.read s).value).faults))),
    (readChannels s).faults ++ (s.policy "policy").faults, fun agents => ?_⟩
  have hput : (⟨Fields.put gs "agents" (.list agents), []⟩ : Section) =
      s.put "agents" (.list agents) := rfl
  have hpaths (raw : Option (Fields Value)) :
      readRolePaths (s.put "agents" (.list agents)) raw = readRolePaths s raw := by
    cases raw <;> rfl
  rw [entryFaults_of_id ((filled?_put _ (by decide)).trans hname), hput]
  simp only [Instance.faults_read, readHost_put, hpaths, RuntimeBlock.read_put, readChannels_put,
    readAgents_put, Section.mapping_put_of_ne _ (show "agents" ≠ "paths" by decide),
    Section.policy_put_of_ne _ (show "agents" ≠ "policy" by decide), Agent.faults_readAll,
    List.append_assoc]
  rfl

/-- Every agent of an instance has its own faults, and so has every binding of an agent, whatever
stands beside them. -/
structure EachOwn (tree : Tree) (dir : Path) (fs : Fields Value) (ofAgent : Value → List Issue) :
    Prop where
  agents : ∀ gs id, Names (.mapping gs) id → ∃ before after : List Issue, ∀ agents : List Value,
    faultsAlone tree dir fs (.mapping (Fields.put gs "agents" (.list agents))) =
      before ++ eachAt (entryPlace 0 ++ [.key "agents"]) ofAgent agents ++ after
  unnamed : ∀ gs, (∀ id, ¬ Names (.mapping gs) id) → ∀ agents : List Value,
    faultsAlone tree dir fs (.mapping (Fields.put gs "agents" (.list agents))) =
      [.shape (entryPlace 0 ++ [.key "id"]) .notFilledString]
  bindings : ∀ ms, ∃ (before after : List Issue) (ofBinding : Value → List Issue),
    ∀ bindings : List Value, bindings ≠ [] →
      ofAgent (.mapping (Fields.put ms "bindings" (.list bindings))) =
        before ++ eachAt [.key "bindings"] ofBinding bindings ++ after

theorem eachOwn_faultsOf (tree : Tree) (dir : Path) (fs : Fields Value) :
    EachOwn tree dir fs Agent.faultsOf where
  agents gs id hname := by
    obtain ⟨before, after, h⟩ := exists_entryFaults (names_mapping_iff.1 hname)
    refine ⟨before.map (Issue.under (entryPlace 0)), after.map (Issue.under (entryPlace 0)),
      fun agents => ?_⟩
    rw [faultsAlone_eq, h, List.map_append, List.map_append, eachAt_under]
  unnamed gs hname agents := by
    have hnone : Section.filled? (Fields.get? gs "id") = none :=
      Option.eq_none_iff_forall_ne_some.2 fun id hid => hname id (names_mapping_iff.2 hid)
    rw [faultsAlone_eq, entryFaults_of_no_id ((filled?_put _ (by decide)).trans hnone)]
    rfl
  bindings := Agent.exists_faultsOf

/-- No fault masks another. The faults of a document are those of the document itself, and then
those that each entry in turn has when it is alone; only an entry that repeats an identifier adds
nothing but that collision. Within an entry the agents and their bindings all add their own. -/
theorem faults_unmasked {items : List Value}
    (h : Fields.get? fs "instances" = some (.list items)) (hne : items ≠ []) :
    (∀ v, (report tree dir (only fs v)).filter Issue.isFault =
      rootIssues fs ++ faultsAlone tree dir fs v) ∧
    (report tree dir (.mapping fs)).filter Issue.isFault =
      rootIssues fs ++ (inTurn [] items).flatMap (fun e =>
        if Repeats e.1 e.2 then []
        else (faultsAlone tree dir fs e.2).map (Issue.renumber 1 e.1.length)) ∧
    (∃ part : List Value → Value → List Issue,
      report tree dir (.mapping fs) =
        rootIssues fs ++ (inTurn [] items).flatMap (fun e => part e.1 e.2) ∧
      ∀ before v,
        (Repeats before v → ∃ id, Names v id ∧ part before v = [.duplicateInstance id]) ∧
        (¬ Repeats before v → (part before v).filter Issue.isFault =
          (faultsAlone tree dir fs v).map (Issue.renumber 1 before.length))) ∧
    ∃ ofAgent, EachOwn tree dir fs ofAgent := by
  have hpart (before : List Value) (v : Value) (hnew : ¬ Repeats before v) :
      (entryPart tree dir (strideOf fs) before v).filter Issue.isFault =
        (faultsAlone tree dir fs v).map (Issue.renumber 1 before.length) := by
    rw [filter_entryPart hnew, faultsAlone_renumber]
  have hreport : report tree dir (.mapping fs) = _ := report_mapping h hne
  refine ⟨fun v => ?_, ?_, ⟨entryPart tree dir (strideOf fs), hreport, fun before v =>
    ⟨fun hrep => entryPart_of_repeats hrep, hpart before v⟩⟩, ⟨_, eachOwn_faultsOf tree dir fs⟩⟩
  · rw [faults_only, faultsAlone_eq]
  · -- the only issue with an entry that repeats an identifier is a collision, which is filtered out
    rw [hreport, List.filter_append, filter_rootIssues, List.filter_flatMap]
    refine congrArg _ (List.flatMap_congr fun e _ => ?_)
    split
    · rename_i hrep
      obtain ⟨id, -, hid⟩ := entryPart_of_repeats hrep
      rw [hid]
      rfl
    · rename_i hnew
      exact hpart _ _ hnew

def mixedItems : List Value :=
  [.mapping [("id", .string "east"), ("host", .mapping [("gateway_port", .ofNat 4000)]),
      ("paths", .mapping (pairPaths "east").toFields),
      ("runtime", .mapping [("config_layers", .ofStrings ["gone"])]),
      ("agents", .list [pairAda.toValue, .null, .mapping [("id", .string "ada")]])],
    .list [],
    .mapping [("id", .string "east"), ("host", .null)],
    .mapping [("id", .string "west"), ("host", .mapping [("gateway_port", .ofNat 4010)]),
      ("paths", .mapping (pairPaths "east").toFields)]]

def mixedFields : Fields Value := [("version", .ofNat 2), ("instances", .list mixedItems)]

theorem faults_unmasked_mixed :
    Fields.get? mixedFields "instances" = some (.list mixedItems) ∧ mixedItems ≠ [] ∧
    (report pairTree pairDir (.mapping mixedFields)).filter Issue.isFault =
      [.shape [.key "version"] .notSupportedVersion,
        .missingLayer "east" "gone",
        .shape (entryPlace 0 ++ [.key "agents", .index 1]) .notMapping,
        .shape (entryPlace 0 ++ [.key "agents", .index 2, .key "bindings"]) .notFilledList,
        .shape (entryPlace 1) .notMapping,
        .shape (entryPlace 3 ++ [.key "runtime"]) .notMapping] ∧
    (report pairTree pairDir (.mapping mixedFields)).length = 13 := by
  refine ⟨rfl, by simp [mixedItems], ?_, ?_⟩
  · rw [(faults_unmasked rfl (by simp [mixedItems])).2.1]
    rfl
  · rfl

end GatewayFleet.Fleet
