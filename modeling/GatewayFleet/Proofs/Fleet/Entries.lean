import GatewayFleet.Proofs.Fleet.Collisions
import GatewayFleet.Proofs.Fleet.Placing

/-! The pass taken apart. The entries of the list of instances are read in turn, and all that one of
them passes on to the next is what has been taken so far; so the report is made of one part for each
entry, which depends on the entry and on those before it. -/

namespace GatewayFleet.Fleet

variable {tree : Tree} {dir : Path} {stride : Nat} {id : String}

def report (tree : Tree) (dir : Path) (doc : Value) : List Issue :=
  match Inventory.ofValue? tree dir doc with
  | .ok _ => []
  | .error issues => issues

theorem report_eq (doc : Value) : report tree dir doc = (Inventory.read tree dir doc).issues := by
  unfold report Inventory.ofValue?
  generalize Inventory.read tree dir doc = x
  rcases x with ⟨issues, _ | inv⟩
  · rfl
  · cases issues <;> rfl

section

variable {α : Type}

/-- Every entry of a list with the entries before it, of which `before` come first. -/
def inTurn (before : List α) : List α → List (List α × α)
  | [] => []
  | x :: xs => (before, x) :: inTurn (before ++ [x]) xs

theorem inTurn_append (before xs ys : List α) :
    inTurn before (xs ++ ys) = inTurn before xs ++ inTurn (before ++ xs) ys := by
  induction xs generalizing before with
  | nil => simp [inTurn]
  | cons x xs ih => simp [inTurn, ih]

theorem inTurn_concat (xs : List α) (x : α) :
    inTurn [] (xs ++ [x]) = inTurn [] xs ++ [(xs, x)] := by
  rw [inTurn_append]
  rfl

end

def Repeats (before : List Value) (v : Value) : Prop := ∃ u ∈ before, ∃ id, Names u id ∧ Names v id

theorem repeats_iff_of_names {before : List Value} {v : Value} (hv : Names v id) :
    Repeats before v ↔ ∃ u ∈ before, Names u id := by
  refine exists_congr fun u => and_congr_right fun _ => ⟨?_, fun hu => ⟨id, hu, hv⟩⟩
  rintro ⟨id', hu, hv'⟩
  exact Option.some.inj (hv'.symm.trans hv) ▸ hu

theorem not_repeats_of_not_names {before : List Value} {v : Value} (hv : ∀ id, ¬ Names v id) :
    ¬ Repeats before v :=
  fun ⟨_, _, _, _, h⟩ => hv _ h

instance (v : Value) (id : String) : Decidable (Names v id) :=
  inferInstanceAs (Decidable (textAt v ["id"] = some id))

instance (before : List Value) (v : Value) : Decidable (Repeats before v) :=
  match h : textAt v ["id"] with
  | none => isFalse (not_repeats_of_not_names fun _ hid => nomatch h.symm.trans hid)
  | some _ => decidable_of_iff _ (repeats_iff_of_names h).symm

def readHost (s : Section) : Checked (Option Host) := do
  match ← s.mapping "host" with
  | none => pure none
  | some fs => Host.read ⟨fs, s.at_ "host"⟩

def claimHost (stride : Nat) (id : String) (taken : List PortRange) :
    Option Host → Checked (List PortRange)
  | none => pure taken
  | some h => claimPorts taken (.of id h.gatewayPort stride)

def claimRaw (dir : Path) (id : String) (taken : List PathClaim) :
    Option (Fields Value) → Checked (List PathClaim)
  | none => pure taken
  | some fs => claimPaths dir id fs taken

def readRolePaths (s : Section) : Option (Fields Value) → Checked (Option RolePaths)
  | none => pure none
  | some fs => RolePaths.read ⟨fs, s.at_ "paths"⟩

def reportMissing (tree : Tree) (dir : Path) (id : String) (runtime : Option RuntimeBlock) :
    Checked Unit :=
  ⟨missingLayers tree dir id ((runtime.map (·.configLayers)).getD []), ()⟩

theorem Instance.read_eq (s : Section) (claims : Claims) :
    Instance.read tree dir stride id s claims = (do
      let host ← readHost s
      let ports ← claimHost stride id claims.ports host
      let raw ← s.mapping "paths"
      let pathClaims ← claimRaw dir id claims.paths raw
      let paths ← readRolePaths s raw
      let runtime ← RuntimeBlock.read s
      reportMissing tree dir id runtime
      let agents ← readAgents s
      let channels ← readChannels s
      let policy ← s.policy "policy"
      let claims : Claims := { claims with ports := ports, paths := pathClaims }
      pure (match host, paths, runtime with
        | some host, some paths, some runtime =>
          (some ⟨id, host, paths, runtime, agents, channels, policy, s.without instanceKeys⟩,
            claims)
        | _, _, _ => (none, claims))) := by
  -- the cases are those in which the two sides bind the same readers
  unfold Instance.read readHost
  simp only [bind_assoc]
  refine bind_congr fun m => ?_
  cases m with
  | none =>
    simp only [claimHost, pure_bind]
    refine bind_congr fun raw => ?_
    cases raw <;> rfl
  | some fs =>
    refine bind_congr fun host => ?_
    cases host with
    | none =>
      simp only [claimHost, pure_bind]
      refine bind_congr fun raw => ?_
      cases raw <;> rfl
    | some h =>
      refine bind_congr fun ports => ?_
      refine bind_congr fun raw => ?_
      cases raw <;> rfl

theorem Instance.issues_read (s : Section) (claims : Claims) :
    (Instance.read tree dir stride id s claims).issues =
      (readHost s).issues ++ ((claimHost stride id claims.ports (readHost s).value).issues ++
        ((s.mapping "paths").issues ++
          ((claimRaw dir id claims.paths (s.mapping "paths").value).issues ++
            ((readRolePaths s (s.mapping "paths").value).issues ++
              ((RuntimeBlock.read s).issues ++
                ((reportMissing tree dir id (RuntimeBlock.read s).value).issues ++
                  ((readAgents s).issues ++
                    ((readChannels s).issues ++ (s.policy "policy").issues)))))))) := by
  simp only [Instance.read_eq, Checked.issues_bind, Checked.issues_pure, List.append_nil]

theorem Instance.claims_read (s : Section) (claims : Claims) :
    (Instance.read tree dir stride id s claims).value.2 =
      { claims with
        ports := (claimHost stride id claims.ports (readHost s).value).value
        paths := (claimRaw dir id claims.paths (s.mapping "paths").value).value } := by
  rw [Instance.read_eq]
  simp only [Checked.value_bind, Checked.value_pure]
  split <;> rfl

theorem onlyCollisions_claimHost (taken : List PortRange) (host : Option Host) :
    (claimHost stride id taken host).OnlyCollisions := by
  cases host with
  | none => exact Checked.onlyCollisions_pure _
  | some h => exact onlyCollisions_claimPorts _ _

theorem all_claimRaw {P : Issue → Prop}
    (h : ∀ role id raw owner, P (.sharedPath role id raw owner)) (taken : List PathClaim)
    (raw : Option (Fields Value)) : (claimRaw dir id taken raw).All P := by
  cases raw with
  | none => exact Checked.all_pure _
  | some fs => exact all_claimPaths h _ _ _ _

theorem onlyCollisions_claimRaw (taken : List PathClaim) (raw : Option (Fields Value)) :
    (claimRaw dir id taken raw).OnlyCollisions :=
  all_claimRaw (fun _ _ _ _ => rfl) taken raw

theorem all_reportMissing {P : Issue → Prop} (h : ∀ layer, P (.missingLayer id layer))
    (runtime : Option RuntimeBlock) : (reportMissing tree dir id runtime).All P := by
  intro issue hissue
  obtain ⟨layer, -, rfl⟩ := List.mem_map.1 hissue
  exact h layer

section

variable (place : Place) (s : Section)

theorem readHost_under : readHost (s.under place) = (readHost s).under place := by
  simp only [readHost, Section.mapping_under, Checked.under_bind]
  refine bind_congr fun m => ?_
  cases m with
  | none => rfl
  | some fs => simp only [Section.at_under, Section.mk_append, Host.read_under]

theorem readRolePaths_under (raw : Option (Fields Value)) :
    readRolePaths (s.under place) raw = (readRolePaths s raw).under place := by
  cases raw with
  | none => rfl
  | some fs => simp only [readRolePaths, Section.at_under, Section.mk_append, RolePaths.read_under]

theorem reportMissing_under (runtime : Option RuntimeBlock) :
    (reportMissing tree dir id runtime).under place = reportMissing tree dir id runtime :=
  Checked.under_eq_self (all_reportMissing (fun _ => by simp [Issue.kind]) runtime)

theorem Instance.read_under (claims : Claims) :
    Instance.read tree dir stride id (s.under place) claims =
      (Instance.read tree dir stride id s claims).under place := by
  simp only [Instance.read_eq, readHost_under, Section.mapping_under, readRolePaths_under,
    RuntimeBlock.read_under, readAgents_under, readChannels_under, Section.policy_under,
    Section.without_under, Checked.under_bind, Checked.under_pure, reportMissing_under,
    (onlyCollisions_claimHost _ _).under_eq_self, (onlyCollisions_claimRaw _ _).under_eq_self]

end

/-- What stands at a place in the list of instances, read after `claims` have been taken. -/
def Instance.readEntry (tree : Tree) (dir : Path) (stride : Nat) (place : Place) (claims : Claims) :
    Value → Checked (Option Instance × Claims)
  | .mapping fs =>
    let s : Section := ⟨fs, place⟩
    match Section.filled? (s.get? "id") with
    | none => Checked.faulty (s.at_ "id") .notFilledString (none, claims)
    | some id =>
      if id ∈ claims.ids then ⟨[.duplicateInstance id], (none, claims)⟩
      else Instance.read tree dir stride id s { claims with ids := claims.ids ++ [id] }
  | _ => Checked.faulty place .notMapping (none, claims)

def entryPlace (n : Nat) : Place := [.key "instances", .index n]

theorem Instance.issues_readAll_cons (n : Nat) (claims : Claims) (v : Value) (items : List Value) :
    (Instance.readAll tree dir stride n claims (v :: items)).issues =
      (readEntry tree dir stride (entryPlace n) claims v).issues ++
        (Instance.readAll tree dir stride (n + 1)
          (readEntry tree dir stride (entryPlace n) claims v).value.2 items).issues := by
  cases v with
  | mapping fs =>
    rw [Instance.readAll]
    simp only [readEntry, entryPlace]
    cases Section.filled? (Section.get? ⟨fs, [.key "instances", .index n]⟩ "id") with
    | none => rfl
    | some id =>
      by_cases hid : id ∈ claims.ids
      · simp only [hid, if_true]
        rfl
      · simp only [hid, if_false, Checked.issues_bind, Checked.issues_pure, List.append_nil]
  | null | bool _ | number _ | string _ | list _ => rfl

theorem Instance.readEntry_eq_under (place : Place) (claims : Claims) (v : Value) :
    readEntry tree dir stride place claims v =
      (readEntry tree dir stride [] claims v).under place := by
  cases v with
  | mapping fs =>
    have hs : (⟨fs, place⟩ : Section) = (⟨fs, []⟩ : Section).under place := by
      rw [Section.under, List.append_nil]
    simp only [readEntry, hs, Section.get?_under]
    cases Section.filled? (Section.get? ⟨fs, []⟩ "id") with
    | none => simp only [Section.at_under, Checked.under_faulty]
    | some id =>
      by_cases hid : id ∈ claims.ids
      · simp only [hid, if_true]
        rfl
      · simp only [hid, if_false, Instance.read_under]
  | null | bool _ | number _ | string _ | list _ =>
    simp only [readEntry, Checked.under_faulty, List.append_nil]

theorem Instance.mem_ids_readEntry {place : Place} {claims : Claims} {v : Value} :
    id ∈ (readEntry tree dir stride place claims v).value.2.ids ↔ id ∈ claims.ids ∨ Names v id := by
  cases v with
  | mapping fs =>
    rw [names_mapping_iff]
    simp only [readEntry, Section.get?]
    cases hname : Section.filled? (Fields.get? fs "id") with
    | none => simp [Checked.faulty]
    | some name =>
      by_cases hmem : name ∈ claims.ids
      · simp only [hmem, if_true, Option.some.injEq, iff_self_or]
        rintro rfl
        exact hmem
      · simp [hmem, Instance.claims_read, eq_comm]
  | null | bool _ | number _ | string _ | list _ => exact (or_iff_left fun h => by cases h).symm

def Claims.after (tree : Tree) (dir : Path) (stride : Nat) (items : List Value) : Claims :=
  items.foldl (fun claims v => (Instance.readEntry tree dir stride [] claims v).value.2) {}

theorem Claims.after_concat (items : List Value) (v : Value) :
    after tree dir stride (items ++ [v]) =
      (Instance.readEntry tree dir stride [] (after tree dir stride items) v).value.2 :=
  List.foldl_concat ..

theorem Claims.mem_ids_after (items : List Value) :
    id ∈ (after tree dir stride items).ids ↔ ∃ v ∈ items, Names v id := by
  induction items using List.reverseRecOn with
  | nil => simp [after]
  | append_singleton items v ih =>
    rw [after_concat, Instance.mem_ids_readEntry, ih]
    simp only [List.mem_append, List.mem_singleton, or_and_right, exists_or, exists_eq_left]

theorem Claims.fresh_of_not_repeats {before : List Value} {v : Value} (h : ¬ Repeats before v) :
    ∀ id ∈ (after tree dir stride before).ids, ¬ Names v id :=
  fun _ hid hv => h ((repeats_iff_of_names hv).2 ((mem_ids_after before).1 hid))

def entryIssues (tree : Tree) (dir : Path) (stride : Nat) (before : List Value) (v : Value) :
    List Issue :=
  (Instance.readEntry tree dir stride [] (Claims.after tree dir stride before) v).issues

def entryPart (tree : Tree) (dir : Path) (stride : Nat) (before : List Value) (v : Value) :
    List Issue :=
  (entryIssues tree dir stride before v).map (Issue.under (entryPlace before.length))

theorem Instance.issues_readAll (before items : List Value) :
    (Instance.readAll tree dir stride before.length (Claims.after tree dir stride before)
        items).issues =
      (inTurn before items).flatMap fun e => entryPart tree dir stride e.1 e.2 := by
  -- the entries read so far stand for what has been taken
  induction items generalizing before with
  | nil => rfl
  | cons v items ih =>
    have hrest := ih (before ++ [v])
    rw [Claims.after_concat, List.length_append, List.length_singleton] at hrest
    rw [Instance.issues_readAll_cons, readEntry_eq_under, Checked.value_under, hrest]
    rfl

/-- An entry that repeats an identifier is not looked into, and takes nothing. -/
theorem readEntry_of_repeats {before : List Value} {v : Value} (h : Repeats before v) :
    ∃ id, Names v id ∧
      Instance.readEntry tree dir stride [] (Claims.after tree dir stride before) v =
        ⟨[.duplicateInstance id], (none, Claims.after tree dir stride before)⟩ := by
  obtain ⟨u, hu, id, hname, hv⟩ := h
  have hid : id ∈ (Claims.after tree dir stride before).ids :=
    (Claims.mem_ids_after before).2 ⟨u, hu, hname⟩
  refine ⟨id, hv, ?_⟩
  cases v with
  | mapping fs =>
    have hget : Section.filled? (Section.get? ⟨fs, []⟩ "id") = some id := names_mapping_iff.1 hv
    simp only [Instance.readEntry, hget, hid, if_true]
  | null | bool _ | number _ | string _ | list _ => cases hv

theorem entryPart_of_repeats {before : List Value} {v : Value} (h : Repeats before v) :
    ∃ id, Names v id ∧ entryPart tree dir stride before v = [.duplicateInstance id] := by
  obtain ⟨id, hv, hread⟩ := readEntry_of_repeats h
  refine ⟨id, hv, ?_⟩
  rw [entryPart, entryIssues, hread]
  rfl

def reportVersion (root : Section) : Checked Unit :=
  if (root.get? "version").bind Value.asUnsigned? = some supportedVersion then pure ()
  else Checked.report (.shape [.key "version"] .notSupportedVersion)

def readDefaults (root : Section) : Checked Defaults := do
  Defaults.read (← root.optionalMapping "defaults")

/-- The issues with the version, the defaults and the policy of a document. -/
def rootIssues (fs : Fields Value) : List Issue :=
  let root : Section := ⟨fs, []⟩
  (reportVersion root).issues ++ (readDefaults root).issues ++ (root.policy "policy").issues

def strideOf (fs : Fields Value) : Nat := (readDefaults ⟨fs, []⟩).value.stride

theorem ofShape_reportVersion (root : Section) : (reportVersion root).OfShape := by
  unfold reportVersion
  split
  · exact Checked.ofShape_pure _
  · exact Checked.ofShape_report _ _

theorem ofShape_readDefaults (root : Section) : (readDefaults root).OfShape :=
  (root.ofShape_optionalMapping _).bind fun m => Defaults.ofShape_read m

section

variable {fs : Fields Value} {items : List Value}

theorem structural_of_mem_rootIssues {issue : Issue} (h : issue ∈ rootIssues fs) :
    issue.kind = .structural := by
  simp only [rootIssues, List.mem_append] at h
  rcases h with (h | h) | h
  · exact ofShape_reportVersion _ issue h
  · exact ofShape_readDefaults _ issue h
  · exact Section.ofShape_policy _ _ issue h

theorem Inventory.read_mapping (fs : Fields Value) :
    Inventory.read tree dir (.mapping fs) = (do
      let root : Section := ⟨fs, []⟩
      reportVersion root
      match root.get? "instances" with
      | some (.list (item :: items)) =>
        let defaults ← readDefaults root
        let policy ← root.policy "policy"
        let instances ← Instance.readAll tree dir defaults.stride 0 {} (item :: items)
        pure (some ⟨((root.get? "version").bind Value.asUnsigned?).getD 0, defaults, policy,
          instances, root.without rootKeys⟩)
      | _ => Checked.faulty [.key "instances"] .notFilledList none) := by
  simp only [Inventory.read, readDefaults, bind_assoc]
  by_cases hversion : (Section.get? ⟨fs, []⟩ "version").bind Value.asUnsigned? =
    some supportedVersion
  · have hreport : reportVersion ⟨fs, []⟩ = pure () := if_pos hversion
    rw [hreport]
    exact if_neg (not_not.2 hversion)
  · have hreport : reportVersion ⟨fs, []⟩ =
        Checked.report (.shape [.key "version"] .notSupportedVersion) := if_neg hversion
    rw [hreport]
    exact if_pos hversion

theorem report_mapping (h : Fields.get? fs "instances" = some (.list items)) (hne : items ≠ []) :
    report tree dir (.mapping fs) = rootIssues fs ++
      (inTurn [] items).flatMap fun e => entryPart tree dir (strideOf fs) e.1 e.2 := by
  obtain ⟨item, items, rfl⟩ := List.exists_cons_of_ne_nil hne
  have hget : Section.get? ⟨fs, []⟩ "instances" = some (.list (item :: items)) := h
  have hparts := @Instance.issues_readAll tree dir (strideOf fs) [] (item :: items)
  rw [report_eq, Inventory.read_mapping, ← hparts]
  simp only [hget, Checked.issues_bind, Checked.issues_pure, List.append_nil, rootIssues,
    List.append_assoc]
  rfl

theorem Inventory.ofShape_read {doc : Value} (h : entries doc "instances" = []) :
    (Inventory.read tree dir doc).OfShape := by
  cases doc with
  | mapping fs =>
    rw [Inventory.read_mapping]
    refine (ofShape_reportVersion _).bind fun _ => ?_
    split
    · rename_i item items hitems
      rw [entries_of_get? hitems] at h
      cases h
    · exact Checked.ofShape_faulty _ _ _
  | null | bool _ | number _ | string _ | list _ => exact Checked.ofShape_faulty _ _ _

end

end GatewayFleet.Fleet
