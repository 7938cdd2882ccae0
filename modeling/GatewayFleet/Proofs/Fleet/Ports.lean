import GatewayFleet.Proofs.Fleet.Entries

/-! Port collisions. Every instance whose identifier is its own and whose gateway port can be read
claims a range of ports, whatever else is wrong with it, and the report has one issue for every two
ranges that meet. The ends of the ranges are the same in words of fixed width. -/

namespace GatewayFleet.Fleet

open Checked (All)

variable {tree : Tree} {dir : Path} {stride : Nat} {id : String}

def Issue.isPortOverlap : Issue → Bool
  | .portOverlap .. => true
  | _ => false

/-- The stride in the defaults, or the usual one where it is absent or of no use. -/
def usableStride (doc : Value) : Nat :=
  (((doc.at? ["defaults", "port_stride"]).bind Value.asUnsigned?).filter (1 ≤ ·)).getD 20

/-- The ports of an entry: from its gateway port on, as many as the stride says and there are. -/
def rangeOf? (doc v : Value) : Option PortRange :=
  match textAt v ["id"], port? (v.at? ["host", "gateway_port"]) with
  | some id, some port => some ⟨id, port, min (port + usableStride doc - 1) 65535⟩
  | _, _ => none

/-- The ranges that the entries claim in turn. One that repeats an identifier claims none. -/
def claimedRanges (doc : Value) : List PortRange :=
  (inTurn [] (entries doc "instances")).filterMap fun e =>
    if Repeats e.1 e.2 then none else rangeOf? doc e.2

def rangePairs (ranges : List PortRange) : List (PortRange × PortRange) :=
  (inTurn [] ranges).flatMap fun e => e.1.map (e.2, ·)

theorem rangePairs_concat (ranges : List PortRange) (range : PortRange) :
    rangePairs (ranges ++ [range]) = rangePairs ranges ++ ranges.map (range, ·) := by
  rw [rangePairs, inTurn_concat, List.flatMap_append, List.flatMap_singleton]
  rfl

theorem one_le_usableStride (doc : Value) : 1 ≤ usableStride doc := by
  unfold usableStride
  cases h : ((doc.at? ["defaults", "port_stride"]).bind Value.asUnsigned?).filter (1 ≤ ·) with
  | none => decide
  | some n =>
    obtain ⟨-, hn⟩ := Option.filter_eq_some_iff.1 h
    simpa using hn

theorem getD_readStride (s : Section) :
    (readStride s).value.getD defaultPortStride = min ((((s.get? "port_stride").bind
      Value.asUnsigned?).filter (1 ≤ ·)).getD 20) strideLimit := by
  unfold readStride
  generalize s.get? "port_stride" = m
  split
  · rfl
  · rfl
  · rename_i v _
    rw [Option.bind_some]
    rcases v.asUnsigned? with _ | _ | n
    · rfl
    · rfl
    · simp [Option.filter]

theorem strideOf_eq (fs : Fields Value) :
    strideOf fs = min (usableStride (.mapping fs)) strideLimit := by
  rw [strideOf, readDefaults, usableStride, Value.at?_mapping]
  simp only [Section.optionalMapping, Section.get?]
  rcases Fields.get? fs "defaults" with _ | v
  · rfl
  · cases v with
    | mapping ds =>
      rw [Option.bind_some, Value.at?_singleton]
      simp only [pure_bind, Defaults.read_some]
      exact getD_readStride ⟨ds, [.key "defaults"]⟩
    | null | bool _ | number _ | string _ | list _ => rfl

def rangeIn? (stride : Nat) (v : Value) : Option PortRange :=
  match textAt v ["id"], port? (v.at? ["host", "gateway_port"]) with
  | some id, some port => some (.of id port stride)
  | _, _ => none

theorem port?_eq_some {m : Option Value} {port : Nat} (h : port? m = some port) :
    1 ≤ port ∧ port ≤ 65535 := by
  unfold port? at h
  split at h
  · split at h
    · rename_i hport
      rwa [← Option.some.inj h]
    · cases h
  · cases h

/-- A stride that is not kept as it is takes all the ports there are anyway. -/
theorem rangeIn?_strideOf (fs : Fields Value) (v : Value) :
    rangeIn? (strideOf fs) v = rangeOf? (.mapping fs) v := by
  rw [rangeIn?, rangeOf?, strideOf_eq]
  split
  · rename_i id port hid hport
    have hlast : min (port + min (usableStride (.mapping fs)) strideLimit - 1) maxPort =
        min (port + usableStride (.mapping fs) - 1) 65535 := by
      have hfirst := port?_eq_some hport
      simp only [strideLimit, maxPort]
      omega
    rw [PortRange.of, hlast]
  · rfl

theorem gatewayPort_readHost (s : Section) :
    (readHost s).value.map Host.gatewayPort =
      port? ((Value.mapping s.fields).at? ["host", "gateway_port"]) := by
  rw [readHost, Value.at?_mapping]
  simp only [Section.mapping, Section.get?]
  rcases Fields.get? s.fields "host" with _ | v
  · rfl
  · cases v with
    | mapping hs =>
      rw [Option.bind_some, Value.at?_singleton]
      simp only [pure_bind, Host.read, Section.get?]
      rcases port? (Fields.get? hs "gateway_port") with _ | port <;> rfl
    | null | bool _ | number _ | string _ | list _ => rfl

def claimRange (taken : List PortRange) : Option PortRange → Checked (List PortRange)
  | none => pure taken
  | some range => claimPorts taken range

theorem value_claimRange (taken : List PortRange) (r : Option PortRange) :
    (claimRange taken r).value = taken ++ r.toList := by
  cases r with
  | none => exact (List.append_nil _).symm
  | some range => rfl

theorem claimHost_eq {s : Section} (h : Section.filled? (Fields.get? s.fields "id") = some id)
    (taken : List PortRange) :
    claimHost stride id taken (readHost s).value =
      claimRange taken (rangeIn? stride (.mapping s.fields)) := by
  rw [rangeIn?, textAt_singleton, h, ← gatewayPort_readHost]
  cases (readHost s).value <;> rfl

theorem filter_isPortOverlap_under (place : Place) (issues : List Issue) :
    (issues.map (Issue.under place)).filter Issue.isPortOverlap =
      issues.filter Issue.isPortOverlap := by
  induction issues with
  | nil => rfl
  | cons issue issues ih =>
    cases issue with
    | portOverlap later earlier => exact congrArg (.portOverlap later earlier :: ·) ih
    | _ => exact ih

def NoOverlap (issue : Issue) : Prop := issue.isPortOverlap = false

theorem filter_eq_nil_of_noOverlap {issues : List Issue} (h : ∀ issue ∈ issues, NoOverlap issue) :
    issues.filter Issue.isPortOverlap = [] := by
  refine List.filter_eq_nil_iff.2 fun issue hissue => ?_
  rw [h issue hissue]
  exact Bool.false_ne_true

theorem Checked.All.filter_eq_nil {α : Type} {x : Checked α} (h : x.All NoOverlap) :
    x.issues.filter Issue.isPortOverlap = [] :=
  filter_eq_nil_of_noOverlap h

theorem noOverlap_of_structural {issue : Issue} (h : issue.kind = .structural) :
    NoOverlap issue := by
  cases issue with
  | portOverlap _ _ => cases h
  | _ => rfl

theorem Checked.OfShape.noOverlap {α : Type} {x : Checked α} (h : x.OfShape) : x.All NoOverlap :=
  fun issue hissue => noOverlap_of_structural (h issue hissue)

theorem Agent.noOverlap_readAll (place : Place) (i : Nat) (seats : Seats) (items : List Value) :
    (Agent.readAll place i seats items).All NoOverlap := by
  induction items generalizing i seats with
  | nil => exact Checked.all_pure _
  | cons v items ih =>
    cases v with
    | mapping fs =>
      rw [Agent.readAll]
      refine (Agent.ofShape_read _).noOverlap.bind fun found => ?_
      split
      · exact ih _ _
      · split
        · exact All.bind (List.forall_mem_singleton.2 rfl) fun _ => ih _ _
        · exact (seats.all_claim (fun _ => rfl) (fun _ => rfl) (fun _ => rfl) _).bind fun _ =>
            (ih _ _).bind fun _ => Checked.all_pure _
    | null | bool _ | number _ | string _ | list _ =>
      exact (Checked.ofShape_report _ _).noOverlap.bind fun _ => ih _ _

theorem noOverlap_readAgents (s : Section) : (readAgents s).All NoOverlap := by
  unfold readAgents
  split
  · exact Checked.all_pure _
  · exact Checked.all_pure _
  · exact Agent.noOverlap_readAll _ _ _ _
  · exact (Checked.ofShape_faulty _ _ _).noOverlap

theorem ofShape_readHost (s : Section) : (readHost s).OfShape := by
  refine (s.ofShape_mapping _).bind fun m => ?_
  split
  · exact Checked.ofShape_pure _
  · exact Host.ofShape_read _

theorem ofShape_readRolePaths (s : Section) (raw : Option (Fields Value)) :
    (readRolePaths s raw).OfShape := by
  cases raw with
  | none => exact Checked.ofShape_pure _
  | some fs => exact RolePaths.ofShape_read _

theorem filter_claimRange (taken : List PortRange) (r : Option PortRange) :
    (claimRange taken r).issues.filter Issue.isPortOverlap = (claimRange taken r).issues := by
  cases r with
  | none => rfl
  | some range =>
    refine List.filter_eq_self.2 fun issue hissue => ?_
    obtain ⟨earlier, -, rfl⟩ := List.mem_map.1 hissue
    rfl

theorem Instance.overlaps_read {s : Section}
    (h : Section.filled? (Fields.get? s.fields "id") = some id) (claims : Claims) :
    (Instance.read tree dir stride id s claims).issues.filter Issue.isPortOverlap =
      (claimRange claims.ports (rangeIn? stride (.mapping s.fields))).issues := by
  have hpaths : (claimRaw dir id claims.paths (s.mapping "paths").value).All NoOverlap :=
    all_claimRaw (fun _ _ _ _ => rfl) _ _
  have hmissing : (reportMissing tree dir id (RuntimeBlock.read s).value).All NoOverlap :=
    all_reportMissing (fun _ => rfl) _
  simp only [Instance.issues_read, List.filter_append, (ofShape_readHost s).noOverlap.filter_eq_nil,
    claimHost_eq h, filter_claimRange, (s.ofShape_mapping _).noOverlap.filter_eq_nil,
    hpaths.filter_eq_nil, (ofShape_readRolePaths s _).noOverlap.filter_eq_nil,
    (RuntimeBlock.ofShape_read s).noOverlap.filter_eq_nil, hmissing.filter_eq_nil,
    (noOverlap_readAgents s).filter_eq_nil, (ofShape_readChannels s).noOverlap.filter_eq_nil,
    (s.ofShape_policy _).noOverlap.filter_eq_nil, List.nil_append, List.append_nil]

def newRange? (stride : Nat) (before : List Value) (v : Value) : Option PortRange :=
  if Repeats before v then none else rangeIn? stride v

theorem Instance.ports_readEntry {claims : Claims} {v : Value}
    (h : ∀ id ∈ claims.ids, ¬ Names v id) :
    (readEntry tree dir stride [] claims v).issues.filter Issue.isPortOverlap =
      (claimRange claims.ports (rangeIn? stride v)).issues ∧
    (readEntry tree dir stride [] claims v).value.2.ports =
      (claimRange claims.ports (rangeIn? stride v)).value := by
  cases v with
  | mapping fs =>
    simp only [readEntry, Section.get?]
    cases hname : Section.filled? (Fields.get? fs "id") with
    | none =>
      have hrange : rangeIn? stride (.mapping fs) = none := by
        rw [rangeIn?, textAt_singleton, hname]
      rw [hrange]
      exact ⟨rfl, rfl⟩
    | some id =>
      have hid : id ∉ claims.ids := fun hid => h id hid (names_mapping_iff.2 hname)
      simp only [hid, if_false, Instance.claims_read, claimHost_eq (s := ⟨fs, []⟩) hname, and_true]
      exact Instance.overlaps_read (s := ⟨fs, []⟩) hname _
  | null | bool _ | number _ | string _ | list _ => exact ⟨rfl, rfl⟩

theorem overlaps_entry (before : List Value) (v : Value) :
    (entryPart tree dir stride before v).filter Issue.isPortOverlap =
      (claimRange (Claims.after tree dir stride before).ports
        (newRange? stride before v)).issues ∧
    (Claims.after tree dir stride (before ++ [v])).ports =
      (claimRange (Claims.after tree dir stride before).ports
        (newRange? stride before v)).value := by
  rw [Claims.after_concat, entryPart, entryIssues, filter_isPortOverlap_under, newRange?]
  by_cases hrep : Repeats before v
  · obtain ⟨id, -, hread⟩ := @readEntry_of_repeats tree dir stride before v hrep
    rw [hread, if_pos hrep]
    exact ⟨rfl, rfl⟩
  · rw [if_neg hrep]
    exact Instance.ports_readEntry (Claims.fresh_of_not_repeats hrep)

def rangesIn (stride : Nat) (items : List Value) : List PortRange :=
  (inTurn [] items).filterMap fun e => newRange? stride e.1 e.2

theorem rangesIn_concat (items : List Value) (v : Value) :
    rangesIn stride (items ++ [v]) =
      rangesIn stride items ++ (newRange? stride items v).toList := by
  rw [rangesIn, inTurn_concat, List.filterMap_append, rangesIn]
  cases h : newRange? stride items v <;> simp [h]

theorem Claims.ports_after (items : List Value) :
    (after tree dir stride items).ports = rangesIn stride items := by
  induction items using List.reverseRecOn with
  | nil => rfl
  | append_singleton items v ih =>
    rw [(overlaps_entry items v).2, value_claimRange, ih, rangesIn_concat]

def overlapIssues (ranges : List PortRange) : List Issue :=
  ((rangePairs ranges).filter fun p => p.1.Meets p.2).map fun p => .portOverlap p.1 p.2

theorem overlapIssues_concat (ranges : List PortRange) (range : PortRange) :
    overlapIssues (ranges ++ [range]) =
      overlapIssues ranges ++ (claimPorts ranges range).issues := by
  rw [overlapIssues, rangePairs_concat, List.filter_append, List.map_append, List.filter_map,
    List.map_map]
  rfl

theorem overlaps_inTurn (items : List Value) :
    (inTurn [] items).flatMap (fun e =>
      (entryPart tree dir stride e.1 e.2).filter Issue.isPortOverlap) =
        overlapIssues (rangesIn stride items) := by
  -- the last entry is compared with the ranges of all those before it
  induction items using List.reverseRecOn with
  | nil => rfl
  | append_singleton items v ih =>
    rw [inTurn_concat, List.flatMap_append, ih, List.flatMap_singleton, (overlaps_entry items v).1,
      Claims.ports_after, rangesIn_concat]
    cases newRange? stride items v with
    | none => simp [claimRange]
    | some range => exact (overlapIssues_concat _ _).symm

theorem claimedRanges_mapping (fs : Fields Value) :
    claimedRanges (.mapping fs) = rangesIn (strideOf fs) (entries (.mapping fs) "instances") := by
  refine List.filterMap_congr fun e _ => ?_
  rw [newRange?, rangeIn?_strideOf]

theorem overlaps_report (tree : Tree) (dir : Path) (doc : Value) :
    (report tree dir doc).filter Issue.isPortOverlap = overlapIssues (claimedRanges doc) := by
  by_cases hnil : entries doc "instances" = []
  · have hshape := (@Inventory.ofShape_read tree dir doc hnil).noOverlap
    rw [report_eq, hshape.filter_eq_nil, claimedRanges, hnil]
    rfl
  · obtain ⟨fs, rfl, hget⟩ := get?_of_entries_ne_nil hnil
    have hroot : (rootIssues fs).filter Issue.isPortOverlap = [] :=
      filter_eq_nil_of_noOverlap fun issue hissue =>
        noOverlap_of_structural (structural_of_mem_rootIssues hissue)
    rw [report_mapping hget hnil, List.filter_append, hroot, List.filter_flatMap, List.nil_append,
      overlaps_inTurn, claimedRanges_mapping]

theorem mem_claimedRanges {doc : Value} {r : PortRange} (h : r ∈ claimedRanges doc) :
    1 ≤ r.first ∧ r.first ≤ 65535 ∧ r.last = min (r.first + usableStride doc - 1) 65535 := by
  obtain ⟨e, -, he⟩ := List.mem_filterMap.1 h
  split at he
  · cases he
  · unfold rangeOf? at he
    split at he
    · rename_i hport
      obtain rfl := Option.some.inj he
      exact ⟨(port?_eq_some hport).1, (port?_eq_some hport).2, rfl⟩
    · cases he

def lastInWords (port : UInt16) (stride : UInt32) : UInt32 :=
  (min (port.toUInt32.toUInt64 + stride.toUInt64 - 1) 65535).toUInt32

theorem toNat_min (a b : UInt64) : (min a b).toNat = min a.toNat b.toNat := by
  change (if a ≤ b then a else b).toNat = _
  rw [Nat.min_def, apply_ite UInt64.toNat]
  rfl

theorem toNat_lastInWords {port : UInt16} {stride : UInt32} (h : 1 ≤ port.toNat) :
    (lastInWords port stride).toNat = min (port.toNat + stride.toNat - 1) 65535 := by
  have hport := port.toNat_lt
  have hstride := stride.toNat_lt
  have hsum : (port.toUInt32.toUInt64 + stride.toUInt64).toNat = port.toNat + stride.toNat := by
    rw [UInt64.toNat_add, UInt32.toNat_toUInt64, UInt16.toNat_toUInt32, UInt32.toNat_toUInt64]
    omega
  have hdifference : (port.toUInt32.toUInt64 + stride.toUInt64 - 1).toNat =
      port.toNat + stride.toNat - 1 := by
    rw [UInt64.toNat_sub_of_le, hsum]
    · rfl
    · rw [UInt64.le_iff_toNat_le, hsum]
      exact Nat.le_add_right_of_le h
  have hmax : (65535 : UInt64).toNat = 65535 := rfl
  rw [lastInWords, UInt64.toNat_toUInt32, toNat_min, hdifference, hmax]
  omega

def strideWord (doc : Value) : UInt32 := UInt32.ofNat (min (usableStride doc) strideLimit)

theorem toNat_strideWord (doc : Value) :
    (strideWord doc).toNat = min (usableStride doc) strideLimit := by
  rw [strideWord, UInt32.toNat_ofNat']
  simp only [strideLimit]
  omega

theorem exists_words {doc : Value} {r : PortRange} (h : r ∈ claimedRanges doc) :
    ∃ port : UInt16, port.toNat = r.first ∧ 1 ≤ port.toNat + (strideWord doc).toNat ∧
      port.toNat + (strideWord doc).toNat < UInt64.size ∧
      (lastInWords port (strideWord doc)).toNat = r.last := by
  obtain ⟨hfirst, hlimit, hlast⟩ := mem_claimedRanges h
  have hstride := toNat_strideWord doc
  have hport : (UInt16.ofNat r.first).toNat = r.first := by
    rw [UInt16.toNat_ofNat']
    omega
  have hwords := @toNat_lastInWords (UInt16.ofNat r.first) (strideWord doc) (by omega)
  have hsize : UInt64.size = 0x10000000000000000 := rfl
  rw [strideLimit] at hstride
  exact ⟨UInt16.ofNat r.first, hport, by omega, by omega, by omega⟩

/-- Every two ranges that meet are reported once, the later one against the earlier one, in the
order of the later and then of the earlier ones. Two ranges meet when they have a port in common,
and computing a range in words gives the same range. -/
theorem port_overlaps_reported (tree : Tree) (dir : Path) (doc : Value) :
    (report tree dir doc).filter Issue.isPortOverlap =
      ((rangePairs (claimedRanges doc)).filter fun p => p.1.Meets p.2).map
        (fun p => .portOverlap p.1 p.2) ∧
    ∀ a ∈ claimedRanges doc,
      (1 ≤ a.first ∧ a.first ≤ a.last ∧ a.last = min (a.first + usableStride doc - 1) 65535) ∧
      (∃ port : UInt16, port.toNat = a.first ∧ 1 ≤ port.toNat + (strideWord doc).toNat ∧
        port.toNat + (strideWord doc).toNat < UInt64.size ∧
        (lastInWords port (strideWord doc)).toNat = a.last) ∧
      ∀ b ∈ claimedRanges doc, a.Meets b ↔
        ∃ port, (a.first ≤ port ∧ port ≤ a.last) ∧ b.first ≤ port ∧ port ≤ b.last := by
  have hfilled {r : PortRange} (h : r ∈ claimedRanges doc) : r.first ≤ r.last := by
    have hstride := one_le_usableStride doc
    obtain ⟨-, hlimit, hlast⟩ := mem_claimedRanges h
    omega
  refine ⟨overlaps_report tree dir doc, fun a ha => ?_⟩
  obtain ⟨hfirst, -, hlast⟩ := mem_claimedRanges ha
  exact ⟨⟨hfirst, hfilled ha, hlast⟩, exists_words ha,
    fun b hb => PortRange.meets_iff (hfilled ha) (hfilled hb)⟩

-- Ranges that end at the last port, the second of them with an address that is not a text.
example : (report pairTree pairDir (.mapping [("instances", .list [
      .mapping [("id", .string "a"), ("host", .mapping [("gateway_port", .ofNat 65530)])],
      .mapping [("id", .string "b"),
        ("host", .mapping [("gateway_port", .ofNat 65535), ("bind", .ofNat 0)])],
      .mapping [("id", .string "a"),
        ("host", .mapping [("gateway_port", .ofNat 65532)])]])])).filter Issue.isPortOverlap =
    [.portOverlap ⟨"b", 65535, 65535⟩ ⟨"a", 65530, 65535⟩] := by
  rfl

end GatewayFleet.Fleet
