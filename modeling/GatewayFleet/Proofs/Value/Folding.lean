import Mathlib.Data.List.DropRight
import GatewayFleet.Proofs.Value.Ways

/-! Layers laid over each other, seen from a single name and from a way. Every name has its value
from the layers that give it one, laid over each other in their order. On a longer way this holds
only from the last layer on that obstructs the way: it takes away what the layers before it hold
there. -/

namespace GatewayFleet.Value

variable {v w lower upper : Value} {layers : List Value} {way : List String} {k : String}

/-- The values laid over each other from left to right; one alone stands as it is. -/
def inOrder : List Value → Option Value
  | [] => none
  | v :: vs => some (vs.foldl merge v)

theorem inOrder_append_toList (vs : List Value) (o : Option Value) :
    inOrder (vs ++ o.toList) = Option.merge merge (inOrder vs) o := by
  cases o with
  | none => simp
  | some w =>
    cases vs with
    | nil => rfl
    | cons v vs => simp [inOrder]

theorem inOrder_lists {xss : List (List Value)} (h : xss ≠ []) :
    inOrder (xss.map .list) = some (.list xss.flatten) := by
  induction xss using List.reverseRecOn with
  | nil => exact absurd rfl h
  | append_singleton xss xs ih =>
    have hsnoc := inOrder_append_toList (xss.map .list) (some (.list xs))
    rw [List.map_append, List.map_singleton, ← Option.toList_some, hsnoc]
    by_cases hxss : xss = []
    · subst hxss
      simp [inOrder]
    · rw [ih hxss, Option.merge_some_some, merge_list, List.flatten_append]
      simp

theorem exists_kind_of_inOrder {vs : List Value} (h : inOrder vs = some v) :
    ∃ x ∈ vs, x.kind = v.kind := by
  rcases List.eq_nil_or_concat vs with rfl | ⟨ws, x, rfl⟩
  · cases h
  · rw [List.concat_eq_append] at h ⊢
    have hsnoc := inOrder_append_toList ws (some x)
    rw [Option.toList_some, h] at hsnoc
    refine ⟨x, List.mem_append_right _ (List.mem_singleton_self x), ?_⟩
    cases hws : inOrder ws with
    | none =>
      rw [hws, Option.merge_none_left] at hsnoc
      rw [Option.some.inj hsnoc]
    | some w =>
      rw [hws, Option.merge_some_some] at hsnoc
      rw [Option.some.inj hsnoc, kind_merge]

theorem mergeAll_mappings (layers : List (Fields Value)) :
    mergeAll (layers.map .mapping) = .mapping (layers.foldl mergeFields []) := by
  induction layers using List.reverseRecOn with
  | nil => rfl
  | append_singleton layers fs ih =>
    rw [List.map_append, List.map_singleton, mergeAll_concat, ih, merge_mapping,
      List.foldl_append]
    rfl

theorem distinct_foldl_mergeFields (layers : List (Fields Value)) :
    Fields.Distinct (layers.foldl mergeFields []) := by
  induction layers using List.reverseRecOn with
  | nil => exact List.nodup_nil
  | append_singleton layers fs ih =>
    rw [List.foldl_append]
    exact distinct_mergeFields ih fs

theorem keys_foldl_mergeFields (layers : List (Fields Value)) :
    Fields.keys (layers.foldl mergeFields []) = (layers.flatMap Fields.keys).eraseDups := by
  induction layers using List.reverseRecOn with
  | nil => rfl
  | append_singleton layers fs ih =>
    rw [List.foldl_append, List.foldl_cons, List.foldl_nil,
      keys_mergeFields (distinct_foldl_mergeFields layers), ih, List.flatMap_append,
      List.flatMap_singleton, Deduplication.eraseDups_eraseDups_append]

theorem get?_foldl_mergeFields {layers : List (Fields Value)}
    (h : ∀ fs ∈ layers, Fields.Distinct fs) (k : String) :
    Fields.get? (layers.foldl mergeFields []) k = inOrder (layers.filterMap (Fields.get? · k)) := by
  induction layers using List.reverseRecOn with
  | nil => rfl
  | append_singleton layers fs ih =>
    have hfs := h fs (List.mem_append_right _ (List.mem_singleton_self fs))
    have hlast : List.filterMap (Fields.get? · k) [fs] = (Fields.get? fs k).toList := by
      cases hget : Fields.get? fs k <;> simp [hget]
    rw [List.foldl_append, List.foldl_cons, List.foldl_nil,
      get?_mergeFields_of_single _ (hfs.single k),
      ih fun gs hgs => h gs (List.mem_append_left _ hgs),
      List.filterMap_append, hlast, inOrder_append_toList]

theorem merge_empty_left {fs : Fields Value} (h : Fields.Distinct fs) :
    merge empty (.mapping fs) = .mapping fs := by
  have hnil : Fields.Distinct ([] : Fields Value) := List.nodup_nil
  rw [empty, merge_mapping]
  congr 1
  refine (distinct_mergeFields hnil fs).ext ?_ fun k => ?_
  · rw [keys_mergeFields hnil]
    exact Deduplication.eraseDups_of_nodup h
  · rw [get?_mergeFields_of_single [] (h.single k), Fields.get?_nil, Option.merge_none_left]

theorem merge_empty_right (fs : Fields Value) : merge (.mapping fs) empty = .mapping fs := by
  rw [empty, merge_mapping, mergeFields_nil]

def obstructs (v : Value) : List String → Bool
  | [] => false
  | k :: way => v.kind ≠ .mapping || (v.member? k).any (·.obstructs way)

theorem obstructs_eq_true_iff : v.obstructs way = true ↔
    ∃ before after w, before ++ after = way ∧ after ≠ [] ∧ v.at? before = some w ∧
      w.kind ≠ .mapping := by
  induction way generalizing v with
  | nil => simp [obstructs]
  | cons k way ih =>
    simp only [obstructs, Bool.or_eq_true, decide_eq_true_eq, Option.any_eq_true, ih]
    constructor
    · rintro (hkind | ⟨m, hm, before, after, w, rfl, hafter, hw, hkind⟩)
      · exact ⟨[], k :: way, v, rfl, List.cons_ne_nil _ _, rfl, hkind⟩
      · refine ⟨k :: before, after, w, rfl, hafter, ?_, hkind⟩
        rw [at?, hm]
        exact hw
    · rintro ⟨before, after, w, hway, hafter, hw, hkind⟩
      cases before with
      | nil => exact .inl (Option.some.inj hw ▸ hkind)
      | cons k' before =>
        obtain ⟨rfl, rfl⟩ := List.cons.inj hway
        obtain ⟨m, hm, hw⟩ := Option.bind_eq_some_iff.1 hw
        exact .inr ⟨m, hm, before, after, w, rfl, hafter, hw, hkind⟩

theorem at?_of_obstructs (h : v.obstructs way = true) : v.at? way = none := by
  induction way generalizing v with
  | nil => cases h
  | cons k way ih =>
    rw [at?]
    cases hm : v.member? k with
    | none => rfl
    | some m =>
      rw [obstructs, hm, Option.any_some, Bool.or_eq_true, decide_eq_true_eq] at h
      rcases h with hkind | hrest
      · cases v with
        | mapping _ => exact absurd rfl hkind
        | null | bool _ | number _ | string _ | list _ => cases hm
      · exact ih hrest

theorem at?_eq_none_of_kind_ne (h : v.kind ≠ .mapping) (k : String) (way : List String) :
    v.at? (k :: way) = none :=
  at?_of_obstructs (by simp [obstructs, h])

theorem at?_merge (hupper : upper.WellFormed) (lower : Value) (way : List String) :
    (merge lower upper).at? way = if upper.obstructs way = true then none
      else Option.merge merge (lower.at? way) (upper.at? way) := by
  have halone (v : Value) (way : List String) :
      v.at? way = if v.obstructs way = true then none else v.at? way := by
    by_cases hv : v.obstructs way = true
    · rw [if_pos hv, at?_of_obstructs hv]
    · rw [if_neg hv]
  induction way generalizing lower upper with
  | nil => rfl
  | cons k way ih =>
    by_cases hkind : upper.kind = .mapping
    · by_cases hlower : lower.kind = .mapping
      · obtain ⟨old, rfl⟩ := exists_mapping hlower
        obtain ⟨new, rfl⟩ := exists_mapping hkind
        obtain ⟨hnew, hmembers⟩ := wellFormed_mapping_iff.1 hupper
        have hobstructs : (mapping new).obstructs (k :: way) =
            (Fields.get? new k).any (·.obstructs way) := rfl
        rw [merge_mapping, at?_mapping, at?_mapping, at?_mapping, hobstructs,
          get?_mergeFields_of_single old (hnew.single k)]
        cases hget : Fields.get? new k with
        | none => simp
        | some m =>
          cases Fields.get? old k with
          | none => simpa using halone m way
          | some below => exact ih (hmembers k m hget) below
      · rw [merge_of_kind_ne (fun h => hlower (h.trans hkind)), at?_eq_none_of_kind_ne hlower,
          Option.merge_none_left]
        exact halone upper (k :: way)
    · have hobstructs : upper.obstructs (k :: way) = true := by simp [obstructs, hkind]
      rw [if_pos hobstructs, at?_eq_none_of_kind_ne (by rwa [kind_merge])]

/-- The layers behind the last one that obstructs the way. -/
def unobstructed (layers : List Value) (way : List String) : List Value :=
  layers.rtakeWhile fun v => !v.obstructs way

theorem unobstructed_of_forall (h : ∀ v ∈ layers, ¬ v.obstructs way = true) :
    unobstructed layers way = layers :=
  List.rtakeWhile_eq_self_iff.2 fun v hv => by simpa using h v hv

theorem at?_mergeAll (h : ∀ v ∈ layers, v.WellFormed) (hway : way ≠ []) :
    (mergeAll layers).at? way = inOrder ((unobstructed layers way).filterMap (·.at? way)) := by
  induction layers using List.reverseRecOn with
  | nil =>
    cases way with
    | nil => exact absurd rfl hway
    | cons k way => rfl
  | append_singleton layers v ih =>
    have hv := h v (List.mem_append_right _ (List.mem_singleton_self v))
    rw [mergeAll_concat, at?_merge hv, ih fun w hw => h w (List.mem_append_left _ hw)]
    by_cases hobstructs : v.obstructs way = true
    · simp [unobstructed, hobstructs, inOrder]
    · have hlast : List.filterMap (·.at? way) [v] = (v.at? way).toList := by
        cases hat : v.at? way <;> simp [hat]
      have hkept : unobstructed (layers ++ [v]) way = unobstructed layers way ++ [v] :=
        List.rtakeWhile_concat_pos _ _ _ (by simpa using hobstructs)
      rw [if_neg hobstructs, hkept, List.filterMap_append, hlast, inOrder_append_toList]

theorem at?_mergeAll_lists (h : ∀ v ∈ layers, v.WellFormed) (hway : way ≠ [])
    {xss : List (List Value)} (hxss : xss ≠ [])
    (hlists : (unobstructed layers way).filterMap (·.at? way) = xss.map .list) :
    (mergeAll layers).at? way = some (.list xss.flatten) := by
  rw [at?_mergeAll h hway, hlists, inOrder_lists hxss]

/-- No member of a mapping on the way is anything but a mapping before the way ends. -/
def Clears (fs : Fields Value) (way : List String) : Prop :=
  ∀ before after v, before ++ after = way → after ≠ [] → (mapping fs).at? before = some v →
    v.kind = .mapping

theorem clears_singleton (fs : Fields Value) (k : String) : Clears fs [k] := by
  intro before after v hsplit hafter hv
  rcases List.append_eq_singleton_iff.1 hsplit with ⟨rfl, -⟩ | ⟨-, rfl⟩
  · obtain rfl := Option.some.inj hv
    rfl
  · exact absurd rfl hafter

/-- The members that layers add up to, name by name. Lists at the end of a way are joined, from the
first layer on or from behind the last one that puts something else in the way. -/
structure FoldedFrom (layers : List (Fields Value)) (fs : Fields Value) : Prop where
  distinct : Fields.Distinct fs
  keys : Fields.keys fs = (layers.flatMap Fields.keys).eraseDups
  members : ∀ k, Fields.get? fs k = inOrder (layers.filterMap (Fields.get? · k))
  joined : ∀ way xss, way ≠ [] → xss ≠ [] → (∀ gs ∈ layers, Clears gs way) →
    layers.filterMap (fun gs => (mapping gs).at? way) = xss.map .list →
      (mapping fs).at? way = some (.list xss.flatten)
  joinedBehind : ∀ way xss, way ≠ [] → xss ≠ [] →
    (unobstructed (layers.map .mapping) way).filterMap (·.at? way) = xss.map .list →
      (mapping fs).at? way = some (.list xss.flatten)

/-- Layers are folded name by name, and mappings without members make no difference to what they are
merged with. -/
theorem mergeAll_keywise {layers : List (Fields Value)}
    (h : ∀ fs ∈ layers, (mapping fs).WellFormed) :
    (∃ fs, mergeAll (layers.map .mapping) = .mapping fs ∧ FoldedFrom layers fs) ∧
      ∀ fs, Fields.Distinct fs →
        merge empty (.mapping fs) = .mapping fs ∧ merge (.mapping fs) empty = .mapping fs := by
  have hfold := mergeAll_mappings layers
  have hall : ∀ v ∈ layers.map mapping, v.WellFormed := List.forall_mem_map.2 h
  refine ⟨⟨_, hfold, ?_⟩, fun fs hfs => ⟨merge_empty_left hfs, merge_empty_right fs⟩⟩
  constructor
  · exact distinct_foldl_mergeFields layers
  · exact keys_foldl_mergeFields layers
  · exact get?_foldl_mergeFields fun fs hfs => (h fs hfs).1
  · intro way xss hway hxss hclears hlists
    rw [← hfold]
    refine at?_mergeAll_lists hall hway hxss ?_
    have hfree : ∀ v ∈ layers.map mapping, ¬ v.obstructs way = true := by
      refine List.forall_mem_map.2 fun fs hfs hobstructs => ?_
      obtain ⟨before, after, v, hsplit, hafter, hv, hkind⟩ := obstructs_eq_true_iff.1 hobstructs
      exact hkind (hclears fs hfs before after v hsplit hafter hv)
    rw [unobstructed_of_forall hfree, List.filterMap_map]
    exact hlists
  · intro way xss hway hxss hlists
    rw [← hfold]
    exact at?_mergeAll_lists hall hway hxss hlists

def brokenLayers : List (Fields Value) :=
  [[("k", .mapping [("l", .list [.ofNat 1])])], [("k", .string "x"), ("m", .list [.ofNat 7])],
    [("m", .list [.ofNat 8]), ("k", .mapping [("l", .list [.ofNat 2])])]]

theorem wellFormed_brokenLayers : ∀ fs ∈ brokenLayers, (mapping fs).WellFormed := by
  simp [brokenLayers, WellFormed, WellFormedFields, WellFormedItems, Fields.Distinct, Fields.keys,
    ofNat]

theorem mergeAll_keywise_broken :
    (∀ fs ∈ brokenLayers, (mapping fs).WellFormed) ∧
    ∃ fs, mergeAll (brokenLayers.map .mapping) = .mapping fs ∧ Fields.keys fs = ["k", "m"] ∧
      (mapping fs).at? ["m"] = some (.list [.ofNat 7, .ofNat 8]) ∧
      (mapping fs).at? ["k", "l"] = some (.list [.ofNat 2]) := by
  obtain ⟨⟨fs, hfs, hfolded⟩, -⟩ := mergeAll_keywise wellFormed_brokenLayers
  refine ⟨wellFormed_brokenLayers, fs, hfs, ?_, ?_, ?_⟩
  · rw [hfolded.keys]
    decide
  · exact hfolded.joined ["m"] [[.ofNat 7], [.ofNat 8]] nofun nofun
      (fun gs _ => clears_singleton gs "m") (by rfl)
  · exact hfolded.joinedBehind ["k", "l"] [[.ofNat 2]] nofun nofun (by rfl)

theorem not_joined_broken :
    ¬ ∀ (layers : List (Fields Value)) (way : List String) (xss : List (List Value)),
      (∀ fs ∈ layers, (mapping fs).WellFormed) → way ≠ [] → xss ≠ [] →
      layers.filterMap (fun fs => (mapping fs).at? way) = xss.map .list →
        (mergeAll (layers.map .mapping)).at? way = some (.list xss.flatten) := by
  intro hjoined
  have hboth := hjoined brokenLayers ["k", "l"] [[.ofNat 1], [.ofNat 2]] wellFormed_brokenLayers
    nofun nofun (by rfl)
  exact absurd hboth (by decide)

end GatewayFleet.Value
