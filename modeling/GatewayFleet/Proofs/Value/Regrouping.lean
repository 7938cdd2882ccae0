import Mathlib.Data.List.Triplewise
import GatewayFleet.Proofs.Value.Folding

/-! Which values are laid over each other first. It makes no difference as long as the middle one of
three values respects the shapes that the outer two have in common: otherwise it takes away what is
below it, unless it is itself laid under the upper value first. -/

namespace GatewayFleet.Value

variable {a b c : Value} {layers : List Value}

/-- Wherever the outer values both have a mapping, or both a list, the middle one has the same kind
of value, or nothing. -/
def Respects (a b c : Value) : Prop :=
  ∀ way x y z, a.at? way = some x → b.at? way = some y → c.at? way = some z →
    x.kind = z.kind → z.kind = .mapping ∨ z.kind = .list → y.kind = z.kind

theorem Respects.kind (h : Respects a b c) (hkind : a.kind = c.kind)
    (hshape : c.kind = .mapping ∨ c.kind = .list) : b.kind = c.kind :=
  h [] a b c rfl rfl rfl hkind hshape

theorem Respects.member {x y z : Value} {k : String} (h : Respects a b c)
    (hx : a.member? k = some x) (hy : b.member? k = some y) (hz : c.member? k = some z) :
    Respects x y z := by
  intro way x' y' z' hx' hy' hz'
  refine h (k :: way) x' y' z' ?_ ?_ ?_
  · rw [at?, hx]
    exact hx'
  · rw [at?, hy]
    exact hy'
  · rw [at?, hz]
    exact hz'

theorem respects_of_kind_ne (hb : b.kind ≠ .mapping)
    (h : a.kind = c.kind → c.kind = .mapping ∨ c.kind = .list → b.kind = c.kind) :
    Respects a b c := by
  intro way x y z hx hy hz hkind hshape
  cases way with
  | nil =>
    obtain rfl := Option.some.inj hx
    obtain rfl := Option.some.inj hy
    obtain rfl := Option.some.inj hz
    exact h hkind hshape
  | cons k way =>
    rw [at?_eq_none_of_kind_ne hb] at hy
    cases hy

theorem respects_mappings {lower middle upper : Fields Value}
    (h : ∀ m ∈ middle, ∀ x z, Fields.get? lower m.1 = some x → Fields.get? upper m.1 = some z →
      Respects x m.2 z) :
    Respects (.mapping lower) (.mapping middle) (.mapping upper) := by
  intro way x y z hx hy hz hkind hshape
  cases way with
  | nil =>
    obtain rfl := Option.some.inj hy
    obtain rfl := Option.some.inj hz
    rfl
  | cons k way =>
    obtain ⟨x', hx', hx⟩ := Option.bind_eq_some_iff.1 hx
    obtain ⟨y', hy', hy⟩ := Option.bind_eq_some_iff.1 hy
    obtain ⟨z', hz', hz⟩ := Option.bind_eq_some_iff.1 hz
    exact h (k, y') (Fields.mem_of_get? hy') x' z' hx' hz' way x y z hx hy hz hkind hshape

theorem merge_assoc_of_isScalar (a b : Value) (hc : IsScalar c) :
    merge (merge a b) c = merge a (merge b c) := by
  rw [merge_of_isScalar _ hc, merge_of_isScalar _ hc, merge_of_isScalar _ hc]

theorem merge_assoc_of_lower_ne (hbc : b.kind = c.kind) (ha : a.kind ≠ b.kind) :
    merge (merge a b) c = merge a (merge b c) := by
  have hmerged : a.kind ≠ (merge b c).kind := by rwa [kind_merge, ← hbc]
  rw [merge_of_kind_ne ha, merge_of_kind_ne hmerged]

theorem merge_assoc_of_upper_ne (hbc : b.kind ≠ c.kind) (ha : a.kind ≠ c.kind) :
    merge (merge a b) c = merge a (merge b c) := by
  have hmerged : (merge a b).kind ≠ c.kind := by rwa [kind_merge]
  rw [merge_of_kind_ne hbc, merge_of_kind_ne hmerged, merge_of_kind_ne ha]

theorem mergeFields_assoc {lower middle upper : Fields Value}
    (hlower : Fields.Distinct lower) (hmiddle : Fields.Distinct middle)
    (hupper : Fields.Distinct upper)
    (h : ∀ k x y z, Fields.get? lower k = some x → Fields.get? middle k = some y →
      Fields.get? upper k = some z → merge (merge x y) z = merge x (merge y z)) :
    mergeFields (mergeFields lower middle) upper =
      mergeFields lower (mergeFields middle upper) := by
  have hboth : Fields.Distinct (mergeFields middle upper) := distinct_mergeFields hmiddle upper
  have hunder : Fields.Distinct (mergeFields lower middle) := distinct_mergeFields hlower middle
  refine (distinct_mergeFields hunder upper).ext ?_ fun k => ?_
  · rw [keys_mergeFields hunder, keys_mergeFields hlower, keys_mergeFields hlower,
      keys_mergeFields hmiddle, Deduplication.eraseDups_eraseDups_append,
      Deduplication.eraseDups_append_eraseDups, List.append_assoc]
  · rw [get?_mergeFields_of_single _ (hupper.single k),
      get?_mergeFields_of_single _ (hmiddle.single k),
      get?_mergeFields_of_single _ (hboth.single k), get?_mergeFields_of_single _ (hupper.single k)]
    cases hx : Fields.get? lower k with
    | none => simp
    | some x =>
      cases hy : Fields.get? middle k with
      | none => simp
      | some y =>
        cases hz : Fields.get? upper k with
        | none => simp
        | some z => simpa using h k x y z hx hy hz

theorem merge_assoc_of_respects (ha : a.WellFormed) (hb : b.WellFormed) (hc : c.WellFormed)
    (h : Respects a b c) : merge (merge a b) c = merge a (merge b c) := by
  induction c using parts_induction generalizing a b with
  | leaf c hscalar => exact merge_assoc_of_isScalar a b hscalar
  | list zs =>
    by_cases hbc : b.kind = .list
    · by_cases hab : a.kind = b.kind
      · obtain ⟨ys, rfl⟩ := exists_list hbc
        obtain ⟨xs, rfl⟩ := exists_list hab
        simp only [merge_list, List.append_assoc]
      · exact merge_assoc_of_lower_ne hbc hab
    · exact merge_assoc_of_upper_ne hbc fun hac => hbc (h.kind hac (.inr rfl))
  | mapping upper ih =>
    by_cases hbc : b.kind = .mapping
    · by_cases hab : a.kind = b.kind
      · obtain ⟨middle, rfl⟩ := exists_mapping hbc
        obtain ⟨lower, rfl⟩ := exists_mapping hab
        obtain ⟨hlower, hxs⟩ := wellFormed_mapping_iff.1 ha
        obtain ⟨hmiddle, hys⟩ := wellFormed_mapping_iff.1 hb
        obtain ⟨hupper, hzs⟩ := wellFormed_mapping_iff.1 hc
        simp only [merge_mapping]
        congr 1
        refine mergeFields_assoc hlower hmiddle hupper fun k x y z hx hy hz => ?_
        exact ih (k, z) (Fields.mem_of_get? hz) (hxs k x hx) (hys k y hy) (hzs k z hz)
          (h.member hx hy hz)
      · exact merge_assoc_of_lower_ne hbc hab
    · exact merge_assoc_of_upper_ne hbc fun hac => hbc (h.kind hac (.inl rfl))

theorem wellFormed_mergeAll (h : ∀ v ∈ layers, v.WellFormed) : (mergeAll layers).WellFormed := by
  induction layers using List.reverseRecOn with
  | nil => exact ⟨List.nodup_nil, trivial⟩
  | append_singleton layers v ih =>
    rw [mergeAll_concat]
    exact (ih fun w hw => h w (List.mem_append_left _ hw)).merge
      (h v (List.mem_append_right _ (List.mem_singleton_self v)))

theorem exists_kind_of_at?_mergeAll {way : List String} {v : Value}
    (h : ∀ w ∈ layers, w.WellFormed) (hway : way ≠ [])
    (hv : (mergeAll layers).at? way = some v) :
    ∃ w ∈ layers, ∃ x, w.at? way = some x ∧ x.kind = v.kind := by
  rw [at?_mergeAll h hway] at hv
  obtain ⟨x, hx, hkind⟩ := exists_kind_of_inOrder hv
  obtain ⟨w, hw, hat⟩ := List.mem_filterMap.1 hx
  exact ⟨w, (List.rtakeWhile_suffix _ layers).subset hw, x, hat, hkind⟩

theorem respects_mergeAll {lower middle : List (Fields Value)} {fs : Fields Value}
    (hlower : ∀ gs ∈ lower, (mapping gs).WellFormed)
    (hmiddle : ∀ gs ∈ middle, (mapping gs).WellFormed)
    (h : ∀ gs ∈ lower, ∀ hs ∈ middle, Respects (.mapping gs) (.mapping hs) (.mapping fs)) :
    Respects (mergeAll (lower.map .mapping)) (mergeAll (middle.map .mapping)) (.mapping fs) := by
  intro way x y z hx hy hz hkind hshape
  by_cases hway : way = []
  · subst hway
    rw [mergeAll_mappings] at hy
    obtain rfl := Option.some.inj hy
    obtain rfl := Option.some.inj hz
    rfl
  · obtain ⟨v, hv, x', hx', hxkind⟩ :=
      exists_kind_of_at?_mergeAll (List.forall_mem_map.2 hlower) hway hx
    obtain ⟨w, hw, y', hy', hykind⟩ :=
      exists_kind_of_at?_mergeAll (List.forall_mem_map.2 hmiddle) hway hy
    obtain ⟨gs, hgs, rfl⟩ := List.mem_map.1 hv
    obtain ⟨hs, hhs, rfl⟩ := List.mem_map.1 hw
    rw [← hykind]
    exact h gs hgs hs hhs way x' y' z hx' hy' hz (hxkind.trans hkind) hshape

/-- Any three layers, taken in their order, respect each other's shapes. -/
def Harmonious (layers : List (Fields Value)) : Prop :=
  layers.Triplewise fun fs gs hs => Respects (.mapping fs) (.mapping gs) (.mapping hs)

theorem mergeAll_append {lower upper : List (Fields Value)}
    (h : ∀ fs ∈ lower ++ upper, (mapping fs).WellFormed) (hshapes : Harmonious (lower ++ upper)) :
    merge (mergeAll (lower.map .mapping)) (mergeAll (upper.map .mapping)) =
      mergeAll ((lower ++ upper).map .mapping) := by
  induction upper using List.reverseRecOn with
  | nil =>
    rw [List.append_nil, mergeAll_mappings]
    exact merge_empty_right _
  | append_singleton upper fs ih =>
    rw [← List.append_assoc] at h hshapes ⊢
    obtain ⟨hrest, -, -, hlast⟩ := List.triplewise_append.1 hshapes
    have hbelow : ∀ gs ∈ lower ++ upper, (mapping gs).WellFormed :=
      fun gs hgs => h gs (List.mem_append_left _ hgs)
    have hfs := h fs (List.mem_append_right _ (List.mem_singleton_self fs))
    obtain ⟨hlower, hupper⟩ := List.forall_mem_append.1 hbelow
    have hpairs := (List.pairwise_append.1 (hlast fs (List.mem_singleton_self fs))).2.2
    rw [List.map_append, List.map_append, List.map_singleton, mergeAll_concat, mergeAll_concat,
      ← merge_assoc_of_respects (wellFormed_mergeAll (List.forall_mem_map.2 hlower))
        (wellFormed_mergeAll (List.forall_mem_map.2 hupper)) hfs
        (respects_mergeAll hlower hupper hpairs), ih hbelow hrest]

/-- Layers put together two at a time, in any grouping that keeps their order. -/
inductive Grouping
  | layer (fs : Fields Value)
  | laid (lower upper : Grouping)

namespace Grouping

def parts : Grouping → List (Fields Value)
  | layer fs => [fs]
  | laid lower upper => lower.parts ++ upper.parts

def value : Grouping → Value
  | layer fs => .mapping fs
  | laid lower upper => merge lower.value upper.value

theorem value_eq (g : Grouping) (h : ∀ fs ∈ g.parts, (mapping fs).WellFormed)
    (hshapes : Harmonious g.parts) : g.value = mergeAll (g.parts.map .mapping) := by
  induction g with
  | layer fs => exact (merge_empty_left (h fs (List.mem_singleton_self fs)).1).symm
  | laid lower upper ihlower ihupper =>
    obtain ⟨hlower, hupper⟩ := List.forall_mem_append.1 h
    obtain ⟨hfirst, hsecond, -, -⟩ := List.triplewise_append.1 hshapes
    rw [value, ihlower hlower hfirst, ihupper hupper hsecond, mergeAll_append h hshapes]
    rfl

end Grouping

/-- Three values can be merged in either order where the middle one respects the shapes of the
others, and where all layers do, every grouping of them comes to the same mapping, with its members
in the same order. -/
theorem merge_regroups :
    (∀ a b c : Value, a.WellFormed → b.WellFormed → c.WellFormed → Respects a b c →
      merge (merge a b) c = merge a (merge b c)) ∧
    ∀ g : Grouping, (∀ fs ∈ g.parts, (mapping fs).WellFormed) → Harmonious g.parts →
      g.value = mergeAll (g.parts.map .mapping) :=
  ⟨fun _ _ _ ha hb hc h => merge_assoc_of_respects ha hb hc h, Grouping.value_eq⟩

def sharedLower : Fields Value :=
  [("k", .mapping [("l", .list [.ofNat 1])]), ("n", .mapping [("x", .null)])]

def sharedMiddle : Fields Value :=
  [("m", .string "t"), ("k", .mapping [("l", .list [.ofNat 2])])]

def sharedUpper : Fields Value :=
  [("n", .mapping [("y", .null)]), ("k", .mapping [("l", .list [.ofNat 3])])]

theorem respects_shared :
    Respects (.mapping sharedLower) (.mapping sharedMiddle) (.mapping sharedUpper) := by
  refine respects_mappings fun m hm x z hx hz => ?_
  simp only [sharedMiddle, List.mem_cons, List.not_mem_nil, or_false] at hm
  rcases hm with rfl | rfl
  · cases hx
  · cases hx
    cases hz
    refine respects_mappings fun m hm x z hx hz => ?_
    obtain rfl := List.mem_singleton.1 hm
    cases hx
    cases hz
    exact respects_of_kind_ne nofun fun _ _ => rfl

theorem merge_regroups_shared :
    Respects (.mapping sharedLower) (.mapping sharedMiddle) (.mapping sharedUpper) ∧
    merge (merge (.mapping sharedLower) (.mapping sharedMiddle)) (.mapping sharedUpper) =
      merge (.mapping sharedLower) (merge (.mapping sharedMiddle) (.mapping sharedUpper)) ∧
    (Grouping.laid (.layer sharedLower) (.laid (.layer sharedMiddle) (.layer sharedUpper))).value =
      .mapping [("k", .mapping [("l", .list [.ofNat 1, .ofNat 2, .ofNat 3])]),
        ("n", .mapping [("x", .null), ("y", .null)]), ("m", .string "t")] := by
  have hwell : ∀ fs ∈ [sharedLower, sharedMiddle, sharedUpper], (mapping fs).WellFormed := by
    simp [sharedLower, sharedMiddle, sharedUpper, WellFormed, WellFormedFields, WellFormedItems,
      Fields.Distinct, Fields.keys, ofNat]
  obtain ⟨hassoc, hgroup⟩ := merge_regroups
  refine ⟨respects_shared, ?_, ?_⟩
  · exact hassoc _ _ _ (hwell _ (.head _)) (hwell _ (.tail _ (.head _)))
      (hwell _ (.tail _ (.tail _ (.head _)))) respects_shared
  · rw [hgroup (.laid (.layer sharedLower) (.laid (.layer sharedMiddle) (.layer sharedUpper)))
      hwell (List.triplewise_triple.2 respects_shared)]
    rfl

end GatewayFleet.Value
