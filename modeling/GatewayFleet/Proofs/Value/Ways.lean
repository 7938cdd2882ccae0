import GatewayFleet.Proofs.Value.Merging

/-! Ways into a value. A way is a list of names, each of them a member of the mapping that the names
before it lead to. Where the upper one of two values gives every name on the way once, what it holds
at the end is still there after merging: alone, or laid over what the lower value holds there. -/

namespace GatewayFleet.Value

def at? : Value → List String → Option Value
  | v, [] => some v
  | v, k :: way => (v.member? k).bind fun m => at? m way

/-- The way goes through mappings that give its names once. -/
inductive Leads : Value → List String → Value → Prop
  | here (v : Value) : Leads v [] v
  | through {fs : Fields Value} {k : String} {m w : Value} {way : List String}
      (hm : Fields.values fs k = [m]) (h : Leads m way w) : Leads (.mapping fs) (k :: way) w

variable {lower upper w : Value} {way : List String} {k : String}

theorem at?_mapping (fs : Fields Value) (k : String) (way : List String) :
    (mapping fs).at? (k :: way) = (Fields.get? fs k).bind fun m => m.at? way := rfl

theorem at?_singleton (fs : Fields Value) (k : String) :
    (mapping fs).at? [k] = Fields.get? fs k := by
  rw [at?_mapping]
  cases Fields.get? fs k <;> rfl

theorem Leads.at? (h : Leads upper way w) : upper.at? way = some w := by
  induction h with
  | here v => rfl
  | @through fs k m w way hm _ ih =>
    have hget : Fields.get? fs k = some m := Fields.get?_of_values hm
    rw [at?_mapping, hget]
    exact ih

theorem exists_at?_merge (lower : Value) (h : Leads upper way w) :
    ∃ below, (merge lower upper).at? way = overlay below w := by
  induction h generalizing lower with
  | here v => exact ⟨some lower, rfl⟩
  | @through fs k m w way hm hrest ih =>
    cases lower with
    | mapping gs =>
      have hget : Fields.get? (mergeFields gs fs) k = overlay (Fields.get? gs k) m := by
        rw [get?_mergeFields, hm]
        rfl
      rw [merge_mapping, at?_mapping, hget]
      cases Fields.get? gs k with
      | none => exact ⟨none, hrest.at?⟩
      | some old => exact ih old
    | null | bool _ | number _ | string _ | list _ =>
      refine ⟨none, (congrArg (at? · (k :: way)) ?_).trans (Leads.through hm hrest).at?⟩
      exact merge_of_kind_ne nofun

theorem overlay_scalar (h : IsScalar w) (below : Option Value) : overlay below w = some w := by
  cases below with
  | none => rfl
  | some old => exact congrArg some (merge_of_isScalar old h)

theorem exists_overlay_list (below : Option Value) (items : List Value) :
    ∃ front, overlay below (.list items) = some (.list (front ++ items)) := by
  cases below with
  | none => exact ⟨[], rfl⟩
  | some old =>
    cases old with
    | list front => exact ⟨front, congrArg some (merge_list front items)⟩
    | null | bool _ | number _ | string _ | mapping _ =>
      exact ⟨[], congrArg some (merge_of_kind_ne nofun)⟩

end GatewayFleet.Value
