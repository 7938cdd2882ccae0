import GatewayFleet.Value

/-! Merging lays one value over another. Two mappings merge member by member: names of the lower
one keep their places and new names follow in the order of the upper one. Two lists are joined.
In every other case the upper value stands alone. -/

namespace GatewayFleet.Value

mutual

def merge : Value → Value → Value
  | .mapping lower, .mapping upper => .mapping (mergeFields lower upper)
  | .list lower, .list upper => .list (lower ++ upper)
  | _, upper => upper
termination_by structural _ upper => upper

def mergeFields (lower : List (String × Value)) : List (String × Value) → List (String × Value)
  | [] => lower
  | (k, v) :: rest =>
    mergeFields (Fields.put lower k (match Fields.get? lower k with
      | some old => merge old v
      | none => v)) rest
termination_by structural upper => upper

end

/-- Lays the values over the empty mapping from left to right. -/
def mergeAll (layers : List Value) : Value := layers.foldl merge empty

theorem merge_mapping (lower upper : List (String × Value)) :
    merge (.mapping lower) (.mapping upper) = .mapping (mergeFields lower upper) := by
  simp [merge]

theorem merge_list (lower upper : List Value) :
    merge (.list lower) (.list upper) = .list (lower ++ upper) := by
  simp [merge]

theorem merge_of_kind_ne {a b : Value} (h : a.kind ≠ b.kind) : merge a b = b := by
  cases a <;> cases b <;> simp_all [merge, kind]

@[simp] theorem mergeFields_nil (lower : List (String × Value)) : mergeFields lower [] = lower := by
  simp [mergeFields]

end GatewayFleet.Value
