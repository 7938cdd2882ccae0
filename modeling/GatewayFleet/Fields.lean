/-! Named members kept in the order in which they were first given. Putting a member that is
already there replaces it in place; the sorted variants keep the names in strictly increasing
order of their characters. -/

namespace GatewayFleet

universe u

abbrev Fields (α : Type u) := List (String × α)

namespace Fields

variable {α : Type u}

def keys (fs : Fields α) : List String := fs.map Prod.fst

def Distinct (fs : Fields α) : Prop := (keys fs).Nodup

def get? : Fields α → String → Option α
  | [], _ => none
  | (k', v) :: rest, k => if k' = k then some v else get? rest k

def has (fs : Fields α) (k : String) : Bool := (get? fs k).isSome

def put : Fields α → String → α → Fields α
  | [], k, v => [(k, v)]
  | (k', v') :: rest, k, v => if k' = k then (k', v) :: rest else (k', v') :: put rest k v

def erase (fs : Fields α) (k : String) : Fields α := fs.filter fun m => m.1 ≠ k

/-- The members whose names are not among `known`. -/
def without (fs : Fields α) (known : List String) : Fields α :=
  fs.filter fun m => !known.contains m.1

def ofList (ms : List (String × α)) : Fields α := ms.foldl (fun fs m => put fs m.1 m.2) []

def Sorted (fs : Fields α) : Prop := (keys fs).Pairwise (· < ·)

/-- Replaces the member of that name, or adds it at its place in the order. -/
def insert : Fields α → String → α → Fields α
  | [], k, v => [(k, v)]
  | (k', v') :: rest, k, v =>
    if k' = k then (k', v) :: rest
    else if k < k' then (k, v) :: (k', v') :: rest
    else (k', v') :: insert rest k v

def insertNew (fs : Fields α) (k : String) (v : α) : Fields α :=
  if has fs k then fs else insert fs k v

@[simp] theorem get?_nil (k : String) : get? ([] : Fields α) k = none := rfl

@[simp] theorem get?_put_self (fs : Fields α) (k : String) (v : α) :
    get? (put fs k v) k = some v := by
  induction fs with
  | nil => simp [put, get?]
  | cons m rest ih =>
    by_cases h : m.1 = k
    · simp [put, get?, h]
    · simp [put, get?, h, ih]

theorem get?_put_of_ne (fs : Fields α) {k k' : String} (v : α) (h : k ≠ k') :
    get? (put fs k v) k' = get? fs k' := by
  induction fs with
  | nil => simp [put, get?, h]
  | cons m rest ih =>
    by_cases hm : m.1 = k
    · simp [put, get?, hm, h]
    · simp [put, get?, hm, ih]

theorem get?_insert_self (fs : Fields α) (k : String) (v : α) :
    get? (insert fs k v) k = some v := by
  induction fs with
  | nil => simp [insert, get?]
  | cons m rest ih =>
    by_cases h : m.1 = k
    · simp [insert, get?, h]
    · by_cases hlt : k < m.1
      · simp [insert, get?, h, hlt]
      · simp [insert, get?, h, hlt, ih]

theorem get?_insert_of_ne (fs : Fields α) {k k' : String} (v : α) (h : k ≠ k') :
    get? (insert fs k v) k' = get? fs k' := by
  induction fs with
  | nil => simp [insert, get?, h]
  | cons m rest ih =>
    by_cases hm : m.1 = k
    · simp [insert, get?, hm, h]
    · by_cases hlt : k < m.1
      · simp [insert, get?, hm, hlt, h]
      · simp [insert, get?, hm, hlt, ih]

end Fields

end GatewayFleet
