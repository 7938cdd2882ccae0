import GatewayFleet.Failure

/-! Placeholders in texts. `${NAME}` stands for a variable and `${NAME:-FALLBACK}` for a
variable that need not be set. Texts are split from left to right at the placeholders in them;
what a variable holds is never looked at again. -/

namespace GatewayFleet.Gateway

abbrev Environment := String → Option String

structure Placeholder where
  name : String
  fallback : Option String
deriving DecidableEq

/-- A stretch of a text: one character that stands for itself, or a placeholder. -/
inductive Piece
  | literal (c : Char)
  | placeholder (p : Placeholder)
deriving DecidableEq

namespace Placeholder

def startsName (c : Char) : Bool := c.isAlpha || c = '_'
def continuesName (c : Char) : Bool := c.isAlphanum || c = '_'

def readEnd (name : String) (s : List Char) : Option (Placeholder × List Char) :=
  match s with
  | '}' :: rest => some (⟨name, none⟩, rest)
  | ':' :: '-' :: r =>
    match r.dropWhile (· ≠ '}') with
    | _ :: rest => some (⟨name, some (String.ofList (r.takeWhile (· ≠ '}')))⟩, rest)
    | [] => none
  | _ => none

def read : List Char → Option (Placeholder × List Char)
  | '$' :: '{' :: c :: r =>
    if startsName c then
      readEnd (String.ofList (c :: r.takeWhile continuesName)) (r.dropWhile continuesName)
    else none
  | _ => none

theorem readEnd_length {name : String} {s rest : List Char} {p : Placeholder}
    (h : readEnd name s = some (p, rest)) : rest.length < s.length := by
  unfold readEnd at h
  split at h
  · simp_all
  · rename_i r
    split at h
    · rename_i x rest' hd
      simp only [Option.some.injEq, Prod.mk.injEq] at h
      have := (List.dropWhile_suffix (l := r) (· ≠ '}')).length_le
      rw [hd, h.2] at this
      simp only [List.length_cons] at this ⊢
      omega
    · cases h
  · cases h

theorem read_length {s rest : List Char} {p : Placeholder} (h : read s = some (p, rest)) :
    rest.length < s.length := by
  unfold read at h
  split at h
  · rename_i c r
    split at h
    · have h₁ := readEnd_length h
      have h₂ := (List.dropWhile_suffix (l := r) continuesName).length_le
      simp only [List.length_cons]
      omega
    · cases h
  · cases h

end Placeholder

def pieces (s : List Char) : List Piece :=
  match s with
  | [] => []
  | c :: r =>
    match _h : Placeholder.read (c :: r) with
    | some (p, rest) => .placeholder p :: pieces rest
    | none => .literal c :: pieces r
termination_by s.length
decreasing_by
  · exact Placeholder.read_length _h
  · simp

/-- What a piece stands for. A variable that is set counts even when it is empty. -/
def Piece.expand (env : Environment) : Piece → Except Failure (List Char)
  | .literal c => .ok [c]
  | .placeholder p =>
    match env p.name, p.fallback with
    | some value, _ => .ok value.toList
    | none, some fallback => .ok fallback.toList
    | none, none => .error (.missingVariable p.name)

def hasOpening : List Char → Bool
  | '$' :: '{' :: _ => true
  | _ :: rest => hasOpening rest
  | [] => false

/-- Replaces the placeholders of a text; the first variable that is missing is named. A text in
which none can begin is not looked through. -/
def expandText (env : Environment) (text : String) : Except Failure String :=
  if hasOpening text.toList then do
    let parts ← (pieces text.toList).mapM (Piece.expand env)
    pure (String.ofList parts.flatten)
  else pure text

mutual

def expand (env : Environment) : Value → Except Failure Value
  | .string s => (expandText env s).map .string
  | .list items => (expandItems env items).map .list
  | .mapping fields => (expandFields env fields).map .mapping
  | v => .ok v

def expandItems (env : Environment) : List Value → Except Failure (List Value)
  | [] => .ok []
  | v :: rest => do
    let v ← expand env v
    let rest ← expandItems env rest
    pure (v :: rest)

def expandFields (env : Environment) : List (String × Value) →
    Except Failure (List (String × Value))
  | [] => .ok []
  | (k, v) :: rest => do
    let v ← expand env v
    let rest ← expandFields env rest
    pure ((k, v) :: rest)

end

def Piece.variable? : Piece → Option String
  | .literal _ => none
  | .placeholder p => some p.name

mutual

def mentioned : Value → List String
  | .string s => (pieces s.toList).filterMap Piece.variable?
  | .list items => mentionedInItems items
  | .mapping fields => mentionedInFields fields
  | _ => []

def mentionedInItems : List Value → List String
  | [] => []
  | v :: rest => mentioned v ++ mentionedInItems rest

def mentionedInFields : List (String × Value) → List String
  | [] => []
  | (_, v) :: rest => mentioned v ++ mentionedInFields rest

end

end GatewayFleet.Gateway
