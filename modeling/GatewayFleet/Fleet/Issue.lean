import GatewayFleet.Fleet.Model

/-! What can be wrong with an inventory. A place is the way from the root of the document to the
value at fault. Issues are collected in the order in which they are found. -/

namespace GatewayFleet.Fleet

open Policy (Mismatch)

inductive Step
  | key (name : String)
  | index (i : Nat)
deriving DecidableEq

abbrev Place := List Step

namespace Place

def write : Bool → Place → String
  | _, [] => ""
  | true, .key k :: rest => k ++ write false rest
  | false, .key k :: rest => "." ++ k ++ write false rest
  | _, .index i :: rest => "[" ++ toString i ++ "]" ++ write false rest

/-- The place in writing, such as `instances[0].host.bind`. -/
def text (p : Place) : String := write true p

end Place

inductive Problem
  | notSupportedVersion
  | notMapping
  | mappingExpected (got : Kind)
  | notFilledString
  | notFilledList
  | notList
  | listExpected (got : Kind)
  | listOrMappingExpected (got : Kind)
  | notString
  | stringExpected (got : Kind)
  | notPort
  | notPositive
  | unknownRole (name : String)
  | notRoutable
  | unusablePolicy (m : Mismatch)
deriving DecidableEq

def Problem.text : Problem → String
  | .notSupportedVersion => " must be " ++ toString supportedVersion
  | .notMapping => " must be a mapping"
  | .mappingExpected k => " must be a mapping, got " ++ k.name
  | .notFilledString => " must be a non-empty string"
  | .notFilledList => " must be a non-empty list"
  | .notList => " must be a list"
  | .listExpected k => " must be a list, got " ++ k.name
  | .listOrMappingExpected k => " must be a list or mapping, got " ++ k.name
  | .notString => " must be a string"
  | .stringExpected k => " must be a string, got " ++ k.name
  | .notPort => " must be a valid port integer"
  | .notPositive => " must be a positive integer"
  | .unknownRole name => " must be one of: human, usecase (got '" ++ name ++ "')"
  | .notRoutable => " requires channel and accountId/account_id for routing"
  | .unusablePolicy m => " is not a valid policy: " ++ m.message

/-- The ports an instance takes, both ends included. -/
structure PortRange where
  id : String
  first : Nat
  last : Nat
deriving DecidableEq

def PortRange.text (r : PortRange) : String :=
  r.id ++ "(" ++ toString r.first ++ "-" ++ toString r.last ++ ")"

inductive Issue
  | shape (place : Place) (problem : Problem)
  | duplicateInstance (id : String)
  | portOverlap (later earlier : PortRange)
  | sharedPath (role : PathRole) (id raw owner : String)
  | duplicateAgent (id : String)
  | duplicateWorkspace (name : String)
  | duplicateAgentDir (name : String)
  | duplicateBinding (key : String)
  | missingLayer (id layer : String)
deriving DecidableEq

inductive IssueKind
  | structural | collision | reference
deriving DecidableEq

def IssueKind.name : IssueKind → String
  | .structural => "structural"
  | .collision => "collision"
  | .reference => "reference"

namespace Issue

def kind : Issue → IssueKind
  | .shape .. => .structural
  | .missingLayer .. => .reference
  | _ => .collision

def message : Issue → String
  | .shape place problem => place.text ++ problem.text
  | .duplicateInstance id => "duplicate instance id: " ++ id
  | .portOverlap later earlier =>
    "port range collision " ++ later.text ++ " overlaps " ++ earlier.text
  | .sharedPath role id raw owner =>
    "path collision for " ++ role.key ++ ": " ++ id ++ " shares " ++ raw ++ " with " ++ owner
  | .duplicateAgent id => "duplicate agent id in instance: " ++ id
  | .duplicateWorkspace name => "duplicate workspace in instance: " ++ name
  | .duplicateAgentDir name => "duplicate agent_dir in instance: " ++ name
  | .duplicateBinding key => "duplicate channel/account binding in instance: " ++ key
  | .missingLayer id layer => "missing config layer for " ++ id ++ ": " ++ layer

end Issue

structure Checked (α : Type) where
  issues : List Issue
  value : α

namespace Checked

instance : Monad Checked where
  pure v := ⟨[], v⟩
  bind x f := ⟨x.issues ++ (f x.value).issues, (f x.value).value⟩

def report (i : Issue) : Checked Unit := ⟨[i], ()⟩

/-- Reports a problem and goes on with a value. -/
def faulty (place : Place) (problem : Problem) (v : α) : Checked α := ⟨[.shape place problem], v⟩

@[simp] theorem issues_pure (v : α) : (pure v : Checked α).issues = [] := rfl
@[simp] theorem value_pure (v : α) : (pure v : Checked α).value = v := rfl

@[simp] theorem issues_bind (x : Checked α) (f : α → Checked β) :
    (x >>= f).issues = x.issues ++ (f x.value).issues := rfl

@[simp] theorem value_bind (x : Checked α) (f : α → Checked β) :
    (x >>= f).value = (f x.value).value := rfl

instance : LawfulMonad Checked := LawfulMonad.mk' Checked
  (fun x => by cases x; simp [Functor.map])
  (fun _ _ => by simp [pure, bind])
  (fun _ _ _ => by simp [bind, List.append_assoc])

end Checked

end GatewayFleet.Fleet
