import GatewayFleet.Layer.Body
import GatewayFleet.Policy.Compliance
import GatewayFleet.Fleet.Issue
import GatewayFleet.Tree

/-! Why an operation does not succeed. A failure keeps its cause; its wording, its category and
the exit code of the program follow from that. -/

namespace GatewayFleet

inductive Sought
  | inventory | layer | includedLayer
deriving DecidableEq

def Sought.name : Sought → String
  | .inventory => "inventory file"
  | .layer => "config layer"
  | .includedLayer => "included layer"

inductive Action
  | createParent | createTemporary | replace
  | createDirectory | createLogDirectory | openLog
  | readLayer | readInventory
deriving DecidableEq

def Action.text : Action → String
  | .createParent => "failed to create parent directory"
  | .createTemporary => "failed to create temporary file"
  | .replace => "failed to atomically replace"
  | .createDirectory => "failed to create directory"
  | .createLogDirectory => "failed to create events directory"
  | .openLog => "failed to open events file"
  | .readLayer => "failed to read config layer"
  | .readInventory => "failed to read inventory"

inductive Failure
  | unknownInstance (id : String)
  | unknownAgent (instanceId id : String)
  | malformedAccount (text : String)
  | blankAgentId
  | noFileName (path : Path)
  | agentTaken (instanceId id : String)
  | brokenInventory (path : Path) (text : String := "")
  | rejected (issues : List Fleet.Issue)
  | violated (violations : List Policy.Violation)
  | unusablePolicy (mismatch : Policy.Mismatch)
  | defectiveLayer (path : Path) (defect : Layer.Defect)
  | includeCycle (opened : List Location) (again : Location)
  | missing (sought : Sought) (path : Path)
  | missingVariable (name : String)
  | refused (action : Action) (path : Path) (reason : OsError)
deriving DecidableEq

inductive Category
  | user | collision | structural | validation | policy | reference | includeCycle | parse
  | missingVariable | io
deriving DecidableEq

def Category.exitCode : Category → Nat
  | .user | .collision => 1
  | .structural | .validation => 2
  | .policy => 3
  | .reference | .includeCycle | .parse | .missingVariable => 4
  | .io => 5

namespace Failure

def category : Failure → Category
  | .unknownInstance _ | .unknownAgent .. | .malformedAccount _ | .blankAgentId
  | .noFileName _ => .user
  | .agentTaken .. => .collision
  | .brokenInventory .. | .unusablePolicy _ => .structural
  | .rejected _ => .validation
  | .violated _ => .policy
  | .defectiveLayer _ (.malformed _) => .parse
  | .defectiveLayer .. => .structural
  | .includeCycle .. => .includeCycle
  | .missing .. => .reference
  | .missingVariable _ => .missingVariable
  | .refused .. => .io

def exitCode (f : Failure) : Nat := f.category.exitCode

/-- The files of an include cycle: those that are open, and the one that is met again. -/
def cycleText (opened : List Location) (again : Location) : String :=
  " -> ".intercalate ((opened ++ [again]).map Location.toString)

def issuesText (issues : List Fleet.Issue) : String :=
  issues.foldl (fun s i => s ++ "\n- " ++ i.message) "Inventory validation failed:"

def defectText (path : Path) : Layer.Defect → String
  | .malformed message => "failed to parse config layer " ++ path.toString ++ ": " ++ message
  | .notMapping found =>
    "config layer must be a mapping, found " ++ found.name ++ ": " ++ path.toString
  | .includeNotTexts found =>
    Layer.includeKey ++ " must be a string or list of strings, found " ++ found.name ++ ": " ++
      path.toString
  | .includeItemNotText i found =>
    Layer.includeKey ++ "[" ++ toString i ++ "] must be a string, found " ++ found.name ++ ": " ++
      path.toString

def message : Failure → String
  | .unknownInstance id => "instance not found: " ++ id
  | .unknownAgent instanceId id => "agent not found: " ++ instanceId ++ "/" ++ id
  | .malformedAccount text =>
    "account must follow channel:accountId format, got '" ++ text ++ "'"
  | .blankAgentId => "agent id must not be empty"
  | .noFileName path => "invalid file path: " ++ path.toString
  | .agentTaken instanceId id =>
    "agent already exists in instance '" ++ instanceId ++ "': " ++ id
  | .brokenInventory path _ => "failed to parse inventory YAML " ++ path.toString
  | .rejected issues => issuesText issues
  | .violated violations => Policy.report violations
  | .unusablePolicy mismatch => "invalid merged policy: " ++ mismatch.message
  | .defectiveLayer path defect => defectText path defect
  | .includeCycle opened again =>
    "cyclic $include detected at: " ++ again.toString ++ " (chain: " ++ cycleText opened again ++
      ")"
  | .missing sought path => sought.name ++ " not found: " ++ path.toString
  | .missingVariable name => "missing required environment variable: " ++ name
  | .refused action path reason =>
    action.text ++ " '" ++ path.toString ++ "': " ++ reason.text

/-- The message with the reason of the YAML reader, whose words about a text are its own. -/
def report (explain : String → String) (f : Failure) : String :=
  match f with
  | .brokenInventory _ text => f.message ++ ": " ++ explain text
  | _ => f.message

theorem message_prefix_report (explain : String → String) (f : Failure) :
    f.message.toList <+: (f.report explain).toList := by
  unfold report
  split
  · rw [String.append_assoc, String.toList_append]
    exact List.prefix_append _ _
  · exact List.prefix_rfl

end Failure

end GatewayFleet
