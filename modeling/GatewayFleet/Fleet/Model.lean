import GatewayFleet.Path
import GatewayFleet.Policy.Fragment

/-! The typed inventory. Each record keeps the members it does not interpret in `extra`, so that a
document that is read and written again loses nothing. Channels and accounts are held in the
order of their names. -/

namespace GatewayFleet

open Policy (Fragment)

namespace Fleet

def supportedVersion : Nat := 1

def defaultPortStride : Nat := 20

structure Defaults where
  portStride : Option Nat := none
  policy : Option Fragment := none
  extra : Fields Value := []
deriving DecidableEq

def Defaults.stride (d : Defaults) : Nat := d.portStride.getD defaultPortStride

def Defaults.isEmpty (d : Defaults) : Bool :=
  d.portStride.isNone && d.policy.isNone && d.extra.isEmpty

structure Host where
  gatewayPort : Nat
  bind : Option String := none
  extra : Fields Value := []
deriving DecidableEq

inductive PathRole
  | configDir | stateDir | workspaceRoot | generatedDir
deriving DecidableEq

def PathRole.all : List PathRole := [.configDir, .stateDir, .workspaceRoot, .generatedDir]

def PathRole.key : PathRole → String
  | .configDir => "config_dir"
  | .stateDir => "state_dir"
  | .workspaceRoot => "workspace_root"
  | .generatedDir => "generated_dir"

structure RolePaths where
  configDir : String
  stateDir : String
  workspaceRoot : String
  generatedDir : String
  extra : Fields Value := []
deriving DecidableEq

def RolePaths.get (p : RolePaths) : PathRole → String
  | .configDir => p.configDir
  | .stateDir => p.stateDir
  | .workspaceRoot => p.workspaceRoot
  | .generatedDir => p.generatedDir

/-- Where a role lies, seen from the directory of the inventory. -/
def RolePaths.locate (p : RolePaths) (dir : Path) (role : PathRole) : Location :=
  dir.resolve (.ofString (p.get role))

structure RuntimeBlock where
  configLayers : List String
  extra : Fields Value := []
deriving DecidableEq

inductive Role
  | human | usecase
deriving DecidableEq, Inhabited

def Role.default : Role := .usecase

def Role.name : Role → String
  | .human => "human"
  | .usecase => "usecase"

def Role.ofName? : String → Option Role
  | "human" => some .human
  | "usecase" => some .usecase
  | _ => none

/-- The account of a channel that is routed to an agent. -/
structure Match where
  channel : String
  accountId : String
  extra : Fields Value := []
deriving DecidableEq

structure Binding where
  route : Match
  extra : Fields Value := []
deriving DecidableEq

def accountKey (channel account : String) : String := channel ++ ":" ++ account

def Binding.channel (b : Binding) : String := b.route.channel
def Binding.account (b : Binding) : String := b.route.accountId
def Binding.key (b : Binding) : String := accountKey b.channel b.account
def Binding.of (channel account : String) : Binding := ⟨⟨channel, account, []⟩, []⟩

structure Agent where
  id : String
  role : Role
  workspace : Option String := none
  agentDir : Option String := none
  bindings : List Binding
  integrations : List String := []
  skills : List String := []
  skillSources : Option (List String) := none
  model : Option String := none
  policy : Option Fragment := none
  extra : Fields Value := []
deriving DecidableEq

def Agent.workspaceName (a : Agent) : String := a.workspace.getD a.id
def Agent.agentDirName (a : Agent) : String := a.agentDir.getD ("agents/" ++ a.id)

def defaultSkillSources : List String := ["workspace"]

def Agent.sources (a : Agent) : List String := a.skillSources.getD defaultSkillSources

structure Channel where
  accounts : Fields Value := []
  extra : Fields Value := []
deriving DecidableEq

structure Instance where
  id : String
  host : Host
  paths : RolePaths
  runtime : RuntimeBlock
  agents : List Agent := []
  channels : Fields Channel := []
  policy : Option Fragment := none
  extra : Fields Value := []
deriving DecidableEq

def Instance.bindings (i : Instance) : List Binding := i.agents.flatMap (·.bindings)

structure Inventory where
  version : Nat
  defaults : Defaults := {}
  policy : Option Fragment := none
  instances : List Instance
  extra : Fields Value := []
deriving DecidableEq

def Inventory.find? (inv : Inventory) (id : String) : Option Instance :=
  inv.instances.find? (·.id = id)

def Instance.find? (i : Instance) (id : String) : Option Agent := i.agents.find? (·.id = id)

def replaceFirst (test : α → Bool) (new : α) : List α → List α
  | [] => []
  | x :: xs => if test x then new :: xs else x :: replaceFirst test new xs

/-- Puts a changed instance in the place of the one with that identifier. -/
def Inventory.setInstance (inv : Inventory) (id : String) (i : Instance) : Inventory :=
  { inv with instances := replaceFirst (·.id = id) i inv.instances }

end Fleet

end GatewayFleet
