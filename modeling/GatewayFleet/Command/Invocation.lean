import GatewayFleet.Command.Grammar
import GatewayFleet.Fleet.Roster

/-! What the program can be asked to do, and the command line that asks for it. -/

namespace GatewayFleet

open Fleet (AgentSpec Role)

inductive Command
  | validate
  | render (instanceId : String) (dryRun : Bool)
  | policyCheck
  | policyEffective (instanceId : String) (agentId : Option String)
  | policyIntegrations
  | agentAdd (instanceId : String) (spec : AgentSpec)
  | agentRemove (instanceId agentId : String) (prune : Bool)
  | agentList (instanceId : String)
deriving DecidableEq

inductive LogLevel
  | warn | info | debug | trace
deriving DecidableEq

def LogLevel.name : LogLevel → String
  | .warn => "WARN"
  | .info => "INFO"
  | .debug => "DEBUG"
  | .trace => "TRACE"

def LogLevel.ofVerbosity : Nat → LogLevel
  | 0 => .warn
  | 1 => .info
  | 2 => .debug
  | _ => .trace

structure Invocation where
  inventory : Option Path
  level : LogLevel
  jsonLog : Bool
  command : Command
deriving DecidableEq

namespace Command

def sharedOptions : List Opt :=
  [{ name := "inventory", effect := .set, allows := (· ≠ "") },
    { name := "verbose", letter := some 'v', effect := .count },
    { name := "log-json", effect := .flag },
    { name := "help", letter := some 'h', effect := .help },
    { name := "version", letter := some 'V', effect := .version }]

def command (options : List Opt) : Grammar := .node (options ++ sharedOptions) []

def group (commands : List (List String × Grammar)) : Grammar := .node sharedOptions commands

def instanceOption : Opt := { name := "instance", effect := .set, required := true }

def idOption : Opt := { name := "id", aliases := ["agent-id"], effect := .set, required := true }

def roleOption : Opt :=
  { name := "role", effect := .set, allows := fun name => (Role.ofName? name).isSome }

def accountOption : Opt := { name := "account", effect := .append, required := true }

def grammar : Grammar :=
  group [
    (["validate"], command []),
    (["render"], command [instanceOption, { name := "dry-run", effect := .flag }]),
    (["policy"], group [
      (["check", "validate"], command []),
      (["effective"], command [instanceOption,
        { name := "agent", aliases := ["agent-id"], effect := .set }]),
      (["integrations"], command [])]),
    (["agent"], group [
      (["add"], command [instanceOption, idOption, roleOption, accountOption,
        { name := "integration", effect := .append }, { name := "skill", effect := .append },
        { name := "model", effect := .set }]),
      (["remove"], command
        [instanceOption, idOption, { name := "keep-accounts", effect := .flag }]),
      (["list"], command [instanceOption])])]

abbrev Given := Fields (List String)

def Given.values (g : Given) (name : String) : List String := (Fields.get? g name).getD []

def Given.value? (g : Given) (name : String) : Option String := (g.values name).head?

def Given.value (g : Given) (name : String) : String := (g.value? name).getD ""

def Given.spec (g : Given) : AgentSpec where
  id := g.value "id"
  role := ((g.value? "role").bind Role.ofName?).getD .default
  accounts := g.values "account"
  integrations := g.values "integration"
  skills := g.values "skill"
  model := g.value? "model"

/-- The command that a chain of names and the options of the last one ask for. -/
def ofNames? (names : List String) (g : Given) : Option Command :=
  match names with
  | ["validate"] => some .validate
  | ["render"] => some (.render (g.value "instance") (Fields.has g "dry-run"))
  | ["policy", "check"] => some .policyCheck
  | ["policy", "effective"] => some (.policyEffective (g.value "instance") (g.value? "agent"))
  | ["policy", "integrations"] => some .policyIntegrations
  | ["agent", "add"] => some (.agentAdd (g.value "instance") g.spec)
  | ["agent", "remove"] =>
    some (.agentRemove (g.value "instance") (g.value "id") (!Fields.has g "keep-accounts"))
  | ["agent", "list"] => some (.agentList (g.value "instance"))
  | _ => none

end Command

open Command in
/-- The innermost command to which a shared option was given, and its values there. -/
def Invocation.shared? (p : Parsed) (name : String) : Option (List String) :=
  p.reverse.findSome? fun level => Fields.get? level.2 name

open Command in
def Invocation.parse (args : List String) : Except Usage Invocation := do
  let p ← grammar.parse "" args
  match Command.ofNames? (p.tail.map (·.1)) ((p.getLast?.map (·.2)).getD []) with
  | none => throw .missingCommand
  | some command =>
    pure {
      inventory := ((Invocation.shared? p "inventory").bind List.head?).map .ofString
      level := .ofVerbosity ((Invocation.shared? p "verbose").getD []).length
      jsonLog := (Invocation.shared? p "log-json").isSome
      command := command }

end GatewayFleet
