import GatewayFleet.Command.Invocation

/-! What the program says about itself: its commands with their options, and what is wrong with a
command line it does not understand. -/

namespace GatewayFleet.Command

/-- An option as it is written on the line; brackets stand around what may be left out. -/
def Opt.text (o : Opt) : String :=
  let written := "--" ++ o.name ++ (if o.takesValue then " <" ++ o.name ++ ">" else "")
  if o.required then written else "[" ++ written ++ "]"

namespace Grammar

mutual

def lines (above : String) : Grammar → List String
  | .node options [] => [" ".intercalate (above :: options.map Opt.text)]
  | .node _ (c :: cs) => linesBelow above (c :: cs)

def linesBelow (above : String) : List (List String × Grammar) → List String
  | [] => []
  | (names, g) :: rest => g.lines (above ++ " " ++ names.headD "") ++ linesBelow above rest

end

end Grammar

def programName : String := "fleetconf"

def versionText : String := programName ++ " 0.1.0"

def helpText : String := "\n".intercalate ("Usage:" :: grammar.lines ("  " ++ programName))

def Usage.text : Usage → String
  | .help | .helpOnMissing => helpText
  | .version => versionText
  | .missingCommand => "error: a command is missing"
  | .missingRequired => "error: a required option is missing"
  | .unknownArgument => "error: an argument is not expected"
  | .unknownCommand => "error: a command is not known"
  | .invalidValue => "error: the value of an option is missing or not allowed"
  | .repeatedOption => "error: an option is given more than once"
  | .unneededValue => "error: a value is given to an option that takes none"

end GatewayFleet.Command
