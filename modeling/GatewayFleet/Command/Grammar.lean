import GatewayFleet.Fields

/-! Command lines made of options and nested commands. An option that takes a value waits for it;
whatever it got is only checked when the next option is met or the line ends, so that an argument
nobody knows is reported first. -/

namespace GatewayFleet.Command

/-- How a command line is misused, or what it asks for instead of being carried out. -/
inductive Usage
  | help | version
  | helpOnMissing
  | missingCommand
  | missingRequired
  | unknownArgument
  | unknownCommand
  | invalidValue
  | repeatedOption
  | unneededValue
deriving DecidableEq, Repr

def Usage.exitCode : Usage → Nat
  | .help | .version => 0
  | _ => 2

inductive Effect
  | set | append | flag | count | help | version
deriving DecidableEq

structure Opt where
  name : String
  aliases : List String := []
  letter : Option Char := none
  effect : Effect
  required : Bool := false
  allows : String → Bool := fun _ => true

def Opt.takesValue (o : Opt) : Bool := o.effect = .set || o.effect = .append

inductive Grammar
  | node (options : List Opt) (commands : List (List String × Grammar))

namespace Grammar

def options : Grammar → List Opt
  | node options _ => options

def commands : Grammar → List (List String × Grammar)
  | node _ commands => commands

def long? (g : Grammar) (name : String) : Option Opt :=
  g.options.find? fun o => o.name = name || o.aliases.contains name

def letter? (g : Grammar) (c : Char) : Option Opt := g.options.find? (·.letter = some c)

def command? (g : Grammar) (name : String) : Option (String × Grammar) :=
  match g.commands.find? (·.1.contains name) with
  | some (names, below) => some (names.headD name, below)
  | none => none

def helpName : String := "help"

def hasHelp (g : Grammar) : Bool := !g.commands.isEmpty

def helpAbout (g : Grammar) : List String → Usage
  | [] => .help
  | name :: rest =>
    match g.command? name with
    | some (_, below) => below.helpAbout rest
    | none => if g.hasHelp && name = helpName && rest.isEmpty then .help else .unknownCommand

end Grammar

/-- An option that was met and not checked yet, with its value once it has one. -/
structure Waiting where
  option : Opt
  value : Option String

/-- What was given to one command so far. A flag has no values. -/
structure Level where
  given : Fields (List String) := []
  waiting : Option Waiting := none

namespace Level

def give (l : Level) (o : Opt) (value : String) : Except Usage Level :=
  let old := (Fields.get? l.given o.name).getD []
  let again := Fields.has l.given o.name
  match o.effect with
  | .help => .error .help
  | .version => .error .version
  | .flag => if again then .error .repeatedOption
    else .ok { l with given := Fields.put l.given o.name [] }
  | .count => .ok { l with given := Fields.put l.given o.name (old ++ [value]) }
  | .set =>
    if again then .error .repeatedOption
    else if o.allows value then .ok { l with given := Fields.put l.given o.name [value] }
    else .error .invalidValue
  | .append =>
    if o.allows value then .ok { l with given := Fields.put l.given o.name (old ++ [value]) }
    else .error .invalidValue

def resolve (l : Level) : Except Usage Level :=
  match l.waiting with
  | none => .ok l
  | some ⟨_, none⟩ => .error .invalidValue
  | some ⟨o, some value⟩ => { l with waiting := none }.give o value

def awaitsValue (l : Level) : Bool := l.waiting.any (·.value.isNone)

def long (g : Grammar) (l : Level) (name : String) (attached : Option String) :
    Except Usage Level :=
  match g.long? name with
  | none => .error .unknownArgument
  | some o =>
    match o.takesValue, attached with
    | true, some value => do (← l.resolve).give o value
    | true, none => do pure { (← l.resolve) with waiting := some ⟨o, none⟩ }
    | false, some _ => .error .unneededValue
    | false, none => do (← l.resolve).give o ""

def letters (g : Grammar) : Level → List Char → Except Usage Level
  | l, [] => .ok l
  | l, c :: rest =>
    match g.letter? c with
    | none => .error .unknownArgument
    | some o => do letters g (← (← l.resolve).give o "") rest

def isComplete (g : Grammar) (l : Level) : Bool :=
  g.options.all fun o => !o.required || Fields.has l.given o.name

end Level

inductive Spelling
  | separator
  | long (name : String) (attached : Option String)
  | letters (cs : List Char)
  | word
deriving DecidableEq

def longOf (cs : List Char) : Spelling :=
  let name := cs.takeWhile (· ≠ '=')
  match cs.dropWhile (· ≠ '=') with
  | [] => .long (String.ofList name) none
  | _ :: value => .long (String.ofList name) (some (String.ofList value))

def Spelling.of (arg : String) : Spelling :=
  match arg.toList with
  | ['-'] => .word
  | ['-', '-'] => .separator
  | '-' :: '-' :: cs => longOf cs
  | '-' :: cs => .letters cs
  | _ => .word

abbrev Parsed := List (String × Fields (List String))

namespace Grammar

def stray (g : Grammar) (separated : Bool) (arg : String) : Usage :=
  if g.commands.isEmpty then .unknownArgument
  else if separated && (arg = helpName || (g.command? arg).isSome) then .unknownArgument
  else .unknownCommand

def finish (g : Grammar) (name : String) (l : Level) : Except Usage Parsed := do
  let l ← l.resolve
  if g.commands.isEmpty then
    if l.isComplete g then pure [(name, l.given)] else throw .missingRequired
  else if l.given.isEmpty then throw .helpOnMissing
  else throw .missingCommand

/-- Reads the arguments of a command; `separated` tells that `--` was met. -/
def parseFrom (g : Grammar) (name : String) (l : Level) (separated : Bool) :
    List String → Except Usage Parsed
  | [] => g.finish name l
  | arg :: rest =>
    if separated then .error (g.stray true arg)
    else if !l.awaitsValue && g.hasHelp && arg = helpName then .error (g.helpAbout rest)
    else match if l.awaitsValue then none else g.command? arg with
    | some (below, sub) => do
      let deeper ← parseFrom sub below {} false rest
      let l ← l.resolve
      pure ((name, l.given) :: deeper)
    | none =>
      match Spelling.of arg, l.waiting with
      | .separator, _ => parseFrom g name l true rest
      | .long option attached, _ => do
        parseFrom g name (← l.long g option attached) false rest
      | .letters cs, _ => do parseFrom g name (← l.letters g cs) false rest
      | .word, some ⟨o, none⟩ =>
        parseFrom g name { l with waiting := some ⟨o, some arg⟩ } false rest
      | .word, _ => .error (g.stray false arg)

def parse (g : Grammar) (name : String) (args : List String) : Except Usage Parsed :=
  g.parseFrom name {} false args

end Grammar

end GatewayFleet.Command
