import JarAudit.ClassPath
import JarAudit.CommandLine.Grammar

/-!
# Invocations

What a command line asks for, and the class path of the platform that goes with it.
-/

namespace JarAudit.CommandLine

open JarAudit.Files

/-- How output is written. -/
inductive Format where
  | json
  | text
  deriving DecidableEq, Repr

/-- What is asked of a path. -/
inductive Command where
  | info (path : String) (entry : Option String)
  | refs (path : String) (entry : Option String)
  | missing (path : String) (entry : Option String)
  | verify (path : String)
  | references (path : String)
  | entries (path : String)
  | duplicates (path : String)
  | archives (path : String)
  deriving DecidableEq, Repr

/-- The path that a command is about. -/
def Command.path : Command → String
  | info path _ | refs path _ | missing path _ | verify path | references path | entries path
  | duplicates path | archives path => path

/-- A command with the options that go before it. -/
structure Invocation where
  command : Command
  systemClassPath : List String := []
  noSystem : Bool := false
  noRecurse : Bool := false
  format : Format := .json
  verbosity : Nat := 0
  deriving DecidableEq, Repr

/-- What the surroundings of the program say about the class path of the platform. -/
structure Environment where
  /-- The directory of the platform. -/
  platformHome : Option String := none
  /-- Files and directories, with `:` between them. -/
  systemClassPath : Option String := none
  deriving DecidableEq, Repr

namespace Invocation

/-! ### Grammar -/

/-- The option that asks for help. -/
def helpRule : ArgumentRule := { name := "help", letter := some 'h', kind := .help }

/-- The path that every subcommand is about. -/
def pathRule : ArgumentRule := { name := "path", kind := .single, accepts := (!·.isEmpty) }

/-- The subcommands that are about one class, which may be chosen. -/
def classCommands : List (String × (String → Option String → Command)) :=
  [("info", .info), ("refs", .refs), ("missing", .missing)]

/-- The subcommands that are about everything. -/
def wholeCommands : List (String × (String → Command)) :=
  [("verify", .verify), ("references", .references), ("entries", .entries),
    ("duplicates", .duplicates), ("archives", .archives)]

/-- The subcommand that asks for help. -/
def helpCommand : String := "help"

/-- The names of the subcommands. -/
def commandNames : List String :=
  classCommands.map (·.1) ++ wholeCommands.map (·.1) ++ [helpCommand]

/-- The names of the formats. -/
def formats : List (String × Format) := [("json", .json), ("text", .text)]

/-- The format with a name. -/
def formatOf? (name : String) : Option Format := formats.lookup name

/-- What goes before the subcommand. -/
def grammar : Grammar :=
  { options := [
      { name := "system-classpath", kind := .repeated, accepts := (!·.isEmpty) },
      { name := "no-system", kind := .flag },
      { name := "no-recurse", kind := .flag },
      { name := "format", letter := some 'f', kind := .single
        accepts := fun value => (formatOf? value).isSome },
      { name := "verbose", letter := some 'v', kind := .counter },
      helpRule]
    subcommands := commandNames }

/-- What goes behind a subcommand that is about everything. -/
def wholeGrammar : Grammar := { options := [helpRule], positionals := [pathRule] }

/-- What goes behind a subcommand that is about one class. -/
def classGrammar : Grammar :=
  { options := [{ name := "entry", kind := .single }, helpRule], positionals := [pathRule] }

/-! ### Reading -/

/-- Reads what goes behind a subcommand: the path, and the class if one is chosen. -/
def readCommand (grammar : Grammar) (arguments : List String) :
    Except UsageFault (String × Option String) := do
  let reading ← (← grammar.read arguments).1.close
  match reading.value? pathRule.name with
  | some path => return (path, reading.value? "entry")
  | none => throw .missingRequiredArgument

/-- Answers a call for help on subcommands. -/
def readHelp : List String → UsageFault
  | [] => .displayHelp
  | [name] => if commandNames.contains name then .displayHelp else .invalidSubcommand
  | _ => .invalidSubcommand

/-- Reads a subcommand. -/
def commandOf (name : String) (arguments : List String) : Except UsageFault Command := do
  match classCommands.lookup name, wholeCommands.lookup name with
  | some command, _ =>
    let (path, entry) ← readCommand classGrammar arguments
    return command path entry
  | none, some command => return command (← readCommand wholeGrammar arguments).1
  | none, none => throw (readHelp arguments)

/-- The highest verbosity. -/
def maxVerbosity : Nat := 255

/-- Reads a command line, without the name of the program. -/
def parse (arguments : List String) : Except UsageFault Invocation := do
  match ← grammar.read arguments with
  | (reading, some (name, rest)) =>
    let command ← commandOf name rest
    let reading ← reading.close
    return {
      command
      systemClassPath := reading.values "system-classpath"
      noSystem := reading.isGiven "no-system"
      noRecurse := reading.isGiven "no-recurse"
      format := ((reading.value? "format").bind formatOf?).getD .json
      verbosity := min maxVerbosity (reading.values "verbose").length }
  | (reading, none) =>
    let reading ← reading.close
    if reading.given.isEmpty then throw .displayHelpOnMissingArgumentOrSubcommand
    else throw .missingSubcommand

/-! ### The class path of the platform -/

/-- A text that is there and not empty. -/
def nonempty (text : Option String) : Option String := text.filter (!·.isEmpty)

/-- The elements of a class path that is given as one text, with `:` between them. -/
def elements (list : String) : List String := (list.toList.splitOn ':').map String.ofList

/-- The archives of the platform: none if that is asked for, else those that the command line names,
else those that the surroundings name, else those of the platform's directory. -/
def platformArchives (invocation : Invocation) (environment : Environment) (tree : Tree) :
    List String :=
  if invocation.noSystem then []
  else if !invocation.systemClassPath.isEmpty then ClassPath.expand tree invocation.systemClassPath
  else match nonempty environment.systemClassPath, nonempty environment.platformHome with
    | some list, _ => ClassPath.expand tree (elements list)
    | none, some home => ClassPath.ofPlatform tree home
    | none, none => []

/-- The files and directories in which the archives of the platform are looked for. -/
def platformSources (invocation : Invocation) (environment : Environment) : List String :=
  invocation.systemClassPath ++ ((nonempty environment.systemClassPath).map elements).getD [] ++
    (nonempty environment.platformHome).toList.flatMap fun home =>
      (ClassPath.platformPlaces home).flatMap fun place =>
        ClassPath.bootArchives.map (Path.join place)

end Invocation

end JarAudit.CommandLine
