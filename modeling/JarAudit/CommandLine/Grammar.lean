import JarAudit.Text.Pieces

/-!
# Grammars of command lines

A command line is a list of arguments. An argument that starts with `-` names options: `--name`,
`--name=value`, or one letter each, the last of which may have its value attached, with or without
`=`. An option may also take its value from the next argument, unless that one starts with `-`
itself; a lone `-` is a value. After `--` nothing names an option. What is left are positional
arguments, or the name of a subcommand, which takes all arguments behind it.

A value that comes in an argument of its own is looked at only when the next option or positional
argument starts, or at the end. Of two faults this lets the later one show first when it is about an
argument that has no place.
-/

namespace JarAudit.CommandLine

/-- Why a command line is not understood, or is a call for help. -/
inductive UsageFault where
  | unknownArgument
  | invalidSubcommand
  /-- A value is not of the kind that is asked for, or is missing. -/
  | invalidValue
  /-- An option that may be given once is given again. -/
  | argumentConflict
  | missingRequiredArgument
  | missingSubcommand
  /-- A value is given to an option that takes none. -/
  | tooManyValues
  | displayHelp
  /-- Nothing at all is given where something has to be. -/
  | displayHelpOnMissingArgumentOrSubcommand
  deriving DecidableEq, Repr

/-- The status with which the program ends; help that was asked for is no failure. -/
def UsageFault.exitCode : UsageFault → Nat
  | displayHelp => 0
  | _ => 2

/-- What an option takes. -/
inductive OptionKind where
  /-- No value, given once. -/
  | flag
  /-- No value, given any number of times. -/
  | counter
  /-- A value, given once. -/
  | single
  /-- A value, given any number of times. -/
  | repeated
  /-- No value; asks for help. -/
  | help
  deriving DecidableEq, Repr

/-- The option may be given only once. -/
def OptionKind.isOnce : OptionKind → Bool
  | flag | single => true
  | counter | repeated | help => false

/-- The option takes a value. -/
def OptionKind.takesValue : OptionKind → Bool
  | single | repeated => true
  | flag | counter | help => false

/-- An option or a positional argument. -/
structure ArgumentRule where
  name : String
  letter : Option Char := none
  kind : OptionKind
  /-- The values that it takes. -/
  accepts : String → Bool := fun _ => true

/-- What a command takes. -/
structure Grammar where
  options : List ArgumentRule
  positionals : List ArgumentRule := []
  subcommands : List String := []

/-- The state of reading. -/
structure Reading where
  /-- Names and values, the last one first. -/
  given : List (String × String) := []
  /-- What was started last, with its value if that is there. -/
  pending : Option (ArgumentRule × Option String) := none
  /-- The next argument may be the value of a pending option. -/
  isWaiting : Bool := false
  /-- Nothing names an option any more. -/
  isTrailing : Bool := false
  /-- The positional arguments that may still come. -/
  positionals : List ArgumentRule := []

namespace Reading

/-- Something is given. -/
def isGiven (reading : Reading) (name : String) : Bool := reading.given.any (·.1 == name)

/-- The last value that is given under a name. -/
def value? (reading : Reading) (name : String) : Option String :=
  (reading.given.find? (·.1 == name)).map (·.2)

/-- All values that are given under a name, in order. -/
def values (reading : Reading) (name : String) : List String :=
  ((reading.given.filter (·.1 == name)).map (·.2)).reverse

/-- Takes a value, or the absence of one as an empty text. -/
def give (reading : Reading) (rule : ArgumentRule) (value : String) : Except UsageFault Reading :=
  if rule.kind.isOnce && reading.isGiven rule.name then .error .argumentConflict
  else if !rule.accepts value then .error .invalidValue
  else .ok { reading with given := (rule.name, value) :: reading.given }

/-- Takes what is pending. -/
def close (reading : Reading) : Except UsageFault Reading :=
  match reading.pending with
  | none => .ok reading
  | some (_, none) => .error .invalidValue
  | some (rule, some value) =>
    { reading with pending := none, isWaiting := false }.give rule value

/-- Takes an option without value. -/
def giveFlag (reading : Reading) (rule : ArgumentRule) : Except UsageFault Reading := do
  let reading ← reading.close
  if rule.kind = .help then throw .displayHelp
  reading.give rule ""

/-- Takes an option with its value attached. -/
def giveAttached (reading : Reading) (rule : ArgumentRule) (value : String) :
    Except UsageFault Reading := do
  (← reading.close).give rule value

/-- Starts an option whose value may come next. -/
def start (reading : Reading) (rule : ArgumentRule) : Except UsageFault Reading := do
  return { (← reading.close) with pending := some (rule, none), isWaiting := true }

end Reading

namespace Grammar

/-- Reads what stands behind `--`: a name, and a value if there is a `=`. -/
def readLong (grammar : Grammar) (reading : Reading) (text : List Char) :
    Except UsageFault Reading :=
  let (name, value?) := match Text.splitAtFirst '=' text with
    | some (name, value) => (String.ofList name, some (String.ofList value))
    | none => (String.ofList text, none)
  match grammar.options.find? (·.name == name), value? with
  | none, _ => .error .unknownArgument
  | some rule, none => if rule.kind.takesValue then reading.start rule else reading.giveFlag rule
  | some rule, some value =>
    if rule.kind.takesValue then reading.giveAttached rule value else .error .tooManyValues

/-- Reads what stands behind a single `-`: letters, and an attached value behind the first letter
that takes one. -/
def readLetters (grammar : Grammar) (reading : Reading) : List Char → Except UsageFault Reading
  | [] => .ok reading
  | letter :: rest =>
    match grammar.options.find? (·.letter == some letter) with
    | none => .error .unknownArgument
    | some rule =>
      if rule.kind.takesValue then
        match rest with
        | [] => reading.start rule
        | '=' :: value => reading.giveAttached rule (String.ofList value)
        | value => reading.giveAttached rule (String.ofList value)
      else do readLetters grammar (← reading.giveFlag rule) rest

/-- Reads a positional argument. One that has no place is taken for the name of a subcommand where
there are any. -/
def readPositional (grammar : Grammar) (reading : Reading) (argument : String) :
    Except UsageFault Reading :=
  match reading.positionals with
  | rule :: rest => do
    return { (← reading.close) with
      pending := some (rule, some argument), isWaiting := false, positionals := rest }
  | [] =>
    if grammar.subcommands.isEmpty || (reading.isTrailing && grammar.subcommands.contains argument)
    then .error .unknownArgument
    else .error .invalidSubcommand

/-- Reads one argument. -/
def readArgument (grammar : Grammar) (reading : Reading) (argument : String) :
    Except UsageFault Reading :=
  if reading.isTrailing then grammar.readPositional reading argument
  else match argument.toList with
    | ['-', '-'] => .ok { reading with isTrailing := true }
    | '-' :: '-' :: text => grammar.readLong reading text
    | '-' :: letter :: rest => grammar.readLetters reading (letter :: rest)
    | _ =>
      match reading.isWaiting, reading.pending with
      | true, some (rule, _) =>
        .ok { reading with pending := some (rule, some argument), isWaiting := false }
      | _, _ => grammar.readPositional reading argument

/-- Reads arguments up to the end or to the name of a subcommand, which is given with the arguments
behind it. What is pending at that point stays so. -/
def readFrom (grammar : Grammar) (reading : Reading) :
    List String → Except UsageFault (Reading × Option (String × List String))
  | [] => .ok (reading, none)
  | argument :: rest =>
    if !reading.isTrailing && !reading.isWaiting && grammar.subcommands.contains argument then
      .ok (reading, some (argument, rest))
    else do readFrom grammar (← grammar.readArgument reading argument) rest

/-- Reads arguments. -/
def read (grammar : Grammar) (arguments : List String) :
    Except UsageFault (Reading × Option (String × List String)) :=
  grammar.readFrom { positionals := grammar.positionals } arguments

end Grammar

end JarAudit.CommandLine
