import JarAudit.CommandLine.Answer

/-!
# Running a command

A run reads the command line, opens a session on the path it names and answers. Whatever stops it is
reported with its causes.
-/

namespace JarAudit.CommandLine

open JarAudit.Files

/-- How a run ends. -/
structure Outcome where
  exitCode : Nat
  output : String := ""
  errors : String := ""
  deriving DecidableEq, Repr

/-! ### Answering -/

/-- A failure that is about a class image as such is told in plain words. -/
def plainFailure (result : Except Failure α) : Except Failure α :=
  result.mapError fun failure => if failure.isClassFile then ⟨.notAClass, []⟩ else failure

/-- The entry that a command is about: the one that is named, or else the only one of a class file,
or else the class with which an archive says to start. -/
def selectEntry (session : Session) (entry : Option String) : Except Failure Entry :=
  let find (name : String) (otherwise : Cause) : Except Failure Entry :=
    match session.find? name with
    | some entry => .ok entry
    | none => .error ⟨otherwise, []⟩
  match entry, session.kind, session.entries with
  | some name, _, _ => find name (.entryNotFound name session.root)
  | none, .classFile, entry :: _ => .ok entry
  | none, _, _ =>
    match session.manifest.bind Manifest.mainClass? with
    | some name => find name (.mainClassNotFound name session.root)
    | none => .error ⟨.noMainClass session.root, []⟩

/-- Answers a command. -/
def answer (tree : Tree) (recurse : Bool) (library : SystemLibrary) :
    Command → Except Failure Answer
  | .info path entry => do
    let session ← Session.open tree path recurse
    let selected ← selectEntry session entry
    return .info path selected.fullPath (← plainFailure (Session.describe tree selected))
  | .refs path entry => do
    let session ← Session.open tree path recurse
    let selected ← selectEntry session entry
    return .refs path selected.fullPath (← plainFailure (Session.included tree selected))
  | .missing path entry => do
    let session ← Session.open tree path recurse
    let selected ← selectEntry session entry
    let system := (library.get tree).1
    let missing ← plainFailure (session.missing tree selected system.names)
    return .missing path selected.fullPath system missing
  | .verify path => do
    let session ← Session.open tree path recurse
    let system := (library.get tree).1
    return .verify path system (session.verify tree system.names)
  | .references path => do
    let session ← Session.open tree path recurse
    return .references path (session.referenced tree)
  | .entries path => do
    let session ← Session.open tree path recurse
    return .entries path session.entries
  | .duplicates path => do
    let session ← Session.open tree path recurse
    return .duplicates path session.nameMatches session.checksumMatches
  | .archives path => do
    let session ← Session.open tree path recurse
    return .archives path session.kind session.manifest session.archives

/-! ### The report of a failure -/

/-- A text whose further lines are set in below its first one. -/
def setIn (first further text : String) : String :=
  match (text.toList.splitOn '\n').map String.ofList with
  | [] => first
  | line :: lines => ("\n" ++ further).intercalate ((first ++ line) :: lines)

/-- The lines of the causes: one stands alone, several are numbered. -/
def causeLines : List Cause → List String
  | [] => []
  | [cause] => [setIn "    " "    " cause.message]
  | causes => causes.zipIdx.map fun (cause, index) =>
    let number := toString index
    setIn (String.ofList (List.replicate (5 - number.length) ' ') ++ number ++ ": ") "       "
      cause.message

/-- The report of a failure. -/
def errorReport (failure : Failure) : String :=
  let headline := "Error: " ++ failure.outermost.message ++ "\n"
  match causeLines failure.deeper with
  | [] => headline
  | lines => headline ++ "\nCaused by:\n" ++ String.join (lines.map (· ++ "\n"))

/-! ### The run -/

/-- Runs a command line. -/
def run (tree : Tree) (environment : Environment) (arguments : List String) : Outcome :=
  match Invocation.parse arguments with
  | .error fault => { exitCode := fault.exitCode }
  | .ok invocation =>
    let library : SystemLibrary := { classPath := invocation.platformArchives environment tree }
    match answer tree (!invocation.noRecurse) library invocation.command with
    | .ok answer => { exitCode := 0, output := answer.render invocation.format }
    | .error failure => { exitCode := 1, errors := errorReport failure }

end JarAudit.CommandLine
