import JarAudit.CommandLine.Run

/-!
# The program

The part that touches the system. It looks at the files that a command line is about, builds a file
tree of them, and leaves everything else to `CommandLine.run`.
-/

namespace JarAudit.CommandLine

open JarAudit.Files

namespace Snapshot

/-- What the system has at a path: a directory, or a file with its time. -/
def find? (path : String) : IO (Option (Option Int)) := do
  try
    let metadata ← (← IO.FS.realPath path).metadata
    match metadata.type with
    | .dir => return some none
    | _ => return some (some metadata.modified.sec)
  catch _ => return none

/-- Adds what the system has at a path, without what is below it. -/
def addOne (tree : Tree) (path : String) : IO Tree := do
  match ← find? path with
  | none => return tree
  | some none => return if tree.isDirectory path then tree else tree.write path (.directory [])
  | some (some modified) =>
    try return tree.write path (.file (← IO.FS.readBinFile path) modified)
    catch _ => return tree

/-- Adds what the system has at a path and on the way there. -/
def addPath (tree : Tree) (path : String) : IO Tree := do
  let pieces := Path.pieces path
  let mut tree := tree
  for count in [1:pieces.length + 1] do
    let front := "/".intercalate (pieces.take count)
    if !front.isEmpty then tree ← addOne tree front
  return tree

/-- Adds what the system has at a path and below it: the archives and the ignore files. -/
partial def addBelow (tree : Tree) (path : String) : IO Tree := do
  match ← find? path with
  | some none =>
    let mut tree ← addOne tree path
    try
      for entry in ← (← IO.FS.realPath path).readDir do
        tree ← addBelow tree (Path.join path entry.fileName)
    catch _ => pure ()
    return tree
  | _ =>
    let name := (Path.fileName? path).getD ""
    if ClassPath.isArchiveName name || name == IgnoreRule.fileName then addOne tree path
    else return tree

/-- Adds an element of a class path: what is at it and below it, and the ignore files above it. -/
def addElement (tree : Tree) (path : String) : IO Tree := do
  let mut tree ← addBelow (← addPath tree path) path
  let place := tree.place path
  for count in [0:place.length] do
    let above := Path.ofNames (place.take count)
    tree ← addOne tree (Path.join above IgnoreRule.fileName)
  return tree

/-- Adds the archive or class file that a command is about, with the archives that it names. -/
def addRoot (tree : Tree) (path : String) : IO Tree := do
  let tree ← addPath tree path
  let manifest := (Jar.manifest tree path).toOption.join
  (Session.dependencies path manifest).foldlM addPath tree

/-- The files that a command line is about. -/
def take (invocation : Invocation) (environment : Environment) : IO Tree := do
  let working := Path.components (← IO.currentDir).toString
  let tree ← addPath { workingDirectory := working } (Path.ofNames working)
  let tree ← addRoot tree invocation.command.path
  if invocation.noSystem then return tree
  (invocation.platformSources environment).foldlM addElement tree

end Snapshot

/-- Reads the surroundings of the program. -/
def readEnvironment : IO Environment := do
  return { platformHome := ← IO.getEnv "JAVA_HOME"
           systemClassPath := ← IO.getEnv "CLASS_DEPS_SYSTEM_CLASSPATH" }

end JarAudit.CommandLine

open JarAudit.CommandLine in
/-- Runs the command line and writes what comes of it. -/
def main (arguments : List String) : IO UInt32 := do
  let environment ← readEnvironment
  let tree ← match Invocation.parse arguments with
    | .ok invocation => Snapshot.take invocation environment
    | .error _ => pure {}
  let outcome := run tree environment arguments
  IO.print outcome.output
  IO.eprint outcome.errors
  return outcome.exitCode.toUInt32
