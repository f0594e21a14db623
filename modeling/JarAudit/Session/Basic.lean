import JarAudit.Entry.Duplicates
import JarAudit.Jar
import JarAudit.Zip.Crc32

/-!
# Sessions

A session is opened over an archive, together with the archives that its manifest names, or over one
class file. What is listed when it is opened stays as it is; contents are read again each time they
are asked for. Archives that the manifest names are optional: one that is not there or cannot be
read is marked as not found, and everything else is as it would be without it.
-/

namespace JarAudit

open JarAudit.Files

/-- What a session is over. -/
inductive SessionKind where
  | archive
  | classFile
  deriving DecidableEq, Repr

/-- What is known of an archive of a session. -/
structure ArchiveStatus where
  path : String
  found : Bool := false
  entryCount : Nat := 0
  size : Nat := 0
  lastModified : Nat := 0
  deriving DecidableEq, Repr

namespace ArchiveStatus

/-- The status of an archive that was opened, with the size and the time of its file. -/
def ofFound (tree : Tree) (path : String) (entryCount : Nat) : ArchiveStatus :=
  match tree.read path with
  | .ok (contents, modified) =>
    { path, found := true, entryCount, size := contents.size, lastModified := modified.toNat }
  | .error _ => { path, found := true, entryCount }

end ArchiveStatus

/-- An opened archive or class file. -/
structure Session where
  root : String
  kind : SessionKind
  manifest : Option Manifest := none
  archives : List ArchiveStatus := []
  entries : List Entry := []
  /-- The classes that the entries provide. -/
  provided : NameSet := ∅

namespace Session

/-! ### Opening -/

/-- The paths of the archives that a manifest names, as seen from the directory of its archive. -/
def dependencies (root : String) (manifest : Option Manifest) : List String :=
  match manifest with
  | some manifest => manifest.classPath.map (Path.join (Path.parent root))
  | none => []

/-- The status of an archive that a manifest names, and its entries. Without `recurse` the records
of the archive are only counted. -/
def openDependency (tree : Tree) (recurse : Bool) (path : String) : ArchiveStatus × List Entry :=
  if !tree.isFile path then ({ path }, [])
  else if recurse then
    match Jar.entries tree path with
    | .ok entries => (.ofFound tree path entries.length, entries)
    | .error _ => ({ path }, [])
  else
    match Jar.recordCount tree path with
    | .ok count => (.ofFound tree path count, [])
    | .error _ => ({ path }, [])

/-- Opens an archive. A manifest that cannot be read counts as none. -/
def openArchive (tree : Tree) (path : String) (recurse : Bool) : Except Failure Session := do
  let own ← inContext (.invalidRoot path) (Jar.entries tree path)
  let manifest := (Jar.manifest tree path).toOption.join
  let opened := (dependencies path manifest).map (openDependency tree recurse)
  let listed := own ++ opened.flatMap (·.2)
  let entries := ((DuplicateReport.detect listed).apply listed).1
  return {
    root := path
    kind := .archive
    manifest
    archives := .ofFound tree path own.length :: opened.map (·.1)
    entries
    provided := Entry.provided entries }

/-- The entry of a file that stands alone, under its absolute path. -/
def standaloneEntry (tree : Tree) (path : String) : Except Failure Entry :=
  match tree.read path with
  | .error fault => .error ⟨.readFile path, [.systemFault fault]⟩
  | .ok (contents, modified) =>
    let fullPath := Path.absolute tree.workingPath path
    .ok {
      fileName := (Path.fileName? fullPath).getD ""
      directory := Path.parent fullPath
      fullPath
      checksum := (Zip.crc32 contents.data.toList).toNat
      lastModified := modified.toNat
      size := contents.size
      owningArchive := "" }

/-- Opens a class file. -/
def openClassFile (tree : Tree) (path : String) : Except Failure Session := do
  let entry ← standaloneEntry tree path
  return { root := path, kind := .classFile, entries := [entry] }

/-- Opens a path by its extension: a class file, or else an archive. -/
def «open» (tree : Tree) (path : String) (recurse : Bool) : Except Failure Session :=
  if Path.hasExtension path "class" then openClassFile tree path
  else openArchive tree path recurse

/-! ### Looking up -/

/-- The entries that share their path with another one. -/
def nameMatches (session : Session) : List Entry := session.entries.filter (·.isNameMatch)

/-- The entries that share their path and checksum with another one. -/
def checksumMatches (session : Session) : List Entry := session.entries.filter (·.isChecksumMatch)

/-- An entry goes by a name: its path, or the name of its class with `/` or with dots. A file that
stands alone also goes by its file name. -/
def goesBy (name : String) (entry : Entry) : Bool :=
  let wanted := Entry.pathOfClass name
  entry.fullPath == name || entry.fullPath == wanted ||
    (entry.isStandalone && (entry.fileName == name || entry.fileName == wanted))

/-- The first entry that goes by a name. -/
def find? (session : Session) (name : String) : Option Entry :=
  session.entries.find? (goesBy name)

end Session

end JarAudit
