import JarAudit.Entry.Basic
import JarAudit.Failure
import JarAudit.Manifest
import JarAudit.Text.Utf8
import JarAudit.Zip.Archive

/-!
# Jar archives

What is asked of an archive in a file tree: how many records it has, its files as entries, its
classes and their contents, and its manifest. Every question opens the archive anew.
-/

namespace JarAudit.Jar

open JarAudit.Files JarAudit.Zip

/-- A fault of an archive stops a question. -/
def liftFault (result : Except Zip.Fault α) : Except Failure α :=
  result.mapError Failure.ofArchive

/-- A fault of data stops a question. -/
def liftData (result : Except DataFault α) : Except Failure α :=
  result.mapError fun fault => ⟨.dataFault fault, []⟩

/-- Opens the archive at a path. A directory can be opened but not mapped. -/
def openAt (tree : Tree) (path : String) : Except Failure Archive :=
  match tree.node path with
  | .error fault => .error ⟨.openArchive path, [.systemFault fault]⟩
  | .ok (.directory _) => .error ⟨.mapArchive path, [.systemFault .noDevice]⟩
  | .ok (.file contents _) => inContext (.readStructure path) (liftFault (Archive.ofFile contents))

/-- How many records the archive has. -/
def recordCount (tree : Tree) (path : String) : Except Failure Nat := do
  return (← openAt tree path).records.length

/-- The archive's files as entries, in the order of the directory. A record that cannot be found
fails the whole list, also one of a directory. -/
def entries (tree : Tree) (path : String) : Except Failure (List Entry) := do
  let archive ← openAt tree path
  let listed ← archive.records.mapM fun record => do
    let _ ← liftFault (archive.dataOffset record)
    if Record.isDirectoryName record.name then return none
    else
      return some (Entry.ofRecord path record.name record.checksum record.size
        record.stamp.unixSeconds)
  return listed.filterMap id

/-- The contents of the last record with a name. -/
def contents (tree : Tree) (path name : String) : Except Failure (List UInt8) := do
  let archive ← openAt tree path
  let (record, stored) ← inContext (.entryNotFound name path) (liftFault do
    let record ← archive.find name
    return (record, ← archive.stored record))
  inContext (.readRecord name path) (liftData (record.contents stored))

/-- The class files of the archive with their contents, in the order of the directory. Every record
has to be readable up to its data, and every class file's data too. -/
def classFiles (tree : Tree) (path : String) : Except Failure (List (String × List UInt8)) := do
  let archive ← openAt tree path
  let read ← archive.records.mapM fun record => do
    let stored ← liftFault (archive.stored record)
    if Record.isDirectoryName record.name || (Entry.dropClassSuffix? record.name).isNone then
      return none
    else
      let contents ← inContext (.readRecord record.name path) (liftData (record.contents stored))
      return some (record.name, contents)
  return read.filterMap id

/-- The classes of the archive by the names of its records, in the order of the directory. -/
def classNames (tree : Tree) (path : String) : Except Failure (List String) := do
  let archive ← openAt tree path
  let names ← archive.records.mapM fun record => do
    let _ ← liftFault (archive.dataOffset record)
    return Entry.classNameOf? record.name
  return names.filterMap id

/-- The manifest of the archive, if it has a record for one. Bytes that are no text are replaced. -/
def manifest (tree : Tree) (path : String) : Except Failure (Option Manifest) := do
  let archive ← openAt tree path
  match archive.find? Manifest.recordName with
  | none => return none
  | some record =>
    let stored ← inContext (.openManifest path) (liftFault (archive.stored record))
    let contents ← liftData (record.contents stored)
    return some (Manifest.parse (Text.Utf8.decodeLossy contents))

end JarAudit.Jar
