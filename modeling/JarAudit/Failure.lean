import JarAudit.ClassFile.Fault
import JarAudit.Files.Tree
import JarAudit.Zip.Fault

/-!
# Failures

An operation that fails tells why as a chain of causes: what it was about to do, then what it was
about to do that for, down to the fault itself. A chain is written in one line, outermost cause
first.
-/

namespace JarAudit

open JarAudit.Files

/-- One link of a chain. -/
inductive Cause where
  | openArchive (path : String)
  | mapArchive (path : String)
  | readStructure (path : String)
  | entryNotFound (name archive : String)
  | readRecord (name archive : String)
  | openManifest (archive : String)
  | invalidRoot (path : String)
  | readFile (path : String)
  | readClassFile (path : String)
  | parseEntry (path : String)
  | scanEntry (path : String)
  /-- No class was chosen, and the archive does not name one to start with. -/
  | noMainClass (archive : String)
  | mainClassNotFound (name archive : String)
  /-- A class file that was to be reported on cannot be read as one. -/
  | notAClass
  | imageFault (fault : ClassFile.Fault)
  | systemFault (fault : SystemFault)
  | archiveFault (fault : Zip.Fault)
  | dataFault (fault : Zip.DataFault)
  deriving DecidableEq, Repr

/-- The wording of a cause. -/
def Cause.message : Cause → String
  | openArchive path => "Failed to open archive: " ++ path
  | mapArchive path => "Failed to mmap archive: " ++ path
  | readStructure path => "Failed to read zip structure: " ++ path
  | entryNotFound name archive => "Entry " ++ name ++ " not found in " ++ archive
  | readRecord name archive => "Failed to read " ++ name ++ " from " ++ archive
  | openManifest archive => "Failed to open manifest of " ++ archive
  | invalidRoot path => "The file appears to be invalid: " ++ path
  | readFile path => "Failed to read file: " ++ path
  | readClassFile path => "Failed to read class file: " ++ path
  | parseEntry path => "Failed to parse " ++ path
  | scanEntry path => "Failed to scan " ++ path
  | noMainClass archive => archive ++ " has no Main-Class; choose a class with --entry"
  | mainClassNotFound name archive => "Main-Class " ++ name ++ " not found in " ++ archive
  | notAClass => "not a valid compiled Java class file"
  | imageFault fault => fault.message
  | systemFault fault => fault.message
  | archiveFault fault => fault.message
  | dataFault fault => fault.message

/-- A chain of causes, outermost first. -/
structure Failure where
  outermost : Cause
  deeper : List Cause := []
  deriving DecidableEq, Repr

namespace Failure

/-- The whole chain. -/
def causes (failure : Failure) : List Cause := failure.outermost :: failure.deeper

/-- The chain in one line. -/
def message (failure : Failure) : String := ": ".intercalate (failure.causes.map Cause.message)

/-- A fault of a class image is among the causes. -/
def isClassFile (failure : Failure) : Bool :=
  failure.causes.any fun | .imageFault _ => true | _ => false

/-- A fault of an archive as a failure. The end of the file is told twice: once for the archive,
once for the file. -/
def ofArchive : Zip.Fault → Failure
  | .endOfFile => ⟨.archiveFault .endOfFile, [.archiveFault .endOfFile]⟩
  | fault => ⟨.archiveFault fault, []⟩

/-- Puts a cause in front of the chain. -/
def within (cause : Cause) (failure : Failure) : Failure := ⟨cause, failure.causes⟩

end Failure

/-- A result that failed also fails for an outer cause. -/
def inContext (cause : Cause) (result : Except Failure α) : Except Failure α :=
  result.mapError (Failure.within cause)

end JarAudit
