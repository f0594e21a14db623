import JarAudit.NameSet

/-!
# Entries

An entry is one file that may hold a class: a record of an archive, or a file that stands alone. The
name of a record doubles as the name of the class in it, with `/` between the packages.
-/

namespace JarAudit

/-- One file that may hold a class. -/
structure Entry where
  fileName : String
  directory : String
  fullPath : String
  /-- The CRC-32 of the contents. -/
  checksum : Nat
  /-- Seconds since the start of 1970. -/
  lastModified : Nat
  size : Nat
  /-- The archive that holds the entry; empty for a file that stands alone. -/
  owningArchive : String
  /-- Another entry has the same path. -/
  isNameMatch : Bool := false
  /-- Another entry has the same path and the same checksum. -/
  isChecksumMatch : Bool := false
  deriving DecidableEq, Repr

namespace Entry

/-- The ending of the names of class files. -/
def classSuffix : String := ".class"

/-- A name without the ending of class files, if it has it. -/
def dropClassSuffix? (name : String) : Option String :=
  (classSuffix.toList.isSuffixOf? name.toList).map String.ofList

/-- A name with `/` in place of every `\`. -/
def forwardSlashes (name : String) : String :=
  String.ofList (name.toList.map fun char => if char = '\\' then '/' else char)

/-- The class that an entry of this name holds, if its name is that of a class file. -/
def classNameOf? (name : String) : Option String := (dropClassSuffix? name).map forwardSlashes

/-- The name of the entry that is expected to hold a class; dots stand for `/`. -/
def pathOfClass (name : String) : String :=
  if classSuffix.toList.isSuffixOf name.toList then name
  else String.ofList (name.toList.map fun char => if char = '.' then '/' else char) ++ classSuffix

/-- Cuts a name at its last separator, which may be `/` or `\`: the directory and the file. -/
def split (name : String) : String × String :=
  let isSeparator (char : Char) : Bool := char == '/' || char == '\\'
  let backwards := name.toList.reverse
  let file := backwards.takeWhile (!isSeparator ·)
  let directory := (backwards.dropWhile (!isSeparator ·)).drop 1
  (String.ofList directory.reverse, String.ofList file.reverse)

/-- The entry of a record of an archive. -/
def ofRecord (archive name : String) (checksum size lastModified : Nat) : Entry :=
  let (directory, file) := split name
  { fileName := file, directory, fullPath := name, checksum, lastModified, size,
    owningArchive := archive }

/-- The entry is a file of its own. -/
def isStandalone (entry : Entry) : Bool := entry.owningArchive.isEmpty

/-- The entry is named like a class file. -/
def isClass (entry : Entry) : Bool := classSuffix.toList.isSuffixOf entry.fullPath.toList

/-- The class that a record holds, by its name. A file that stands alone does not tell. -/
def className? (entry : Entry) : Option String :=
  if entry.isStandalone then none else classNameOf? entry.fullPath

/-- The classes that entries provide. -/
def provided (entries : List Entry) : NameSet := NameSet.ofList (entries.filterMap className?)

end Entry

end JarAudit
