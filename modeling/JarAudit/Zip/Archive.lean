import JarAudit.Zip.Crc32
import JarAudit.Zip.Directory
import JarAudit.Zip.Inflate

/-!
# Archives

An archive is a file with its directory. The records are in the order of the directory. Names may be
repeated: each record keeps its own data, and a name stands for the last record that has it. A
record's data lies behind its local header, of which only the mark and the lengths of two texts
count. Opening a record and reading its data fail separately: a damaged record can still be found
and listed.
-/

namespace JarAudit.Zip

/-- A file and its directory. -/
structure Archive where
  file : ByteArray
  records : List Record

namespace Archive

/-- Opens a file as an archive. -/
def ofFile (file : ByteArray) : Except Fault Archive := do
  let extent ← Extent.ofFile file
  return ⟨file, ← Record.readAll file extent.shift extent.count extent.start []⟩

/-- The mark with which a local header opens. -/
def localSignature : Nat := 0x04034B50

/-- The size of a local header without its two texts. -/
def localSize : Nat := 30

/-- Where the data of a record starts. -/
def dataOffset (archive : Archive) (record : Record) : Except Fault Nat := do
  if (← number archive.file record.headerOffset 4) != localSignature then throw .badLocalHeader
  let nameLength ← number archive.file (record.headerOffset + 26) 2
  let extraLength ← number archive.file (record.headerOffset + 28) 2
  return record.headerOffset + localSize + nameLength + extraLength

/-- The data of a record as it is stored, which may be cut short by the end of the file. The record
has to be one whose data can be made sense of. -/
def stored (archive : Archive) (record : Record) : Except Fault (List UInt8) := do
  if record.isEncrypted then throw .encrypted
  let offset ← archive.dataOffset record
  if record.method != 0 && record.method != 8 then throw .unknownMethod
  if record.tellsCipher then throw .noPassword
  return slice archive.file offset record.compressedSize

/-- The last record with a name. -/
def find? (archive : Archive) (name : String) : Option Record :=
  archive.records.reverse.find? (·.name == name)

/-- The last record with a name; it is a fault when there is none. -/
def find (archive : Archive) (name : String) : Except Fault Record :=
  match archive.find? name with
  | some record => .ok record
  | none => .error .noSuchRecord

end Archive

/-- The contents of a record from its stored data: decompressed if need be, and checked. -/
def Record.contents (record : Record) (stored : List UInt8) : Except DataFault (List UInt8) := do
  let contents ← if record.method = 8 then inflate stored else pure stored
  if (crc32 contents).toNat = record.checksum then return contents else throw .checksum

end JarAudit.Zip
