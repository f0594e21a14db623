import JarAudit.Text.CodePage437
import JarAudit.Text.Utf8
import JarAudit.Zip.DosTime
import JarAudit.Zip.Extra

/-!
# The directory of an archive

An archive ends with a record that tells where its directory lies; the directory has one record for
each file in the archive. The end record is searched from the back, because a comment may follow it.
Data may have been put in front of an archive: the places in it are then all short by the same
amount, which the position of the end record gives away. All numbers are little-endian.

An archive that is too large for the numbers of an end record has a wide end record as well (ZIP64),
which counts instead. A locator right in front of the end record announces it and says where it
opens; it opens there or, when data was put in front of the archive, further on.
-/

namespace JarAudit.Zip

/-! ### Numbers and slices -/

/-- The bytes from `offset` on, `count` of them or as many as there are. -/
def slice (file : ByteArray) (offset count : Nat) : List UInt8 :=
  (List.range' offset (min count (file.size - offset))).map fun place => file[place]?.getD 0

/-- The number in `count` bytes from `offset` on, if they are all there. -/
def number? (file : ByteArray) (offset count : Nat) : Option Nat :=
  if offset + count ≤ file.size then some (littleEndian (slice file offset count)) else none

/-- The number in `count` bytes from `offset` on; it is a fault when the file ends before. -/
def number (file : ByteArray) (offset count : Nat) : Except Fault Nat :=
  match number? file offset count with
  | some value => .ok value
  | none => .error .endOfFile

/-! ### The end record -/

/-- Where the directory lies. -/
structure Extent where
  /-- By how much all places in the archive are short. -/
  shift : Nat
  /-- Where the first directory record opens. -/
  start : Nat
  /-- How many directory records there are. -/
  count : Nat
  deriving DecidableEq, Repr

/-- The offsets lie below this limit. -/
def offsetLimit : Nat := 0x10000000000000000

/-- What the end record tells. -/
structure EndRecord where
  disk : Nat
  directoryDisk : Nat
  /-- How many records the directory has on this disk. -/
  count : Nat
  totalCount : Nat
  directorySize : Nat
  directoryOffset : Nat
  /-- How long the comment is. -/
  comment : Nat
  deriving DecidableEq, Repr

namespace EndRecord

/-- The size of an end record without its comment. -/
def size : Nat := 22

/-- The longest comment. -/
def maxComment : Nat := 0xFFFF

/-- The mark with which an end record opens. -/
def signature : Nat := 0x06054B50

/-- Searches the mark from `place` downwards, at `tries` places. -/
def findFrom (file : ByteArray) : (tries : Nat) → (place : Nat) → Option Nat
  | 0, _ => none
  | tries + 1, place =>
    if number? file place 4 = some signature then some place
    else match place with
      | 0 => none
      | lower + 1 => findFrom file tries lower

/-- Where the last end record opens. -/
def find (file : ByteArray) : Except Fault Nat :=
  if file.size < size then .error .tooShort
  else match findFrom file (maxComment + 1) (file.size - size) with
    | some place => .ok place
    | none => .error .noEndRecord

/-- Reads the end record at a place. Its comment has to lie in the file. -/
def read (file : ByteArray) (place : Nat) : Except Fault EndRecord := do
  let disk ← number file (place + 4) 2
  let directoryDisk ← number file (place + 6) 2
  let count ← number file (place + 8) 2
  let totalCount ← number file (place + 10) 2
  let directorySize ← number file (place + 12) 4
  let directoryOffset ← number file (place + 16) 4
  let comment ← number file (place + 20) 2
  if file.size < place + size + comment then throw .endOfFile
  return { disk, directoryDisk, count, totalCount, directorySize, directoryOffset, comment }

/-- Some number is the greatest of its width, which says that the number itself does not fit. -/
def isSaturated (record : EndRecord) : Bool :=
  [record.disk, record.directoryDisk, record.count, record.totalCount].contains 0xFFFF ||
    [record.directorySize, record.directoryOffset].contains saturated

/-- Where the directory lies by an end record at a place. -/
def extent (record : EndRecord) (place : Nat) : Except Fault Extent :=
  if place < record.directorySize + record.directoryOffset then .error .misplacedDirectory
  else
    let shift := place - record.directorySize - record.directoryOffset
    .ok { shift, start := record.directoryOffset + shift, count := record.count }

end EndRecord

/-! ### The wide end record -/

/-- What the locator of a wide end record tells. -/
structure Locator where
  directoryDisk : Nat
  /-- Where the wide end record opens when nothing was put in front of the archive. -/
  offset : Nat
  deriving DecidableEq, Repr

namespace Locator

/-- The size of a locator. -/
def size : Nat := 20

/-- The mark with which a locator opens. -/
def signature : Nat := 0x07064B50

/-- The locator in front of an end record with a comment of this length, which is taken to end the
file. -/
def find? (file : ByteArray) (comment : Nat) : Option Locator := do
  let behind := size + EndRecord.size + comment
  guard (behind ≤ file.size)
  let place := file.size - behind
  guard ((← number? file place 4) = signature)
  return { directoryDisk := ← number? file (place + 4) 4, offset := ← number? file (place + 8) 8 }

end Locator

/-- What a wide end record tells. -/
structure WideEndRecord where
  disk : Nat
  directoryDisk : Nat
  count : Nat
  directoryOffset : Nat
  deriving DecidableEq, Repr

namespace WideEndRecord

/-- The mark with which a wide end record opens. -/
def signature : Nat := 0x06064B50

/-- How far in front of the end record a wide one opens at least. -/
def leastDistance : Nat := 60

/-- Searches the mark from `place` upwards, at `tries` places. -/
def findFrom (file : ByteArray) : (tries : Nat) → (place : Nat) → Option Nat
  | 0, _ => none
  | tries + 1, place =>
    if number? file place 4 = some signature then some place
    else findFrom file tries (place + 1)

/-- Where the first wide end record opens, from `nominal` on and in front of the end record at
`place`. -/
def find (file : ByteArray) (nominal place : Nat) : Except Fault Nat :=
  if place < leastDistance then .error .noRoomForWideEndRecord
  else match findFrom file (place - leastDistance + 1 - nominal) nominal with
    | some found => .ok found
    | none => .error .noWideEndRecord

/-- Reads the wide end record at a place. -/
def read (file : ByteArray) (place : Nat) : Except Fault WideEndRecord := do
  let disk ← number file (place + 16) 4
  let directoryDisk ← number file (place + 20) 4
  let count ← number file (place + 32) 8
  let directoryOffset ← number file (place + 48) 8
  return { disk, directoryDisk, count, directoryOffset }

/-- Where the directory lies by a wide end record that is found so much behind the place where it is
said to open. -/
def extent (record : WideEndRecord) (shift : Nat) : Except Fault Extent :=
  if record.disk ≠ record.directoryDisk then .error .severalDisks
  else if offsetLimit ≤ record.directoryOffset + shift then .error .misplacedDirectory
  else .ok { shift, start := record.directoryOffset + shift, count := record.count }

end WideEndRecord

/-- Where the directory lies, by the end records of the archive. -/
def Extent.ofFile (file : ByteArray) : Except Fault Extent := do
  let place ← EndRecord.find file
  let ending ← EndRecord.read file place
  if !ending.isSaturated && ending.disk != ending.directoryDisk then throw .severalDisks
  match Locator.find? file ending.comment with
  | none => ending.extent place
  | some locator =>
    if !ending.isSaturated && ending.disk != locator.directoryDisk then throw .severalDisks
    let found ← WideEndRecord.find file locator.offset place
    (← WideEndRecord.read file found).extent (found - locator.offset)

/-! ### Directory records -/

/-- What the directory tells of one file in the archive. -/
structure Record extends Details where
  name : String
  isEncrypted : Bool
  stamp : DosTime
  checksum : Nat
  deriving DecidableEq, Repr

namespace Record

/-- The mark with which a directory record opens. -/
def signature : Nat := 0x02014B50

/-- The size of a directory record without its three texts. -/
def fixedSize : Nat := 46

/-- The method number that says that a record is encrypted and that its real method is told
elsewhere. -/
def encryptedMethod : Nat := 99

/-- A name is that of a directory when it ends in a separator. -/
def isDirectoryName (name : String) : Bool :=
  match name.toList.getLast? with
  | some '/' | some '\\' => true
  | _ => false

/-- Reads the directory record at a place: the record, as its extra fields complete it, and the place
behind it. Places in the archive are shifted by `shift`. Names are in UTF-8 if the record says so,
else in code page 437. -/
def read (file : ByteArray) (shift place : Nat) : Except Fault (Record × Nat) := do
  if (← number file place 4) != signature then throw .badDirectoryRecord
  let flags ← number file (place + 8) 2
  let method ← number file (place + 10) 2
  let time ← number file (place + 12) 2
  let date ← number file (place + 14) 2
  let checksum ← number file (place + 16) 4
  let compressedSize ← number file (place + 20) 4
  let size ← number file (place + 24) 4
  let nameLength ← number file (place + 28) 2
  let extraLength ← number file (place + 30) 2
  let commentLength ← number file (place + 32) 2
  let headerOffset ← number file (place + 42) 4
  let next := place + fixedSize + nameLength + extraLength + commentLength
  if file.size < next then throw .endOfFile
  let noted : Details := { method, compressedSize, size, headerOffset }
  let details ← noted.addFields 0 (slice file (place + fixedSize + nameLength) extraLength)
  if details.method = encryptedMethod && !details.tellsCipher then throw .undescribedEncryption
  if offsetLimit ≤ details.headerOffset + shift then throw .farHeader
  let rawName := slice file (place + fixedSize) nameLength
  let name := if flags.testBit 11 then Text.Utf8.decodeLossy rawName
    else Text.CodePage437.decode rawName
  let record : Record := {
    toDetails := { details with headerOffset := details.headerOffset + shift }
    name, checksum
    isEncrypted := flags.testBit 0
    stamp := ⟨date.toUInt16, time.toUInt16⟩ }
  return (record, next)

/-- Reads so many directory records, one behind the other, behind those already `read`, which are
held in reverse. -/
def readAll (file : ByteArray) (shift : Nat) :
    (count place : Nat) → (read : List Record) → Except Fault (List Record)
  | 0, _, read => .ok read.reverse
  | count + 1, place, read => do
    let (record, next) ← Record.read file shift place
    readAll file shift count next (record :: read)

end Record

end JarAudit.Zip
