/-!
# Faults of archives

What can be wrong with the structure of an archive and with the data of one of its records.
-/

namespace JarAudit.Zip

/-- What is wrong with the structure of an archive. -/
inductive Fault where
  /-- The file is shorter than the shortest archive. -/
  | tooShort
  /-- Nothing in the file ends a directory. -/
  | noEndRecord
  /-- The file is too short for the wide end record that is announced. -/
  | noRoomForWideEndRecord
  /-- The wide end record that is announced is not there. -/
  | noWideEndRecord
  /-- The directory cannot lie where it is said to lie. -/
  | misplacedDirectory
  /-- A directory record does not open like one. -/
  | badDirectoryRecord
  /-- A record is encrypted in a way that it does not describe. -/
  | undescribedEncryption
  /-- The description of an encryption has the wrong length. -/
  | cipherLength
  /-- The description of an encryption is that of an unknown vendor. -/
  | cipherVendor
  /-- The description of an encryption has an unknown version. -/
  | cipherVersion
  /-- The description of an encryption gives an unknown strength. -/
  | cipherStrength
  /-- A record's local header lies further back than any offset reaches. -/
  | farHeader
  /-- A record's data does not open with a local header. -/
  | badLocalHeader
  /-- The directory lies on another disk. -/
  | severalDisks
  /-- A record is encrypted. -/
  | encrypted
  /-- A record's encryption is described, and no password is at hand. -/
  | noPassword
  /-- A record is compressed in an unknown way. -/
  | unknownMethod
  /-- The file ends where more is needed. -/
  | endOfFile
  /-- No record has the name. -/
  | noSuchRecord
  deriving DecidableEq, Repr

/-- The wording of the end of a file. -/
def endOfFileMessage : String := "failed to fill whole buffer"

/-- The wording of a fault. -/
def Fault.message : Fault → String
  | tooShort => "invalid Zip archive: Invalid zip header"
  | noEndRecord => "invalid Zip archive: Could not find central directory end"
  | noRoomForWideEndRecord =>
    "invalid Zip archive: File cannot contain ZIP64 central directory end"
  | noWideEndRecord => "invalid Zip archive: Could not find ZIP64 central directory end"
  | misplacedDirectory => "invalid Zip archive: Invalid central directory size or offset"
  | badDirectoryRecord => "invalid Zip archive: Invalid Central Directory header"
  | undescribedEncryption => "invalid Zip archive: AES encryption without AES extra data field"
  | cipherLength =>
    "unsupported Zip archive: AES extra data field has an unsupported length"
  | cipherVendor => "invalid Zip archive: Invalid AES vendor"
  | cipherVersion => "invalid Zip archive: Invalid AES vendor version"
  | cipherStrength => "invalid Zip archive: Invalid AES encryption strength"
  | farHeader => "invalid Zip archive: Archive header is too large"
  | badLocalHeader => "invalid Zip archive: Invalid local file header"
  | severalDisks =>
    "unsupported Zip archive: Support for multi-disk files is not implemented"
  | encrypted => "unsupported Zip archive: Password required to decrypt file"
  | noPassword => "invalid password for file in archive"
  | unknownMethod => "unsupported Zip archive: Compression method not supported"
  | endOfFile => endOfFileMessage
  | noSuchRecord => "specified file not found in archive"

/-- What is wrong with the data of a record. -/
inductive DataFault where
  /-- The compressed data means nothing. -/
  | corrupt
  /-- The compressed data ends too early. -/
  | incomplete
  /-- The data does not have the checksum of the record. -/
  | checksum
  deriving DecidableEq, Repr

/-- The wording of a fault of data. -/
def DataFault.message : DataFault → String
  | corrupt => "corrupt deflate stream"
  | incomplete => "incomplete deflate stream"
  | checksum => "Invalid checksum"

end JarAudit.Zip
