import JarAudit.Zip.Fault

/-!
# Extra fields

A record of a directory may have extra fields, one behind the other. Each has a kind and a length of
two bytes each, and then so many bytes. Two kinds count: one gives numbers in eight bytes that do not
fit into the four that the record has for them (ZIP64), the other tells how the data is encrypted
(AES). Fields of other kinds are passed over. Where the fields end too early the reading ends as
well, and what was read before counts.
-/

namespace JarAudit.Zip

/-- The value of bytes as one number, the least significant byte first. -/
def littleEndian (bytes : List UInt8) : Nat :=
  bytes.foldr (fun byte value => byte.toNat + 256 * value) 0

/-- What the directory tells of the data of a record, as far as extra fields can change it. -/
structure Details where
  method : Nat
  compressedSize : Nat
  size : Nat
  /-- Where the local header lies. -/
  headerOffset : Nat
  /-- It is told how the data is encrypted. -/
  tellsCipher : Bool := false
  deriving DecidableEq, Repr

/-- The greatest number of four bytes, which says that the number itself does not fit into them. -/
def saturated : Nat := 0xFFFFFFFF

/-- A number, and how many of the bytes behind it are its own: eight if it did not fit, else none. -/
def widen (number : Nat) (bytes : List UInt8) : Option (Nat × Nat) :=
  if number ≠ saturated then some (number, 0)
  else if (bytes.take 8).length < 8 then none
  else some (littleEndian (bytes.take 8), 8)

namespace Details

/-- The numbers that did not fit, in the order in which they stand, and how many bytes they take up.
Those in front of one that is cut short count. -/
def widen (details : Details) (content : List UInt8) : Details × Option Nat :=
  match Zip.widen details.size content with
  | none => (details, none)
  | some (size, first) =>
    match Zip.widen details.compressedSize (content.drop first) with
    | none => ({ details with size }, none)
    | some (compressedSize, second) =>
      match Zip.widen details.headerOffset (content.drop (first + second)) with
      | none => ({ details with size, compressedSize }, none)
      | some (headerOffset, third) =>
        ({ details with size, compressedSize, headerOffset }, some (first + second + third))

/-- The length of a field that tells how the data is encrypted. -/
def cipherLength : Nat := 7

/-- How the data is encrypted: a version, a vendor, a strength, and the method by which the data was
compressed before. Nothing is told when the field is cut short. -/
def tellCipher (details : Details) (content : List UInt8) : Except Fault (Option Details) :=
  match content with
  | version :: version' :: vendor :: vendor' :: strength :: method :: method' :: _ =>
    if littleEndian [vendor, vendor'] ≠ 0x4541 then .error .cipherVendor
    else if littleEndian [version, version'] ∉ [1, 2] then .error .cipherVersion
    else if strength ∉ [1, 2, 3] then .error .cipherStrength
    else .ok (some
      { details with method := littleEndian [method, method'], tellsCipher := true })
  | _ => .ok none

/-- The kind of the fields with numbers that did not fit. -/
def wideKind : Nat := 0x0001

/-- The kind of the fields that tell how the data is encrypted. -/
def cipherKind : Nat := 0x9901

/-- Reads a field of a kind and length from its content on. Answers how many bytes the field takes up
there, or nothing if it is cut short: all that it was read from, and at least its length. A field on
encryption takes up as much again as was read of it. -/
def addField (details : Details) (kind length : Nat) (content : List UInt8) :
    Except Fault (Details × Option Nat) :=
  if kind = wideKind then
    let (details, taken) := details.widen content
    .ok (details, taken.map (max length))
  else if kind = cipherKind then
    if length ≠ cipherLength then .error .cipherLength
    else do
      match ← details.tellCipher content with
      | some details => return (details, some (cipherLength + length))
      | none => return (details, none)
  else .ok (details, some length)

/-- Reads the fields in these bytes, behind the first `skipped`. -/
def addFields (details : Details) (skipped : Nat) : List UInt8 → Except Fault Details
  | [] => .ok details
  | first :: rest =>
    match skipped, rest with
    | skipped + 1, rest => addFields details skipped rest
    | 0, kind :: length :: length' :: content => do
      match ← details.addField (littleEndian [first, kind]) (littleEndian [length, length'])
          content with
      | (details, some taken) => addFields details taken content
      | (details, none) => return details
    | 0, _ => .ok details

end Details

end JarAudit.Zip
