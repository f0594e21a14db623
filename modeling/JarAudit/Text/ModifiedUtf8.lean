import JarAudit.Text.Utf16

/-!
# Modified UTF-8

The strings of a compiled class are sequences of 16-bit units, each written in a group of one to
three bytes: a unit below 128 in one byte, a unit below 2048 in two, any other in three. The unit
zero is written in two bytes, and the two units of a surrogate pair are written one after the other.
`decode` reads groups and is lenient in one respect: a group that is longer than it needs to be is
accepted. Every other departure is reported with the offset of the first byte that cannot stand.
-/

namespace JarAudit.Text.ModifiedUtf8

/-- Why a byte cannot stand where it is. -/
inductive Flaw where
  /-- Inside a group, a byte that does not continue it. -/
  | expectedContinuation
  /-- The text ends inside a group. -/
  | truncatedSequence
  /-- No group begins with this byte. -/
  | invalidLeadingByte
  deriving DecidableEq, Repr

/-- The first offset at which the text cannot be read, and why. -/
structure Malformed where
  offset : Nat
  flaw : Flaw
  deriving DecidableEq, Repr

/-- The wording of a flaw. -/
def Flaw.message : Flaw → String
  | .expectedContinuation => "expected continuation byte"
  | .truncatedSequence => "truncated multi-byte sequence"
  | .invalidLeadingByte => "invalid leading byte"

/-- A byte `10xxxxxx`, which continues a group. -/
def isContinuation (byte : UInt8) : Bool := byte &&& 0xC0 == 0x80

/-- The unit of a group of two bytes. -/
def unit2 (first second : UInt8) : UInt16 :=
  ((first &&& 0x1F).toUInt16 <<< 6) ||| (second &&& 0x3F).toUInt16

/-- The unit of a group of three bytes. -/
def unit3 (first second third : UInt8) : UInt16 :=
  ((first &&& 0x0F).toUInt16 <<< 12) ||| ((second &&& 0x3F).toUInt16 <<< 6) |||
    (third &&& 0x3F).toUInt16

/-- Reads the groups that start at `offset`, behind the units already `read`, which are held in
reverse. -/
def unitsFrom (offset : Nat) (read : List UInt16) : List UInt8 → Except Malformed (List UInt16)
  | [] => .ok read.reverse
  | first :: rest =>
    if first < 0x80 then unitsFrom (offset + 1) (first.toUInt16 :: read) rest
    else if 0xC0 ≤ first && first < 0xE0 then
      match rest with
      | [] => .error ⟨offset + 1, .truncatedSequence⟩
      | second :: rest =>
        if isContinuation second then unitsFrom (offset + 2) (unit2 first second :: read) rest
        else .error ⟨offset + 1, .expectedContinuation⟩
    else if 0xE0 ≤ first && first < 0xF0 then
      match rest with
      | [] => .error ⟨offset + 1, .truncatedSequence⟩
      | [second] =>
        if isContinuation second then .error ⟨offset + 2, .truncatedSequence⟩
        else .error ⟨offset + 1, .expectedContinuation⟩
      | second :: third :: rest =>
        if !isContinuation second then .error ⟨offset + 1, .expectedContinuation⟩
        else if !isContinuation third then .error ⟨offset + 2, .expectedContinuation⟩
        else unitsFrom (offset + 3) (unit3 first second third :: read) rest
    else .error ⟨offset, .invalidLeadingByte⟩

/-- The units that a byte sequence stands for. -/
def units (bytes : List UInt8) : Except Malformed (List UInt16) := unitsFrom 0 [] bytes

/-- The text that a byte sequence stands for. -/
def decode (bytes : List UInt8) : Except Malformed String := (units bytes).map Utf16.decode

/-- The group that stands for one unit. -/
def group (unit : UInt16) : List UInt8 :=
  let value := unit.toNat
  if 0 < value && value < 0x80 then [UInt8.ofNat value]
  else if value < 0x800 then [UInt8.ofNat (0xC0 + value / 0x40), UInt8.ofNat (0x80 + value % 0x40)]
  else
    [UInt8.ofNat (0xE0 + value / 0x1000), UInt8.ofNat (0x80 + value / 0x40 % 0x40),
      UInt8.ofNat (0x80 + value % 0x40)]

/-- The bytes that stand for a sequence of units. -/
def encodeUnits (units : List UInt16) : List UInt8 := units.flatMap group

/-- The bytes that stand for a text. -/
def encode (text : String) : List UInt8 := encodeUnits (Utf16.encode text)

end JarAudit.Text.ModifiedUtf8
