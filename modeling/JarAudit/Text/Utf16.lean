/-!
# Text as 16-bit units

A character above U+FFFF is written as a pair of surrogate units, every other character as one unit.
Reading units gives a character for each pair and each plain unit; a surrogate without its partner
stands for nothing and becomes the replacement character.
-/

namespace JarAudit.Text.Utf16

/-- The replacement character U+FFFD. -/
def replacement : Char := '\ufffd'

/-- A unit that opens a surrogate pair. -/
def isHigh (unit : UInt16) : Bool := 0xD800 ≤ unit && unit < 0xDC00

/-- A unit that closes a surrogate pair. -/
def isLow (unit : UInt16) : Bool := 0xDC00 ≤ unit && unit < 0xE000

/-- The character of a surrogate pair: ten bits from each unit, above U+FFFF. -/
def pair (high low : UInt16) : Char :=
  Char.ofNat (0x10000 + (high.toNat - 0xD800) * 0x400 + (low.toNat - 0xDC00))

/-- Reads units behind the characters already `read`, which are held in reverse. -/
def decodeOnto (read : List Char) : List UInt16 → List Char
  | [] => read.reverse
  | [unit] =>
    let char := if isHigh unit || isLow unit then replacement else Char.ofNat unit.toNat
    (char :: read).reverse
  | unit :: next :: rest =>
    if isHigh unit then
      if isLow next then decodeOnto (pair unit next :: read) rest
      else decodeOnto (replacement :: read) (next :: rest)
    else if isLow unit then decodeOnto (replacement :: read) (next :: rest)
    else decodeOnto (Char.ofNat unit.toNat :: read) (next :: rest)

/-- The text that a sequence of units stands for. -/
def decode (units : List UInt16) : String := String.ofList (decodeOnto [] units)

/-- The units of one character. -/
def unitsOf (char : Char) : List UInt16 :=
  if char.toNat < 0x10000 then [UInt16.ofNat char.toNat]
  else
    let above := char.toNat - 0x10000
    [UInt16.ofNat (0xD800 + above / 0x400), UInt16.ofNat (0xDC00 + above % 0x400)]

/-- The units of a text. -/
def encode (text : String) : List UInt16 := text.toList.flatMap unitsOf

end JarAudit.Text.Utf16
