import JarAudit.Text.ModifiedUtf8
import JarAudit.Text.Numeral

/-!
# Faults of a class image

Everything that can stop the reading of a class image. A fault is *structural* when the bytes are
there but mean nothing; it then cannot be mended by supplying more of them.
-/

namespace JarAudit.ClassFile

open JarAudit.Text

/-- What stops the reading of a class image. -/
inductive Fault where
  /-- The first four bytes are not those of a class image. -/
  | badMagic (found : UInt32)
  /-- At `offset`, `needed` bytes were asked for and fewer were `available`. -/
  | truncated (offset needed available : Nat)
  /-- A string whose bytes cannot be decoded; the offset counts from the start of the string. -/
  | malformedString (malformed : ModifiedUtf8.Malformed)
  /-- The constant at `index` opens at `offset` with a tag that no kind of constant has. -/
  | unknownTag (tag : UInt8) (index : UInt16) (offset : Nat)
  deriving DecidableEq, Repr

namespace Fault

/-- The bytes are there but mean nothing. -/
def isStructural : Fault → Bool
  | badMagic _ | unknownTag .. => true
  | truncated .. | malformedString _ => false

/-- The wording of a fault. -/
def message : Fault → String
  | badMagic found =>
    s!"bad magic number 0x{Numeral.hex 8 found.toNat}, not a compiled class file"
  | truncated offset needed available =>
    s!"unexpected end of class data at byte {offset}: needed {needed}, {available} available"
  | malformedString malformed =>
    s!"malformed modified UTF-8 at byte {malformed.offset}: {malformed.flaw.message}"
  | unknownTag tag index offset =>
    s!"unknown constant pool tag {tag.toNat} at pool index {index.toNat} (byte {offset})"

end Fault

end JarAudit.ClassFile
