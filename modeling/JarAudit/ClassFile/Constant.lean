import JarAudit.ClassFile.Reader

/-!
# Constants

The seventeen kinds of constant that a class image may hold. An operand that refers to another
constant is that constant's index. Floating-point values are kept as their bit patterns, so that
every value, not-a-number included, is told apart from every other.
-/

namespace JarAudit.ClassFile

/-- A member of a class, as indices: the class, and the member's name and type. -/
structure MemberRef where
  classIndex : UInt16
  nameAndType : UInt16
  deriving DecidableEq, Repr

/-- The name and the type of a member, as indices of texts. -/
structure NameAndType where
  name : UInt16
  descriptor : UInt16
  deriving DecidableEq, Repr

/-- One constant. -/
inductive Constant where
  | utf8 (text : String)
  | integer (value : Int32)
  | float (bits : UInt32)
  | long (value : Int64)
  | double (bits : UInt64)
  | classRef (name : UInt16)
  | string (text : UInt16)
  | field (member : MemberRef)
  | method (member : MemberRef)
  | interfaceMethod (member : MemberRef)
  | nameAndType (pair : NameAndType)
  | methodHandle (kind : UInt8) (reference : UInt16)
  | methodType (descriptor : UInt16)
  | dynamic (bootstrap nameAndType : UInt16)
  | invokeDynamic (bootstrap nameAndType : UInt16)
  | module (name : UInt16)
  | package (name : UInt16)
  deriving DecidableEq, Repr

namespace Constant

/-- Eight-byte numbers take two indices, every other constant one. -/
def isWide : Constant → Bool
  | long _ | double _ => true
  | _ => false

open Reader

/-- Two indices as a member. -/
def readMember : Reader σ MemberRef := do return ⟨← u2, ← u2⟩

/-- Reads the constant that is to stand at `index`: a tag, then the operands that the tag asks for.
A text that cannot be decoded gives no constant. -/
def read (index : UInt16) : Reader σ (Option Constant) := do
  let offset ← position
  let tag ← u1
  match tag with
  | 1 => return (← Reader.utf8).map utf8
  | 3 => return some (integer (← i4))
  | 4 => return some (float (← u4))
  | 5 => return some (long (← u8).toInt64)
  | 6 => return some (double (← u8))
  | 7 => return some (classRef (← u2))
  | 8 => return some (string (← u2))
  | 9 => return some (field (← readMember))
  | 10 => return some (method (← readMember))
  | 11 => return some (interfaceMethod (← readMember))
  | 12 => return some (nameAndType ⟨← u2, ← u2⟩)
  | 15 => return some (methodHandle (← u1) (← u2))
  | 16 => return some (methodType (← u2))
  | 17 => return some (dynamic (← u2) (← u2))
  | 18 => return some (invokeDynamic (← u2) (← u2))
  | 19 => return some (module (← u2))
  | 20 => return some (package (← u2))
  | _ => fail (.unknownTag tag index offset)

end Constant

/-- Reads constants into the slots from `slot` on, `slots` of them, and hands each one to `keep`
with its index. The slot after a wide constant is its `shadow` and holds nothing. -/
def readConstants (keep : UInt16 → Constant → σ → σ) :
    (slots : Nat) → (slot : UInt16) → (shadow : Bool) → Reader σ Unit
  | 0, _, _ => pure ()
  | slots + 1, slot, true => readConstants keep slots (slot + 1) false
  | slots + 1, slot, false => do
    match ← Constant.read slot with
    | none => readConstants keep slots (slot + 1) false
    | some constant =>
      Reader.note (keep slot constant)
      readConstants keep slots (slot + 1) constant.isWide

end JarAudit.ClassFile
