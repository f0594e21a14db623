import Std.Data.TreeMap
import Std.Data.TreeSet
import JarAudit.ClassFile.Outline
import JarAudit.Reference.TypeText

/-!
# The classes that a class image refers to

Only the constant pool is read. The names come from class constants; before format 50 the compiler
left some classes in descriptors alone, so there the descriptors of names and types are searched
too. A name that is found in both ways is listed twice.
-/

namespace JarAudit.Reference

open JarAudit.ClassFile

/-- The first major version whose descriptors are not searched. -/
def firstPlainMajor : UInt16 := 50

/-- What a scan keeps of the constants: the texts, and which of them are names of classes and which
are descriptors. -/
structure Findings where
  texts : Std.TreeMap UInt16 String compare := ∅
  classNames : Std.TreeSet UInt16 compare := ∅
  descriptors : Std.TreeSet UInt16 compare := ∅

namespace Findings

/-- Takes note of a constant; names and types only when descriptors are searched. -/
def add (searchDescriptors : Bool) (index : UInt16) (constant : Constant) (findings : Findings) :
    Findings :=
  match constant with
  | .utf8 text => { findings with texts := findings.texts.insert index text }
  | .classRef name => { findings with classNames := findings.classNames.insert name }
  | .nameAndType pair =>
    if searchDescriptors then
      { findings with descriptors := findings.descriptors.insert pair.descriptor }
    else findings
  | _ => findings

/-- The classes found: those of class constants in order of their names' indices, then those of
descriptors in order of the descriptors' indices. -/
def names (findings : Findings) : List String :=
  let direct := findings.classNames.toList.filterMap fun index => do
    let text ← findings.texts[index]?
    let name ← cleanName text.toList
    return String.ofList name
  let mentioned := findings.descriptors.toList.flatMap fun index =>
    match findings.texts[index]? with
    | some text => (descriptorNames text.toList).map String.ofList
    | none => []
  direct ++ mentioned

end Findings

open Reader

/-- Takes note of the constants at `index` and behind it, as long as the index is below `count`. The
index that a wide constant takes up besides its own is passed over. -/
def scanConstants (searchDescriptors : Bool) (count index : Nat) : Reader Findings Unit :=
  if index < count then do
    match ← Constant.read (UInt16.ofNat index) with
    | none => scanConstants searchDescriptors count (index + 1)
    | some constant =>
      note (Findings.add searchDescriptors (UInt16.ofNat index) constant)
      scanConstants searchDescriptors count (index + 1 + constant.isWide.toNat)
  else pure ()
termination_by count - index

/-- Reads a class image up to the end of its constants and takes note of them. -/
def scan : Reader Findings Unit := do
  readMagic
  let _minor ← u2
  let major ← u2
  let count ← u2
  scanConstants (major < firstPlainMajor) count.toNat 1

/-- The classes that a class image refers to, repeats included. -/
def references (image : List UInt8) : Except Fault (List String) :=
  match scan (Cursor.front image, {}) with
  | .ok () (_, findings) => .ok findings.names
  | .error fault _ => .error fault

end JarAudit.Reference
