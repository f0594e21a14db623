import JarAudit.NameSet
import JarAudit.ClassFile.Access
import JarAudit.ClassFile.Pool

/-!
# The outline of a class

What a class image says about its class short of code: versions, flags, names, members and
constants. Reading fills an outline from the front; `parse` gives the outline as far as it was
filled together with the fault that stopped it, if one did. Bytes after the image are not looked at.
-/

namespace JarAudit.ClassFile

/-- A field or a method. -/
structure Member where
  accessFlags : UInt16
  name : UInt16
  descriptor : UInt16
  deriving DecidableEq, Repr

/-- What is known of a class. What was not reached is zero or empty. -/
structure Outline where
  /-- The image opens with the mark of a class image. -/
  valid : Bool := false
  minorVersion : UInt16 := 0
  majorVersion : UInt16 := 0
  accessFlags : UInt16 := 0
  thisClass : UInt16 := 0
  superClass : UInt16 := 0
  interfaceIndices : Array UInt16 := #[]
  fields : Array Member := #[]
  methods : Array Member := #[]
  pool : Pool := ∅

namespace Outline

/-- The four bytes with which a class image opens. -/
def magic : UInt32 := 0xCAFEBABE

/-- The class from which all others descend; it alone has no parent index. -/
def rootClass : String := "java/lang/Object"

/-- The platform version that goes with the major version. -/
def platformVersion (outline : Outline) : Int := (outline.majorVersion.toNat : Int) - 44

/-- The versions as text. -/
def versionText (outline : Outline) : String :=
  s!"{outline.majorVersion.toNat}.{outline.minorVersion.toNat}  (Java {outline.platformVersion})"

/-- The name that the class gives itself. -/
def className (outline : Outline) : Option String := outline.pool.className outline.thisClass

/-- The name of the parent; a class without parent index descends from the root class. -/
def parentName (outline : Outline) : Option String :=
  if outline.superClass = 0 then some rootClass else outline.pool.className outline.superClass

/-- The names of the interfaces, as far as they can be resolved. -/
def interfaces (outline : Outline) : List String :=
  outline.interfaceIndices.toList.filterMap outline.pool.className

/-- The whole numbers of four bytes among the constants. -/
def integers (outline : Outline) : List Int32 :=
  outline.pool.collect fun | .integer value => some value | _ => none

/-- The bit patterns of the floating-point numbers of four bytes among the constants. -/
def floats (outline : Outline) : List UInt32 :=
  outline.pool.collect fun | .float bits => some bits | _ => none

/-- The whole numbers of eight bytes among the constants. -/
def longs (outline : Outline) : List Int64 :=
  outline.pool.collect fun | .long value => some value | _ => none

/-- The bit patterns of the floating-point numbers of eight bytes among the constants. -/
def doubles (outline : Outline) : List UInt64 :=
  outline.pool.collect fun | .double bits => some bits | _ => none

/-- The class constants: index and index of the name. -/
def classRefs (outline : Outline) : List (UInt16 × UInt16) :=
  outline.pool.toList.filterMap fun
    | (index, .classRef name) => some (index, name)
    | _ => none

/-- The indices of the texts that are used as strings. -/
def stringRefs (outline : Outline) : List UInt16 :=
  outline.pool.collect fun | .string text => some text | _ => none

/-- The fields that are referred to. -/
def fieldRefs (outline : Outline) : List MemberRef :=
  outline.pool.collect fun | .field member => some member | _ => none

/-- The methods of classes that are referred to. -/
def methodRefs (outline : Outline) : List MemberRef :=
  outline.pool.collect fun | .method member => some member | _ => none

/-- The methods of interfaces that are referred to. -/
def interfaceMethodRefs (outline : Outline) : List MemberRef :=
  outline.pool.collect fun | .interfaceMethod member => some member | _ => none

/-- The names and types among the constants, with their indices. -/
def nameAndTypes (outline : Outline) : List (UInt16 × NameAndType) :=
  outline.pool.toList.filterMap fun
    | (index, .nameAndType pair) => some (index, pair)
    | _ => none

/-- The texts that class constants name. -/
def referencedNames (outline : Outline) : NameSet :=
  NameSet.ofList (outline.classRefs.filterMap fun (_, name) => outline.pool.utf8 name)

end Outline

/-! ### Reading -/

open Reader

/-- Passes over a counted list of attributes. -/
def skipAttributes : Reader σ Unit := do
  let count ← u2
  times count.toNat do
    let _name ← u2
    let length ← u4
    skip length.toNat

/-- Reads a counted list of members. A member is handed to `keep` once its attributes are passed. -/
def readMembers (keep : Member → σ → σ) : Reader σ Unit := do
  let count ← u2
  times count.toNat do
    let member : Member := ⟨← u2, ← u2, ← u2⟩
    skipAttributes
    note (keep member)

/-- Reads the opening mark. -/
def readMagic : Reader σ Unit := do
  let found ← u4
  if found != Outline.magic then fail (.badMagic found)

namespace Outline

/-- Reads a class image up to the end of its constants. -/
def readOpening : Reader Outline Unit := do
  readMagic
  note fun outline => { outline with valid := true }
  let minor ← u2
  note fun outline => { outline with minorVersion := minor }
  let major ← u2
  note fun outline => { outline with majorVersion := major }
  let count ← u2
  readConstants (fun index constant outline =>
    { outline with pool := outline.pool.insert index constant }) (count.toNat - 1) 1 false

/-- Reads what follows the constants of a class image. -/
def readBody : Reader Outline Unit := do
  let flags ← u2
  note fun outline => { outline with accessFlags := flags }
  let own ← u2
  note fun outline => { outline with thisClass := own }
  let parent ← u2
  note fun outline => { outline with superClass := parent }
  let interfaces ← u2
  times interfaces.toNat do
    let index ← u2
    note fun outline => { outline with interfaceIndices := outline.interfaceIndices.push index }
  readMembers fun member outline => { outline with fields := outline.fields.push member }
  readMembers fun member outline => { outline with methods := outline.methods.push member }
  skipAttributes

/-- Reads a class image into an outline. -/
def read : Reader Outline Unit := do
  readOpening
  readBody

end Outline

/-- What a class image gave: its outline, and the fault that stopped the reading. -/
structure Reading where
  outline : Outline
  fault : Option Fault

namespace Reading

/-- The whole image was read. -/
def isComplete (reading : Reading) : Bool := reading.fault.isNone && reading.outline.valid

/-- The outline, unless a fault stopped the reading. -/
def toExcept (reading : Reading) : Except Fault Outline :=
  match reading.fault with
  | some fault => .error fault
  | none => .ok reading.outline

end Reading

/-- Reads a class image. -/
def parse (image : List UInt8) : Reading :=
  match Outline.read (Cursor.front image, {}) with
  | .ok () (_, outline) => ⟨outline, none⟩
  | .error fault (_, outline) => ⟨outline, some fault⟩

end JarAudit.ClassFile
