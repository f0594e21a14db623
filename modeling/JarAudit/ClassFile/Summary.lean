import JarAudit.ClassFile.Outline

/-!
# The summary of a class

An outline with its indices resolved to texts: what a reader of a report wants to know.
-/

namespace JarAudit.ClassFile

/-- A field or a method by name. -/
structure MemberSummary where
  name : Option String
  descriptor : Option String
  accessFlags : UInt16
  access : String
  deriving DecidableEq, Repr

/-- What is said of a class. -/
structure Summary where
  valid : Bool
  className : Option String
  parentName : Option String
  accessFlags : UInt16
  access : String
  majorVersion : UInt16
  minorVersion : UInt16
  platformVersion : Int
  interfaces : List String
  fields : List MemberSummary
  methods : List MemberSummary
  integers : List Int32
  /-- Bit patterns. -/
  floats : List UInt32
  longs : List Int64
  /-- Bit patterns. -/
  doubles : List UInt64
  /-- The classes referred to, each once, in order of their characters. -/
  classes : List String
  strings : List String
  fieldRefs : List String
  methodRefs : List String
  interfaceMethodRefs : List String
  deriving DecidableEq, Repr

namespace Outline

/-- A member by name. -/
def describeMember (outline : Outline) (member : Member) : MemberSummary :=
  { name := outline.pool.utf8 member.name
    descriptor := outline.pool.utf8 member.descriptor
    accessFlags := member.accessFlags
    access := Access.memberLabel member.accessFlags }

/-- A member that is referred to: class, name and type, or the indices when they lead nowhere. -/
def describeRef (outline : Outline) (ref : MemberRef) : String :=
  match outline.pool.member ref with
  | some (owner, name, descriptor) => s!"{owner}.{name}: {descriptor}"
  | none => s!"<unresolved #{ref.classIndex.toNat}.#{ref.nameAndType.toNat}>"

/-- The summary of an outline. -/
def summary (outline : Outline) : Summary :=
  { valid := outline.valid
    className := outline.className
    parentName := outline.parentName
    accessFlags := outline.accessFlags
    access := Access.classLabel outline.accessFlags
    majorVersion := outline.majorVersion
    minorVersion := outline.minorVersion
    platformVersion := outline.platformVersion
    interfaces := outline.interfaces
    fields := outline.fields.toList.map outline.describeMember
    methods := outline.methods.toList.map outline.describeMember
    integers := outline.integers
    floats := outline.floats
    longs := outline.longs
    doubles := outline.doubles
    classes := outline.referencedNames.toList
    strings := outline.stringRefs.filterMap outline.pool.utf8
    fieldRefs := outline.fieldRefs.map outline.describeRef
    methodRefs := outline.methodRefs.map outline.describeRef
    interfaceMethodRefs := outline.interfaceMethodRefs.map outline.describeRef }

end Outline

end JarAudit.ClassFile
