/-!
# Access flags

The names of the bits of an access word. A class and a member give names to different bits, and
write them differently: a class in capitals with commas, a member as the words of its declaration.
-/

namespace JarAudit.ClassFile.Access

/-- The bits that have a name in a class, in the order in which they are written. -/
def classBits : List (UInt16 × String) :=
  [(0x0001, "Public"), (0x0010, "Final"), (0x0020, "Super"), (0x0200, "Interface"),
    (0x0400, "Abstract")]

/-- The bits that have a name in a member, in the order in which they are written. -/
def memberBits : List (UInt16 × String) :=
  [(0x0001, "public"), (0x0002, "private"), (0x0004, "protected"), (0x0008, "static"),
    (0x0010, "final"), (0x0020, "synchronized"), (0x0040, "volatile"), (0x0080, "transient"),
    (0x0100, "native"), (0x0200, "interface"), (0x0400, "abstract"), (0x0800, "strict")]

/-- The names of the bits that are set. -/
def names (bits : List (UInt16 × String)) (flags : UInt16) : List String :=
  (bits.filter fun (bit, _) => flags &&& bit != 0).map (·.2)

/-- The label of a class; a word without any bit, and one whose bits have no name, have labels of
their own. -/
def classLabel (flags : UInt16) : String :=
  if flags = 0 then "(None)"
  else
    match names classBits flags with
    | [] => "(Unknown)"
    | labels => ", ".intercalate labels

/-- The label of a member. -/
def memberLabel (flags : UInt16) : String := " ".intercalate (names memberBits flags)

end JarAudit.ClassFile.Access
