import JarAudit.Proofs.ClassFile.Run

/-!
# Layouts

A `Layout` is everything that a class image writes down, with what reading an image passes over: the
payloads of attributes, and the texts that cannot be decoded. `Layout.bytes` writes it. A layout is
well-formed by its type: lists are as short as their counts can say, and the constants fill the
indices below the declared count (`Item.Fill`).
-/

namespace JarAudit.ClassFile

open JarAudit.Text

/-! ### Counted lists -/

/-- A list whose length can be written in two bytes. -/
abbrev Counted (α : Type) := { items : List α // items.length < 2 ^ 16 }

/-- A counted list as it is written: its length, then its items. -/
def Counted.bytes {α : Type} (write : α → List UInt8) (list : Counted α) : List UInt8 :=
  bigEndianBytes 2 list.val.length ++ list.val.flatMap write

/-! ### Constants -/

/-- A constant as it is written. A text is there by its bytes, which need not be decodable. -/
inductive Item where
  | utf8 (payload : List UInt8) (short : payload.length < 2 ^ 16)
  | integer (value : Int32)
  | float (bits : UInt32)
  | long (value : Int64)
  | double (bits : UInt64)
  | classRef (name : UInt16)
  | string (text : UInt16)
  | field (member : MemberRef)
  | method (member : MemberRef)
  | interfaceMethod (member : MemberRef)
  | nameAndType (pair : NameAndType)
  | methodHandle (kind : UInt8) (reference : UInt16)
  | methodType (descriptor : UInt16)
  | dynamic (bootstrap nameAndType : UInt16)
  | invokeDynamic (bootstrap nameAndType : UInt16)
  | module (name : UInt16)
  | package (name : UInt16)

namespace Item

/-- Two indices, one behind the other. -/
def pairBytes (first second : UInt16) : List UInt8 :=
  bigEndianBytes 2 first.toNat ++ bigEndianBytes 2 second.toNat

/-- A constant as it is written: its tag, then its operands. -/
def bytes : Item → List UInt8
  | utf8 payload _ => [1] ++ (bigEndianBytes 2 payload.length ++ payload)
  | integer value => [3] ++ bigEndianBytes 4 value.toUInt32.toNat
  | float bits => [4] ++ bigEndianBytes 4 bits.toNat
  | long value => [5] ++ bigEndianBytes 8 value.toUInt64.toNat
  | double bits => [6] ++ bigEndianBytes 8 bits.toNat
  | classRef name => [7] ++ bigEndianBytes 2 name.toNat
  | string text => [8] ++ bigEndianBytes 2 text.toNat
  | field member => [9] ++ pairBytes member.classIndex member.nameAndType
  | method member => [10] ++ pairBytes member.classIndex member.nameAndType
  | interfaceMethod member => [11] ++ pairBytes member.classIndex member.nameAndType
  | nameAndType pair => [12] ++ pairBytes pair.name pair.descriptor
  | methodHandle kind reference => [15] ++ ([kind] ++ bigEndianBytes 2 reference.toNat)
  | methodType descriptor => [16] ++ bigEndianBytes 2 descriptor.toNat
  | dynamic bootstrap pair => [17] ++ pairBytes bootstrap pair
  | invokeDynamic bootstrap pair => [18] ++ pairBytes bootstrap pair
  | module name => [19] ++ bigEndianBytes 2 name.toNat
  | package name => [20] ++ bigEndianBytes 2 name.toNat

/-- The constant that is written, unless it is a text that cannot be decoded. -/
def constant? : Item → Option Constant
  | utf8 payload _ => (ModifiedUtf8.decode payload).toOption.map .utf8
  | integer value => some (.integer value)
  | float bits => some (.float bits)
  | long value => some (.long value)
  | double bits => some (.double bits)
  | classRef name => some (.classRef name)
  | string text => some (.string text)
  | field member => some (.field member)
  | method member => some (.method member)
  | interfaceMethod member => some (.interfaceMethod member)
  | nameAndType pair => some (.nameAndType pair)
  | methodHandle kind reference => some (.methodHandle kind reference)
  | methodType descriptor => some (.methodType descriptor)
  | dynamic bootstrap pair => some (.dynamic bootstrap pair)
  | invokeDynamic bootstrap pair => some (.invokeDynamic bootstrap pair)
  | module name => some (.module name)
  | package name => some (.package name)

/-- How many indices a constant takes up. -/
def width : Item → Nat
  | long _ | double _ => 2
  | _ => 1

/-- A constant that was read is wide when it takes up two indices. -/
theorem width_of_constant?_eq_some {item : Item} {constant : Constant}
    (h : item.constant? = some constant) : item.width = 1 + constant.isWide.toNat := by
  cases item with
  | utf8 payload short =>
    obtain ⟨text, -, rfl⟩ := Option.map_eq_some_iff.mp h
    rfl
  | _ =>
    obtain rfl := Option.some.inj h
    rfl

/-- A text that cannot be decoded takes up one index. -/
theorem width_of_constant?_eq_none {item : Item} (h : item.constant? = none) : item.width = 1 := by
  cases item with
  | utf8 payload short => rfl
  | _ => cases h

/-- Constants with the indices at which they start, when the first starts at `index`. -/
def placedFrom (index : Nat) : List Item → List (Nat × Item)
  | [] => []
  | item :: rest => (index, item) :: placedFrom (index + item.width) rest

/-- Constants fill the indices from `index` up to `limit`: each starts below the limit, and the index
behind the last one has reached it. -/
def Fill (limit : Nat) : (index : Nat) → List Item → Prop
  | index, [] => limit ≤ index
  | index, item :: rest => index < limit ∧ Fill limit (index + item.width) rest

theorem width_pos (item : Item) : 0 < item.width := by
  cases item <;> exact Nat.zero_lt_succ _

/-- Every constant starts at or behind the place where the first one starts. -/
theorem le_of_mem_placedFrom {index : Nat} {items : List Item} {p : Nat × Item}
    (h : p ∈ placedFrom index items) : index ≤ p.1 := by
  induction items generalizing index with
  | nil => cases h
  | cons item rest ih =>
    rcases List.mem_cons.mp h with rfl | hrest
    · exact Nat.le_refl _
    · have := ih hrest
      omega

end Item

/-! ### Members and attributes -/

/-- An attribute: what it holds is not looked into. -/
structure Attribute where
  name : UInt16
  payload : List UInt8
  short : payload.length < 2 ^ 32

/-- An attribute as it is written. -/
def Attribute.bytes (own : Attribute) : List UInt8 :=
  bigEndianBytes 2 own.name.toNat ++
    (bigEndianBytes 4 own.payload.length ++ own.payload)

/-- A member with its attributes. -/
structure AttributedMember where
  member : Member
  attributes : Counted Attribute

/-- A member with its attributes as it is written. -/
def AttributedMember.bytes (whole : AttributedMember) : List UInt8 :=
  bigEndianBytes 2 whole.member.accessFlags.toNat ++
    (bigEndianBytes 2 whole.member.name.toNat ++
      (bigEndianBytes 2 whole.member.descriptor.toNat ++
        Counted.bytes Attribute.bytes whole.attributes))

/-! ### Whole images -/

/-- Everything that a class image writes down. -/
structure Layout where
  minorVersion : UInt16
  majorVersion : UInt16
  /-- The number that the pool declares; indices stay below it. -/
  poolCount : UInt16
  items : List Item
  fill : Item.Fill poolCount.toNat 1 items
  accessFlags : UInt16
  thisClass : UInt16
  superClass : UInt16
  interfaces : Counted UInt16
  fields : Counted AttributedMember
  methods : Counted AttributedMember
  attributes : Counted Attribute

namespace Layout

/-- The first part of an image: the opening mark, the versions and the constants. -/
def openingBytes (minor major poolCount : UInt16) (items : List Item) : List UInt8 :=
  bigEndianBytes 4 Outline.magic.toNat ++
    (bigEndianBytes 2 minor.toNat ++
      (bigEndianBytes 2 major.toNat ++
        (bigEndianBytes 2 poolCount.toNat ++ items.flatMap Item.bytes)))

/-- The second part of an image: what follows the constants. -/
def bodyBytes (flags own parent : UInt16) (interfaces : Counted UInt16)
    (fields methods : Counted AttributedMember) (attributes : Counted Attribute) : List UInt8 :=
  bigEndianBytes 2 flags.toNat ++
    (bigEndianBytes 2 own.toNat ++
      (bigEndianBytes 2 parent.toNat ++
        (Counted.bytes (fun index => bigEndianBytes 2 index.toNat) interfaces ++
          (Counted.bytes AttributedMember.bytes fields ++
            (Counted.bytes AttributedMember.bytes methods ++
              Counted.bytes Attribute.bytes attributes)))))

/-- A layout as it is written. -/
def bytes (layout : Layout) : List UInt8 :=
  openingBytes layout.minorVersion layout.majorVersion layout.poolCount layout.items ++
    bodyBytes layout.accessFlags layout.thisClass layout.superClass layout.interfaces layout.fields
      layout.methods layout.attributes

/-- The constants with the indices at which they start. -/
def placed (layout : Layout) : List (Nat × Item) := Item.placedFrom 1 layout.items

/-- An outline says of a class what its layout says, and nothing else. The pool has a constant at an
index exactly when one that can be decoded starts there. -/
structure Describes (layout : Layout) (outline : Outline) : Prop where
  valid : outline.valid = true
  minorVersion : outline.minorVersion = layout.minorVersion
  majorVersion : outline.majorVersion = layout.majorVersion
  accessFlags : outline.accessFlags = layout.accessFlags
  thisClass : outline.thisClass = layout.thisClass
  superClass : outline.superClass = layout.superClass
  interfaces : outline.interfaceIndices.toList = layout.interfaces.val
  fields : outline.fields.toList = layout.fields.val.map AttributedMember.member
  methods : outline.methods.toList = layout.methods.val.map AttributedMember.member
  pool : ∀ index constant, outline.pool.get? index = some constant ↔
    ∃ item, (index.toNat, item) ∈ layout.placed ∧ item.constant? = some constant

end Layout

end JarAudit.ClassFile
