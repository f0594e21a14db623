import JarAudit.Proofs.ClassFile.RoundTrip
import JarAudit.Proofs.ClassFile.Steady

/-!
# Class images with more bytes behind them

An outline grows while an image is read: numbers are filled in where there was zero, lists are
continued at their end, and constants are put at free indices. `Outline.Extends` is this growth, and
`Outline.read_steady` says that reading an outline carries on in the sense of `Steady`. What is still
to be filled in on the way is kept in two conditions, `Outline.OpenFrom` for the constants and
`Outline.Headless` for the numbers that follow them.
-/

namespace JarAudit.ClassFile

open Reader

/-! ### Growing outlines -/

/-- A number is kept, unless it was zero. -/
def Filled (before after : UInt16) : Prop := after = before ∨ before = 0

theorem Filled.refl (number : UInt16) : Filled number number := .inl rfl

theorem Filled.trans {first second third : UInt16} (h : Filled first second)
    (h' : Filled second third) : Filled first third := by
  rcases h with rfl | h
  · exact h'
  · exact .inr h

/-- All that is known from one outline is known from another. -/
structure Outline.Extends (outline longer : Outline) : Prop where
  valid : outline.valid = true → longer.valid = true
  minorVersion : Filled outline.minorVersion longer.minorVersion
  majorVersion : Filled outline.majorVersion longer.majorVersion
  accessFlags : Filled outline.accessFlags longer.accessFlags
  thisClass : Filled outline.thisClass longer.thisClass
  superClass : Filled outline.superClass longer.superClass
  interfaces : outline.interfaceIndices.toList <+: longer.interfaceIndices.toList
  fields : outline.fields.toList <+: longer.fields.toList
  methods : outline.methods.toList <+: longer.methods.toList
  pool : ∀ index constant, outline.pool.get? index = some constant →
    longer.pool.get? index = some constant

namespace Outline

theorem Extends.refl (outline : Outline) : outline.Extends outline where
  valid h := h
  minorVersion := .refl _
  majorVersion := .refl _
  accessFlags := .refl _
  thisClass := .refl _
  superClass := .refl _
  interfaces := List.prefix_refl _
  fields := List.prefix_refl _
  methods := List.prefix_refl _
  pool _ _ h := h

theorem Extends.trans {first second third : Outline} (h : first.Extends second)
    (h' : second.Extends third) : first.Extends third where
  valid hvalid := h'.valid (h.valid hvalid)
  minorVersion := h.minorVersion.trans h'.minorVersion
  majorVersion := h.majorVersion.trans h'.majorVersion
  accessFlags := h.accessFlags.trans h'.accessFlags
  thisClass := h.thisClass.trans h'.thisClass
  superClass := h.superClass.trans h'.superClass
  interfaces := h.interfaces.trans h'.interfaces
  fields := h.fields.trans h'.fields
  methods := h.methods.trans h'.methods
  pool index constant hconstant := h'.pool index constant (h.pool index constant hconstant)

/-- Outlines grow by what is filled in. -/
def growth : Growth Outline where
  le := Extends
  refl := Extends.refl
  trans := Extends.trans

/-- One outline extends another and has the same versions and constants. -/
structure Continues (outline longer : Outline) : Prop extends outline.Extends longer where
  sameMinor : longer.minorVersion = outline.minorVersion
  sameMajor : longer.majorVersion = outline.majorVersion
  samePool : longer.pool = outline.pool

theorem Continues.refl (outline : Outline) : outline.Continues outline where
  __ := Extends.refl outline
  sameMinor := rfl
  sameMajor := rfl
  samePool := rfl

theorem Continues.trans {first second third : Outline} (h : first.Continues second)
    (h' : second.Continues third) : first.Continues third where
  __ := h.toExtends.trans h'.toExtends
  sameMinor := h'.sameMinor.trans h.sameMinor
  sameMajor := h'.sameMajor.trans h.sameMajor
  samePool := h'.samePool.trans h.samePool

/-- Outlines grow by what follows the constants. -/
def bodyGrowth : Growth Outline where
  le := Continues
  refl := Continues.refl
  trans := Continues.trans

/-- Nothing is filled in of what follows the constants. -/
structure Headless (outline : Outline) : Prop where
  accessFlags : outline.accessFlags = 0
  thisClass : outline.thisClass = 0
  superClass : outline.superClass = 0

/-- There are no constants from an index on, and nothing of what follows them. -/
structure OpenFrom (slot : Nat) (outline : Outline) : Prop extends Headless outline where
  free : ∀ index : UInt16, slot ≤ index.toNat → outline.pool.get? index = none

/-- Nothing is filled in. -/
structure Unread (outline : Outline) : Prop extends OpenFrom 1 outline where
  minorVersion : outline.minorVersion = 0
  majorVersion : outline.majorVersion = 0

end Outline

/-! ### The loops of an image -/

section Loops

variable {σ : Type} {growth : Growth σ} {P : σ → Prop}

/-- Constants are read steadily when `keep` grows the record and moves a condition `P` on the next
index on. The indices must not run over. -/
theorem readConstants_steady {keep : UInt16 → Constant → σ → σ} {P : Nat → σ → Prop}
    (hpass : ∀ slot record, P slot record → P (slot + 1) record)
    (hgrows : ∀ (slot : UInt16) constant record, P slot.toNat record →
      growth.le record (keep slot constant record))
    (hkeep : ∀ (slot : UInt16) constant record, P slot.toNat record →
      P (slot.toNat + 1) (keep slot constant record))
    (slots : Nat) (slot : UInt16) (shadow : Bool) (hslots : slot.toNat + slots < 2 ^ 16) :
    Steady growth (P slot.toNat) (P (slot.toNat + slots))
      (readConstants keep slots slot shadow) := by
  induction slots generalizing slot shadow with
  | zero => exact Steady.pure ()
  | succ slots ih =>
    -- The next slot is still below the limit, so its index does not run over.
    have hnext := toNat_succ_slot hslots
    have hrest := fun shadow => ih (slot + 1) shadow (by omega)
    rw [hnext, Nat.add_right_comm, Nat.add_assoc] at hrest
    cases shadow with
    | true => exact (hrest false).imp (fun record => hpass slot.toNat record) fun _ h => h
    | false =>
      rw [readConstants]
      refine (Steady.of_parallel (Constant.read_parallel slot)).bind fun constant => ?_
      cases constant with
      | none => exact (hrest false).imp (fun record => hpass slot.toNat record) fun _ h => h
      | some constant =>
        refine (Steady.note (hgrows slot constant) (hkeep slot constant)).bind fun _ => ?_
        exact hrest constant.isWide

/-- Members are read steadily when keeping one grows the record and keeps up the condition. -/
theorem readMembers_steady {keep : Member → σ → σ}
    (hgrows : ∀ member record, P record → growth.le record (keep member record))
    (hkeep : ∀ member record, P record → P (keep member record)) :
    Steady growth P P (readMembers keep) := by
  have hu2 : Steady growth P P (u2 : Reader σ UInt16) := .of_parallel u2_parallel
  refine hu2.bind fun count => Steady.times ?_ count.toNat
  refine hu2.bind fun flags => hu2.bind fun name => hu2.bind fun descriptor => ?_
  refine (Steady.of_parallel skipAttributes_parallel).bind fun _ => ?_
  exact Steady.note (hgrows ⟨flags, name, descriptor⟩) (hkeep ⟨flags, name, descriptor⟩)

end Loops

/-! ### The parts of an image -/

namespace Outline

theorem extends_insert {outline : Outline} {index : UInt16} (constant : Constant)
    (hfree : outline.pool.get? index = none) :
    outline.Extends { outline with pool := outline.pool.insert index constant } where
  __ := Extends.refl outline
  pool other kept hkept := by
    have hne : index ≠ other := by
      rintro rfl
      rw [hfree] at hkept
      cases hkept
    rw [Pool.get?_insert, if_neg hne]
    exact hkept

theorem OpenFrom.insert {outline : Outline} {slot : UInt16} (h : outline.OpenFrom slot.toNat)
    (constant : Constant) :
    OpenFrom (slot.toNat + 1) { outline with pool := outline.pool.insert slot constant } where
  __ := h
  free index hindex := by
    have hne : slot ≠ index := by
      rintro rfl
      exact Nat.not_succ_le_self _ hindex
    rw [Pool.get?_insert, if_neg hne]
    exact h.free index (Nat.le_of_succ_le hindex)

/-- The versions are filled in one by one, then the constants. -/
theorem readOpening_steady :
    Steady growth Unread Headless readOpening := by
  refine (Steady.of_parallel readMagic_parallel).bind fun _ => ?_
  -- Each number is noted while it is zero, and from then on the condition does not speak of it.
  have hvalid : Steady growth Unread Unread
      (note fun outline => { outline with valid := true }) :=
    Steady.note (fun outline _ => { Extends.refl outline with valid := fun _ => rfl })
      fun _ h => { h with }
  refine hvalid.bind fun _ => (Steady.of_parallel u2_parallel).bind fun minor => ?_
  have hminor : Steady growth Unread
      (fun outline => OpenFrom 1 outline ∧ outline.majorVersion = 0)
      (note fun outline => { outline with minorVersion := minor }) :=
    Steady.note (fun outline h => { Extends.refl outline with minorVersion := .inr h.minorVersion })
      fun _ h => ⟨{ h with }, h.majorVersion⟩
  refine hminor.bind fun _ => (Steady.of_parallel u2_parallel).bind fun major => ?_
  have hmajor : Steady growth
      (fun outline => OpenFrom 1 outline ∧ outline.majorVersion = 0) (OpenFrom 1)
      (note fun outline => { outline with majorVersion := major }) :=
    Steady.note (fun outline h => { Extends.refl outline with majorVersion := .inr h.2 })
      fun _ h => { h.1 with }
  refine hmajor.bind fun _ => (Steady.of_parallel u2_parallel).bind fun count => ?_
  -- Each constant is put at the first index that is still free.
  have hcount : (1 : UInt16).toNat + (count.toNat - 1) < 2 ^ 16 := slots_lt count
  refine Steady.imp (readConstants_steady ?_ ?_ ?_ _ 1 false hcount) (fun _ h => h)
    fun _ h => h.toHeadless
  · intro slot outline h
    exact { h with free := fun index hindex => h.free index (Nat.le_of_succ_le hindex) }
  · intro slot constant outline h
    exact extends_insert constant (h.free slot (Nat.le_refl _))
  · intro slot constant outline h
    exact h.insert constant

/-- The numbers are filled in one by one; lists only get longer. -/
theorem readBody_steady : Steady bodyGrowth Headless (fun _ => True) readBody := by
  refine (Steady.of_parallel u2_parallel).bind fun flags => ?_
  have hflags : Steady bodyGrowth Headless
      (fun outline => outline.thisClass = 0 ∧ outline.superClass = 0)
      (note fun outline => { outline with accessFlags := flags }) :=
    Steady.note (fun outline h => { Continues.refl outline with accessFlags := .inr h.accessFlags })
      fun _ h => ⟨h.thisClass, h.superClass⟩
  refine hflags.bind fun _ => (Steady.of_parallel u2_parallel).bind fun own => ?_
  have hown : Steady bodyGrowth (fun outline => outline.thisClass = 0 ∧ outline.superClass = 0)
      (fun outline => outline.superClass = 0)
      (note fun outline => { outline with thisClass := own }) :=
    Steady.note (fun outline h => { Continues.refl outline with thisClass := .inr h.1 })
      fun _ h => h.2
  refine hown.bind fun _ => (Steady.of_parallel u2_parallel).bind fun parent => ?_
  have hparent : Steady bodyGrowth (fun outline => outline.superClass = 0) (fun _ => True)
      (note fun outline => { outline with superClass := parent }) :=
    Steady.note (fun outline h => { Continues.refl outline with superClass := .inr h })
      fun _ _ => trivial
  refine hparent.bind fun _ => (Steady.of_parallel u2_parallel).bind fun count => ?_
  have hinterface : Steady bodyGrowth (fun _ => True) (fun _ => True) (do
      let index ← u2
      note fun outline : Outline =>
        { outline with interfaceIndices := outline.interfaceIndices.push index }) := by
    refine (Steady.of_parallel u2_parallel).bind fun index => Steady.note ?_ fun _ _ => trivial
    intro outline _
    refine { Continues.refl outline with interfaces := ?_ }
    rw [Array.toList_push]
    exact List.prefix_append _ _
  refine (hinterface.times count.toNat).bind fun _ => ?_
  refine (readMembers_steady ?_ fun _ _ _ => trivial).bind fun _ => ?_
  · intro member outline _
    refine { Continues.refl outline with fields := ?_ }
    rw [Array.toList_push]
    exact List.prefix_append _ _
  refine (readMembers_steady ?_ fun _ _ _ => trivial).bind fun _ => ?_
  · intro member outline _
    refine { Continues.refl outline with methods := ?_ }
    rw [Array.toList_push]
    exact List.prefix_append _ _
  exact Steady.of_parallel skipAttributes_parallel

theorem openFrom_empty (slot : Nat) : OpenFrom slot {} where
  accessFlags := rfl
  thisClass := rfl
  superClass := rfl
  free index _ := Pool.get?_empty index

theorem unread_empty : Unread {} where
  __ := openFrom_empty 1
  minorVersion := rfl
  majorVersion := rfl

/-- Reading an image from the front carries on when more bytes follow. -/
theorem read_steady : Steady growth Unread (fun _ => True) read :=
  readOpening_steady.bind fun _ => readBody_steady.coarsen Continues.toExtends

/-- How many bytes of an image are read. -/
def consumed (image : List UInt8) : Nat :=
  (final (read (Cursor.front image, {}))).1.position

end Outline

/-! ### Parsing -/

open Outline

variable {image : List UInt8}

theorem parse_outline (image : List UInt8) :
    (parse image).outline = (final (read (Cursor.front image, {}))).2 := by
  rw [parse]
  cases read (Cursor.front image, {}) <;> rfl

/-- More bytes change nothing when an image was parsed to its end or means nothing. -/
theorem parse_append_of_settled (h : ∀ fault ∈ (parse image).fault, fault.isStructural = true)
    (more : List UInt8) : parse (image ++ more) = parse image := by
  rw [parse] at h ⊢
  rw [parse]
  cases hrun : read (Cursor.front image, {}) with
  | ok _ s => rw [read_steady.run_append_of_ok unread_empty hrun]
  | error fault s =>
    rw [hrun] at h
    rw [read_steady.run_append_of_structural unread_empty hrun (h fault rfl)]

/-- Where an image ends too soon, the outline tells what was read until then, and more bytes only
add to it. -/
theorem parse_append_of_truncated {offset needed available : Nat}
    (h : (parse image).fault = some (.truncated offset needed available)) :
    offset + available = image.length ∧ available < needed ∧ ∀ more : List UInt8,
      (more.length < needed - available →
        parse (image ++ more) =
          ⟨(parse image).outline, some (.truncated offset needed (available + more.length))⟩) ∧
      (parse image).outline.Extends (parse (image ++ more)).outline := by
  have houtline := parse_outline image
  rw [parse] at h
  cases hrun : read (Cursor.front image, {}) with
  | ok _ s =>
    rw [hrun] at h
    cases h
  | error fault s =>
    rw [hrun] at h houtline
    obtain rfl := Option.some.inj h
    obtain ⟨hlength, hneeded, hmore⟩ := read_steady.run_append_of_truncated unread_empty hrun
    refine ⟨hlength, hneeded, fun more => ?_⟩
    obtain ⟨hshort, hgrowth⟩ := hmore more
    rw [houtline]
    constructor
    · intro hlt
      rw [parse, hshort hlt]
      rfl
    · rw [parse_outline]
      exact hgrowth

/-- No smaller part of what was read of an image can be parsed. -/
theorem parse_take_of_complete {count : Nat} (h : (parse image).fault = none)
    (hcount : count < consumed image) :
    ∃ offset needed available,
      (parse (image.take count)).fault = some (.truncated offset needed available) := by
  rw [parse] at h
  rw [consumed] at hcount
  cases hrun : read (Cursor.front image, {}) with
  | ok _ s =>
    rw [hrun] at hcount
    obtain ⟨offset, needed, available, s, hshort⟩ :=
      read_steady.run_take_of_ok unread_empty hrun hcount
    rw [parse, hshort]
    exact ⟨offset, needed, available, rfl⟩
  | error fault s =>
    rw [hrun] at h
    cases h

end JarAudit.ClassFile
