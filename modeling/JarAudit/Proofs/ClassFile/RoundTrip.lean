import Mathlib.Data.List.Basic
import JarAudit.Proofs.ClassFile.Layout

/-!
# Reading accepts exactly the layouts

`parse` reads back every layout and accepts nothing else: an image can be read to its end exactly
when some layout is written at its front, and the outline then is the one that the layout describes.
Every part of an image has a lemma `…_eq_ok` that says when reading it succeeds; each is an
equivalence, so that both directions of the main statement follow from the same lemmas.
-/

namespace JarAudit.ClassFile

open JarAudit.Text Reader

variable {σ α : Type} {cursor next : Cursor} {record after : σ} {u : Unit}

/-! ### Counted lists -/

/-- A counted list of steps that each pass over the written form of some item. -/
theorem counted_eq_ok {γ : Type} {write : γ → List UInt8} {keep : γ → σ → σ} {step : Reader σ Unit}
    (hstep : ∀ {cursor next : Cursor} {record after : σ} {u : Unit},
      step (cursor, record) = .ok u (next, after) ↔
        ∃ item, cursor.Passes (write item) next ∧ after = keep item record) :
    (do let count ← u2; times count.toNat step : Reader σ Unit) (cursor, record) =
        .ok u (next, after) ↔
      ∃ list : Counted γ, cursor.Passes (Counted.bytes write list) next ∧
        after = list.val.foldl (fun record item => keep item record) record := by
  rw [bind_number_eq_ok u2_eq_ok]
  constructor
  · rintro ⟨count, middle, hcount, htimes⟩
    obtain ⟨items, hlength, hitems, rfl⟩ := (times_eq_ok hstep).mp htimes
    rw [← hlength] at hcount
    exact ⟨⟨items, hlength ▸ count.toNat_lt⟩, hcount.append hitems, rfl⟩
  · rintro ⟨⟨items, hshort⟩, hpasses, rfl⟩
    obtain ⟨middle, hcount, hitems⟩ := Cursor.passes_append.mp hpasses
    have htoNat : (UInt16.ofNat items.length).toNat = items.length :=
      UInt16.toNat_ofNat_of_lt' hshort
    exact ⟨UInt16.ofNat items.length, middle, by rwa [htoNat],
      (times_eq_ok hstep).mpr ⟨items, htoNat.symm, hitems, rfl⟩⟩

/-- A counted list with something behind it. -/
theorem bind_counted_eq_ok {γ β : Type} {write : γ → List UInt8} {keep : γ → σ → σ}
    {step : Reader σ Unit}
    (hstep : ∀ {cursor next : Cursor} {record after : σ} {u : Unit},
      step (cursor, record) = .ok u (next, after) ↔
        ∃ item, cursor.Passes (write item) next ∧ after = keep item record)
    {m : Reader σ β} {b : β} :
    (do let count ← u2; times count.toNat step; m : Reader σ β) (cursor, record) =
        .ok b (next, after) ↔
      ∃ (list : Counted γ) (middle : Cursor), cursor.Passes (Counted.bytes write list) middle ∧
        m (middle, list.val.foldl (fun record item => keep item record) record) =
          .ok b (next, after) := by
  have hassoc : (do let count ← u2; times count.toNat step; m : Reader σ β) =
      (do let count ← u2; times count.toNat step : Reader σ Unit) >>= fun _ => m :=
    (bind_assoc _ _ _).symm
  rw [hassoc, bind_eq_ok]
  constructor
  · rintro ⟨_, ⟨middle, _⟩, hlist, hrest⟩
    obtain ⟨list, hpasses, rfl⟩ := (counted_eq_ok hstep).mp hlist
    exact ⟨list, middle, hpasses, hrest⟩
  · rintro ⟨list, middle, hpasses, hrest⟩
    exact ⟨(), (middle, _), (counted_eq_ok hstep).mpr ⟨list, hpasses, rfl⟩, hrest⟩

/-! ### Constants -/

namespace Constant

theorem pair_eq_ok {g : UInt16 → UInt16 → α} {a : α} :
    (do return g (← u2) (← u2) : Reader σ α) (cursor, record) = .ok a (next, after) ↔
      ∃ first second, cursor.Passes (Item.pairBytes first second) next ∧ g first second = a ∧
        after = record := by
  rw [bind_number_eq_ok u2_eq_ok]
  constructor
  · rintro ⟨first, middle, hfirst, hrest⟩
    obtain ⟨second, hsecond, rfl, rfl⟩ := (map_number_eq_ok u2_eq_ok).mp hrest
    exact ⟨first, second, hfirst.append hsecond, rfl, rfl⟩
  · rintro ⟨first, second, hpasses, rfl, rfl⟩
    obtain ⟨middle, hfirst, hsecond⟩ := Cursor.passes_append.mp hpasses
    exact ⟨first, middle, hfirst, (map_number_eq_ok u2_eq_ok).mpr ⟨second, hsecond, rfl, rfl⟩⟩

theorem readMember_eq_ok {member : MemberRef} :
    readMember (cursor, record) = .ok member (next, after) ↔
      cursor.Passes (Item.pairBytes member.classIndex member.nameAndType) next ∧
        after = record := by
  rw [readMember, pair_eq_ok]
  constructor
  · rintro ⟨owner, pair, hpasses, rfl, rfl⟩
    exact ⟨hpasses, rfl⟩
  · rintro ⟨hpasses, rfl⟩
    exact ⟨member.classIndex, member.nameAndType, hpasses, rfl, rfl⟩

/-- Reading a constant passes over the written form of an item and answers its constant. -/
theorem read_eq_ok {index : UInt16} {constant : Option Constant} :
    read index (cursor, record) = .ok constant (next, after) ↔
      ∃ item : Item, item.constant? = constant ∧ cursor.Passes item.bytes next ∧
        after = record := by
  constructor
  · intro h
    obtain ⟨offset, s, hposition, h⟩ := bind_eq_ok.mp h
    obtain ⟨-, rfl⟩ := position_eq_ok.mp hposition
    obtain ⟨tag, middle, htag, h⟩ := (bind_number_eq_ok u1_eq_ok).mp h
    split at h
    case h_1 =>
      obtain ⟨text, hread, rfl⟩ := bind_pure_eq_ok.mp h
      obtain ⟨payload, hshort, hpasses, rfl, rfl⟩ := utf8_eq_ok.mp hread
      exact ⟨.utf8 payload hshort, rfl, htag.append hpasses, rfl⟩
    case h_2 =>
      obtain ⟨value, hpasses, rfl, rfl⟩ := (map_number_eq_ok i4_eq_ok).mp h
      exact ⟨.integer value, rfl, htag.append hpasses, rfl⟩
    case h_3 =>
      obtain ⟨value, hpasses, rfl, rfl⟩ := (map_number_eq_ok u4_eq_ok).mp h
      exact ⟨.float value, rfl, htag.append hpasses, rfl⟩
    case h_4 =>
      obtain ⟨bits, hpasses, rfl, rfl⟩ := (map_number_eq_ok u8_eq_ok).mp h
      exact ⟨.long bits.toInt64, rfl, htag.append hpasses, rfl⟩
    case h_5 =>
      obtain ⟨value, hpasses, rfl, rfl⟩ := (map_number_eq_ok u8_eq_ok).mp h
      exact ⟨.double value, rfl, htag.append hpasses, rfl⟩
    case h_6 =>
      obtain ⟨value, hpasses, rfl, rfl⟩ := (map_number_eq_ok u2_eq_ok).mp h
      exact ⟨.classRef value, rfl, htag.append hpasses, rfl⟩
    case h_7 =>
      obtain ⟨value, hpasses, rfl, rfl⟩ := (map_number_eq_ok u2_eq_ok).mp h
      exact ⟨.string value, rfl, htag.append hpasses, rfl⟩
    case h_8 =>
      obtain ⟨value, hpasses, rfl, rfl⟩ := (map_number_eq_ok readMember_eq_ok).mp h
      exact ⟨.field value, rfl, htag.append hpasses, rfl⟩
    case h_9 =>
      obtain ⟨value, hpasses, rfl, rfl⟩ := (map_number_eq_ok readMember_eq_ok).mp h
      exact ⟨.method value, rfl, htag.append hpasses, rfl⟩
    case h_10 =>
      obtain ⟨value, hpasses, rfl, rfl⟩ := (map_number_eq_ok readMember_eq_ok).mp h
      exact ⟨.interfaceMethod value, rfl, htag.append hpasses, rfl⟩
    case h_11 =>
      obtain ⟨name, descriptor, hpasses, rfl, rfl⟩ := pair_eq_ok.mp h
      exact ⟨.nameAndType ⟨name, descriptor⟩, rfl, htag.append hpasses, rfl⟩
    case h_12 =>
      obtain ⟨kind, last, hkind, h⟩ := (bind_number_eq_ok u1_eq_ok).mp h
      obtain ⟨value, hpasses, rfl, rfl⟩ := (map_number_eq_ok u2_eq_ok).mp h
      exact ⟨.methodHandle kind value, rfl, htag.append (hkind.append hpasses), rfl⟩
    case h_13 =>
      obtain ⟨value, hpasses, rfl, rfl⟩ := (map_number_eq_ok u2_eq_ok).mp h
      exact ⟨.methodType value, rfl, htag.append hpasses, rfl⟩
    case h_14 =>
      obtain ⟨first, second, hpasses, rfl, rfl⟩ := pair_eq_ok.mp h
      exact ⟨.dynamic first second, rfl, htag.append hpasses, rfl⟩
    case h_15 =>
      obtain ⟨first, second, hpasses, rfl, rfl⟩ := pair_eq_ok.mp h
      exact ⟨.invokeDynamic first second, rfl, htag.append hpasses, rfl⟩
    case h_16 =>
      obtain ⟨value, hpasses, rfl, rfl⟩ := (map_number_eq_ok u2_eq_ok).mp h
      exact ⟨.module value, rfl, htag.append hpasses, rfl⟩
    case h_17 =>
      obtain ⟨value, hpasses, rfl, rfl⟩ := (map_number_eq_ok u2_eq_ok).mp h
      exact ⟨.package value, rfl, htag.append hpasses, rfl⟩
    case h_18 => exact absurd h fail_ne_ok
  · rintro ⟨item, rfl, hitem, rfl⟩
    refine bind_eq_ok.mpr ⟨_, _, position_eq_ok.mpr ⟨rfl, rfl⟩, ?_⟩
    refine (bind_number_eq_ok u1_eq_ok).mpr ?_
    -- Every item is written with its tag in front, which settles the case of the reading.
    cases item <;> obtain ⟨middle, htag, hpasses⟩ := Cursor.passes_append.mp hitem <;>
      refine ⟨_, middle, htag, ?_⟩
    case utf8 payload short =>
      exact bind_pure_eq_ok.mpr ⟨_, utf8_eq_ok.mpr ⟨payload, short, hpasses, rfl, rfl⟩, rfl⟩
    case integer value => exact (map_number_eq_ok i4_eq_ok).mpr ⟨_, hpasses, rfl, rfl⟩
    case float bits => exact (map_number_eq_ok u4_eq_ok).mpr ⟨_, hpasses, rfl, rfl⟩
    case long value =>
      exact (map_number_eq_ok u8_eq_ok).mpr ⟨value.toUInt64, hpasses, rfl, rfl⟩
    case double bits => exact (map_number_eq_ok u8_eq_ok).mpr ⟨_, hpasses, rfl, rfl⟩
    case classRef name => exact (map_number_eq_ok u2_eq_ok).mpr ⟨_, hpasses, rfl, rfl⟩
    case string text => exact (map_number_eq_ok u2_eq_ok).mpr ⟨_, hpasses, rfl, rfl⟩
    case field member => exact (map_number_eq_ok readMember_eq_ok).mpr ⟨_, hpasses, rfl, rfl⟩
    case method member => exact (map_number_eq_ok readMember_eq_ok).mpr ⟨_, hpasses, rfl, rfl⟩
    case interfaceMethod member =>
      exact (map_number_eq_ok readMember_eq_ok).mpr ⟨_, hpasses, rfl, rfl⟩
    case nameAndType pair => exact pair_eq_ok.mpr ⟨pair.name, pair.descriptor, hpasses, rfl, rfl⟩
    case methodHandle kind reference =>
      obtain ⟨last, hkind, hreference⟩ := Cursor.passes_append.mp hpasses
      exact (bind_number_eq_ok u1_eq_ok).mpr
        ⟨kind, last, hkind, (map_number_eq_ok u2_eq_ok).mpr ⟨_, hreference, rfl, rfl⟩⟩
    case methodType descriptor => exact (map_number_eq_ok u2_eq_ok).mpr ⟨_, hpasses, rfl, rfl⟩
    case dynamic bootstrap pair => exact pair_eq_ok.mpr ⟨bootstrap, pair, hpasses, rfl, rfl⟩
    case invokeDynamic bootstrap pair => exact pair_eq_ok.mpr ⟨bootstrap, pair, hpasses, rfl, rfl⟩
    case module name => exact (map_number_eq_ok u2_eq_ok).mpr ⟨_, hpasses, rfl, rfl⟩
    case package name => exact (map_number_eq_ok u2_eq_ok).mpr ⟨_, hpasses, rfl, rfl⟩

end Constant

/-- What taking note of constants at their indices makes of a record; a text that cannot be decoded
leaves no trace. -/
def keepPlaced (keep : UInt16 → Constant → σ → σ) (placed : List (Nat × Item)) (record : σ) : σ :=
  placed.foldl (fun record (index, item) =>
    match item.constant? with
    | some constant => keep (UInt16.ofNat index) constant record
    | none => record) record

theorem toNat_succ_slot {slot : UInt16} {slots : Nat} (h : slot.toNat + (slots + 1) < 2 ^ 16) :
    (slot + 1).toNat = slot.toNat + 1 := by
  rw [UInt16.toNat_add]
  exact Nat.mod_eq_of_lt (by change slot.toNat + 1 < _; omega)

/-- A slot that is no shadow is filled with what is read there, and the next slot comes. -/
theorem readConstants_succ (keep : UInt16 → Constant → σ → σ) (slots : Nat) (slot : UInt16) :
    readConstants keep (slots + 1) slot false =
      Constant.read slot >>= fun constant =>
        constant.elim (readConstants keep slots (slot + 1) false) fun constant =>
          note (keep slot constant) >>= fun _ =>
            readConstants keep slots (slot + 1) constant.isWide := by
  rw [readConstants]
  congr 1
  funext constant
  cases constant <;> rfl

/-- Reading constants passes over items that fill the slots, and takes note of each at the index at
which it starts. In the shadow of a wide constant the first item starts one index later. -/
theorem readConstants_eq_ok {keep : UInt16 → Constant → σ → σ} {slots : Nat} {slot : UInt16}
    {shadow : Bool} (h : slot.toNat + slots < 2 ^ 16) :
    readConstants keep slots slot shadow (cursor, record) = .ok u (next, after) ↔
      ∃ items, Item.Fill (slot.toNat + slots) (slot.toNat + shadow.toNat) items ∧
        cursor.Passes (items.flatMap Item.bytes) next ∧
        after = keepPlaced keep (Item.placedFrom (slot.toNat + shadow.toNat) items) record := by
  induction slots generalizing slot shadow cursor record with
  | zero =>
    rw [readConstants, pure_eq_ok, Prod.mk.injEq]
    constructor
    · rintro ⟨-, rfl, rfl⟩
      exact ⟨[], Nat.le_add_right _ _, Cursor.passes_nil.mpr rfl, rfl⟩
    · rintro ⟨items, hfill, hpasses, rfl⟩
      cases items with
      | nil => exact ⟨rfl, (Cursor.passes_nil.mp hpasses).symm, rfl⟩
      | cons item items => exact absurd hfill.1 (by omega)
  | succ slots ih =>
    have hslot := toNat_succ_slot h
    have hlimit : (slot + 1).toNat + slots = slot.toNat + (slots + 1) := by omega
    cases shadow with
    | true =>
      rw [readConstants, ih (by omega), hlimit, hslot]
      rfl
    | false =>
      -- What follows an item, decoded or not, starts where the item's width ends.
      have hrest : ∀ (item : Item) (middle : Cursor),
          (item.constant?.elim (readConstants keep slots (slot + 1) false) fun constant =>
              note (keep slot constant) >>= fun _ =>
                readConstants keep slots (slot + 1) constant.isWide : Reader σ Unit)
              (middle, record) = .ok u (next, after) ↔
            ∃ items, Item.Fill (slot.toNat + (slots + 1)) (slot.toNat + item.width) items ∧
              middle.Passes (items.flatMap Item.bytes) next ∧
              after = keepPlaced keep (Item.placedFrom (slot.toNat + item.width) items)
                (keepPlaced keep [(slot.toNat, item)] record) := by
        intro item middle
        cases hconstant : item.constant? with
        | none =>
          have hwidth := Item.width_of_constant?_eq_none hconstant
          rw [Option.elim_none, ih (by omega), hlimit, hslot, hwidth]
          simp only [keepPlaced, List.foldl_cons, List.foldl_nil, hconstant]
          rfl
        | some constant =>
          have hwidth := Item.width_of_constant?_eq_some hconstant
          rw [Option.elim_some, bind_note_eq_ok, ih (by omega), hlimit, hslot, hwidth,
            ← Nat.add_assoc _ 1]
          simp only [keepPlaced, List.foldl_cons, List.foldl_nil, hconstant, UInt16.ofNat_toNat]
      rw [readConstants_succ, bind_eq_ok]
      constructor
      · rintro ⟨constant, ⟨middle, _⟩, hread, hafter⟩
        obtain ⟨item, rfl, hitem, rfl⟩ := Constant.read_eq_ok.mp hread
        obtain ⟨items, hfill, hpasses, rfl⟩ := (hrest item middle).mp hafter
        exact ⟨item :: items, ⟨by simp, hfill⟩, hitem.append hpasses, rfl⟩
      · rintro ⟨items, hfill, hpasses, rfl⟩
        cases items with
        | nil => exact absurd hfill (by simp [Item.Fill])
        | cons item items =>
          obtain ⟨middle, hitem, hitems⟩ := Cursor.passes_append.mp hpasses
          exact ⟨item.constant?, (middle, record), Constant.read_eq_ok.mpr ⟨item, rfl, hitem, rfl⟩,
            (hrest item middle).mpr ⟨items, hfill.2, hitems, rfl⟩⟩

/-! ### Members and attributes -/

theorem attribute_eq_ok :
    (do let _name ← u2; let length ← u4; skip length.toNat : Reader σ Unit) (cursor, record) =
        .ok u (next, after) ↔
      ∃ own : Attribute, cursor.Passes own.bytes next ∧ after = record := by
  rw [bind_number_eq_ok u2_eq_ok]
  constructor
  · rintro ⟨name, middle, hname, hrest⟩
    obtain ⟨length, last, hlength, hskip⟩ := (bind_number_eq_ok u4_eq_ok).mp hrest
    obtain ⟨payload, hpayload, hpasses, rfl⟩ := skip_eq_ok.mp hskip
    rw [← hpayload] at hlength
    exact ⟨⟨name, payload, hpayload ▸ length.toNat_lt⟩,
      hname.append (hlength.append hpasses), rfl⟩
  · rintro ⟨⟨name, payload, hshort⟩, hpasses, rfl⟩
    obtain ⟨middle, hname, hrest⟩ := Cursor.passes_append.mp hpasses
    obtain ⟨last, hlength, hpayload⟩ := Cursor.passes_append.mp hrest
    have htoNat : (UInt32.ofNat payload.length).toNat = payload.length :=
      UInt32.toNat_ofNat_of_lt' hshort
    exact ⟨name, middle, hname, (bind_number_eq_ok u4_eq_ok).mpr
      ⟨UInt32.ofNat payload.length, last, by rwa [htoNat],
        skip_eq_ok.mpr ⟨payload, htoNat.symm, hpayload, rfl⟩⟩⟩

/-- Attributes are passed over without a trace. -/
theorem skipAttributes_eq_ok :
    skipAttributes (cursor, record) = .ok u (next, after) ↔
      ∃ list : Counted Attribute, cursor.Passes (Counted.bytes Attribute.bytes list) next ∧
        after = record := by
  rw [skipAttributes, counted_eq_ok attribute_eq_ok]
  simp only [List.foldl_fixed]

theorem attributedMember_eq_ok {keep : Member → σ → σ} :
    (do
      let member : Member := ⟨← u2, ← u2, ← u2⟩
      skipAttributes
      note (keep member) : Reader σ Unit) (cursor, record) = .ok u (next, after) ↔
      ∃ whole : AttributedMember, cursor.Passes whole.bytes next ∧
        after = keep whole.member record := by
  rw [bind_number_eq_ok u2_eq_ok]
  constructor
  · rintro ⟨flags, first, hflags, hrest⟩
    obtain ⟨name, second, hname, hrest⟩ := (bind_number_eq_ok u2_eq_ok).mp hrest
    obtain ⟨descriptor, third, hdescriptor, hrest⟩ := (bind_number_eq_ok u2_eq_ok).mp hrest
    obtain ⟨_, ⟨last, _⟩, hskip, hnote⟩ := bind_eq_ok.mp hrest
    obtain ⟨attributes, hattributes, rfl⟩ := skipAttributes_eq_ok.mp hskip
    obtain ⟨rfl, rfl⟩ := note_eq_ok.mp hnote
    exact ⟨⟨⟨flags, name, descriptor⟩, attributes⟩,
      hflags.append (hname.append (hdescriptor.append hattributes)), rfl⟩
  · rintro ⟨⟨⟨flags, name, descriptor⟩, attributes⟩, hpasses, rfl⟩
    obtain ⟨first, hflags, hrest⟩ := Cursor.passes_append.mp hpasses
    obtain ⟨second, hname, hrest⟩ := Cursor.passes_append.mp hrest
    obtain ⟨third, hdescriptor, hattributes⟩ := Cursor.passes_append.mp hrest
    refine ⟨flags, first, hflags, (bind_number_eq_ok u2_eq_ok).mpr ⟨name, second, hname, ?_⟩⟩
    refine (bind_number_eq_ok u2_eq_ok).mpr ⟨descriptor, third, hdescriptor, ?_⟩
    exact bind_eq_ok.mpr ⟨(), (next, record),
      skipAttributes_eq_ok.mpr ⟨attributes, hattributes, rfl⟩, note_eq_ok.mpr ⟨rfl, rfl⟩⟩

/-- Members are kept in order, without their attributes. -/
theorem readMembers_eq_ok {keep : Member → σ → σ} :
    readMembers keep (cursor, record) = .ok u (next, after) ↔
      ∃ list : Counted AttributedMember,
        cursor.Passes (Counted.bytes AttributedMember.bytes list) next ∧
          after = list.val.foldl (fun record whole => keep whole.member record) record :=
  counted_eq_ok attributedMember_eq_ok

/-! ### Whole images -/

theorem readMagic_eq_ok :
    readMagic (cursor, record) = .ok u (next, after) ↔
      cursor.Passes (bigEndianBytes 4 Outline.magic.toNat) next ∧ after = record := by
  rw [readMagic, bind_number_eq_ok u4_eq_ok]
  constructor
  · rintro ⟨found, middle, hfound, hcheck⟩
    split at hcheck
    · exact absurd hcheck fail_ne_ok
    · rename_i hmagic
      obtain ⟨-, hstate⟩ := pure_eq_ok.mp hcheck
      obtain ⟨rfl, rfl⟩ := Prod.mk.inj hstate
      rw [bne_iff_ne, not_not] at hmagic
      rw [← hmagic]
      exact ⟨hfound, rfl⟩
  · rintro ⟨hpasses, rfl⟩
    exact ⟨Outline.magic, next, hpasses, rfl⟩

namespace Outline

/-- The pool count of an image bounds the indices that its constants fill; counts zero and one leave
none. -/
theorem fill_pred_iff {count : Nat} {items : List Item} :
    Item.Fill (1 + (count - 1)) 1 items ↔ Item.Fill count 1 items := by
  cases count with
  | zero => cases items <;> simp [Item.Fill]
  | succ count => rw [Nat.add_sub_cancel, Nat.add_comm]

/-- Constants that are kept in the pool of an outline are kept in its pool alone. -/
theorem keepPlaced_pool (placed : List (Nat × Item)) (outline : Outline) :
    keepPlaced (fun index constant outline =>
        { outline with pool := outline.pool.insert index constant }) placed outline =
      { outline with
        pool := keepPlaced (fun index constant pool => pool.insert index constant)
          placed outline.pool } := by
  refine List.foldl_hom (fun pool => { outline with pool := pool }) ?_
  rintro pool ⟨index, item⟩
  dsimp only
  cases item.constant? <;> rfl

/-- The slots of a pool fit into the range of its indices. -/
theorem slots_lt (count : UInt16) : (1 : UInt16).toNat + (count.toNat - 1) < 2 ^ 16 := by
  have hcount := count.toNat_lt
  change 1 + (count.toNat - 1) < 2 ^ 16
  omega

theorem readOpening_eq_ok {outline result : Outline} :
    readOpening (cursor, outline) = .ok u (next, result) ↔
      ∃ (minor major count : UInt16) (items : List Item), Item.Fill count.toNat 1 items ∧
        cursor.Passes (Layout.openingBytes minor major count items) next ∧
        result = { outline with
          valid := true
          minorVersion := minor
          majorVersion := major
          pool := keepPlaced (fun index constant pool => pool.insert index constant)
            (Item.placedFrom 1 items) outline.pool } := by
  constructor
  · intro h
    obtain ⟨_, ⟨first, _⟩, hread, h1⟩ := bind_eq_ok.mp h
    obtain ⟨hmagic, rfl⟩ := readMagic_eq_ok.mp hread
    obtain ⟨minor, second, hminor, h2⟩ := (bind_number_eq_ok u2_eq_ok).mp (bind_note_eq_ok.mp h1)
    obtain ⟨major, third, hmajor, h3⟩ := (bind_number_eq_ok u2_eq_ok).mp (bind_note_eq_ok.mp h2)
    obtain ⟨count, last, hcount, h4⟩ := (bind_number_eq_ok u2_eq_ok).mp (bind_note_eq_ok.mp h3)
    obtain ⟨items, hfill, hitems, rfl⟩ := (readConstants_eq_ok (slots_lt count)).mp h4
    exact ⟨minor, major, count, items, fill_pred_iff.mp hfill,
      hmagic.append (hminor.append (hmajor.append (hcount.append hitems))), keepPlaced_pool _ _⟩
  · rintro ⟨minor, major, count, items, hfill, hpasses, rfl⟩
    obtain ⟨first, hmagic, h1⟩ := Cursor.passes_append.mp hpasses
    obtain ⟨second, hminor, h2⟩ := Cursor.passes_append.mp h1
    obtain ⟨third, hmajor, h3⟩ := Cursor.passes_append.mp h2
    obtain ⟨last, hcount, hitems⟩ := Cursor.passes_append.mp h3
    refine bind_eq_ok.mpr ⟨(), (first, outline), readMagic_eq_ok.mpr ⟨hmagic, rfl⟩, ?_⟩
    refine bind_note_eq_ok.mpr ((bind_number_eq_ok u2_eq_ok).mpr ⟨minor, second, hminor, ?_⟩)
    refine bind_note_eq_ok.mpr ((bind_number_eq_ok u2_eq_ok).mpr ⟨major, third, hmajor, ?_⟩)
    refine bind_note_eq_ok.mpr ((bind_number_eq_ok u2_eq_ok).mpr ⟨count, last, hcount, ?_⟩)
    refine (readConstants_eq_ok (slots_lt count)).mpr ⟨items, fill_pred_iff.mpr hfill, hitems, ?_⟩
    rw [keepPlaced_pool]
    rfl

theorem interface_eq_ok {outline result : Outline} :
    (do
      let index ← u2
      note fun outline : Outline =>
        { outline with interfaceIndices := outline.interfaceIndices.push index })
        (cursor, outline) = .ok u (next, result) ↔
      ∃ index : UInt16, cursor.Passes (bigEndianBytes 2 index.toNat) next ∧
        result = { outline with interfaceIndices := outline.interfaceIndices.push index } := by
  rw [bind_number_eq_ok u2_eq_ok]
  constructor
  · rintro ⟨index, middle, hindex, hnote⟩
    obtain ⟨rfl, rfl⟩ := note_eq_ok.mp hnote
    exact ⟨index, hindex, rfl⟩
  · rintro ⟨index, hindex, rfl⟩
    exact ⟨index, next, hindex, note_eq_ok.mpr ⟨rfl, rfl⟩⟩

/-- Interfaces that are pushed one by one end up behind those that were there. -/
theorem foldl_push_interface (list : List UInt16) (outline : Outline) :
    list.foldl (fun outline index =>
        { outline with interfaceIndices := outline.interfaceIndices.push index }) outline =
      { outline with interfaceIndices := outline.interfaceIndices ++ list.toArray } := by
  rw [← List.foldl_push_eq_append']
  refine List.foldl_hom (fun indices => { outline with interfaceIndices := indices }) ?_
  intro indices item
  rfl

/-- Fields that are pushed one by one end up behind those that were there. -/
theorem foldl_push_field (list : List AttributedMember) (outline : Outline) :
    list.foldl (fun outline whole =>
        { outline with fields := outline.fields.push whole.member }) outline =
      { outline with fields := outline.fields ++ (list.map AttributedMember.member).toArray } := by
  rw [← List.foldl_push_eq_append]
  refine List.foldl_hom (fun fields => { outline with fields := fields }) ?_
  intro fields item
  rfl

/-- Methods that are pushed one by one end up behind those that were there. -/
theorem foldl_push_method (list : List AttributedMember) (outline : Outline) :
    list.foldl (fun outline whole =>
        { outline with methods := outline.methods.push whole.member }) outline =
      { outline with methods := outline.methods ++ (list.map AttributedMember.member).toArray } := by
  rw [← List.foldl_push_eq_append]
  refine List.foldl_hom (fun methods => { outline with methods := methods }) ?_
  intro methods item
  rfl

theorem readBody_eq_ok {outline result : Outline} :
    readBody (cursor, outline) = .ok u (next, result) ↔
      ∃ (flags own parent : UInt16) (interfaces : Counted UInt16)
        (fields methods : Counted AttributedMember) (attributes : Counted Attribute),
        cursor.Passes
          (Layout.bodyBytes flags own parent interfaces fields methods attributes) next ∧
        result = { outline with
          accessFlags := flags
          thisClass := own
          superClass := parent
          interfaceIndices := outline.interfaceIndices ++ interfaces.val.toArray
          fields := outline.fields ++ (fields.val.map AttributedMember.member).toArray
          methods := outline.methods ++ (methods.val.map AttributedMember.member).toArray } := by
  constructor
  · intro h
    obtain ⟨flags, first, hflags, h1⟩ := (bind_number_eq_ok u2_eq_ok).mp h
    obtain ⟨own, second, hown, h2⟩ := (bind_number_eq_ok u2_eq_ok).mp (bind_note_eq_ok.mp h1)
    obtain ⟨parent, third, hparent, h3⟩ := (bind_number_eq_ok u2_eq_ok).mp (bind_note_eq_ok.mp h2)
    obtain ⟨interfaces, fourth, hinterfaces, h4⟩ :=
      (bind_counted_eq_ok interface_eq_ok).mp (bind_note_eq_ok.mp h3)
    obtain ⟨_, ⟨fifth, _⟩, hread, h5⟩ := bind_eq_ok.mp h4
    obtain ⟨fields, hfields, rfl⟩ := readMembers_eq_ok.mp hread
    obtain ⟨_, ⟨sixth, _⟩, hread, h6⟩ := bind_eq_ok.mp h5
    obtain ⟨methods, hmethods, rfl⟩ := readMembers_eq_ok.mp hread
    obtain ⟨attributes, hattributes, rfl⟩ := skipAttributes_eq_ok.mp h6
    refine ⟨flags, own, parent, interfaces, fields, methods, attributes,
      hflags.append (hown.append (hparent.append (hinterfaces.append
        (hfields.append (hmethods.append hattributes))))), ?_⟩
    rw [foldl_push_interface, foldl_push_field, foldl_push_method]
  · rintro ⟨flags, own, parent, interfaces, fields, methods, attributes, hpasses, rfl⟩
    obtain ⟨first, hflags, h1⟩ := Cursor.passes_append.mp hpasses
    obtain ⟨second, hown, h2⟩ := Cursor.passes_append.mp h1
    obtain ⟨third, hparent, h3⟩ := Cursor.passes_append.mp h2
    obtain ⟨fourth, hinterfaces, h4⟩ := Cursor.passes_append.mp h3
    obtain ⟨fifth, hfields, h5⟩ := Cursor.passes_append.mp h4
    obtain ⟨sixth, hmethods, hattributes⟩ := Cursor.passes_append.mp h5
    refine (bind_number_eq_ok u2_eq_ok).mpr ⟨flags, first, hflags, bind_note_eq_ok.mpr ?_⟩
    refine (bind_number_eq_ok u2_eq_ok).mpr ⟨own, second, hown, bind_note_eq_ok.mpr ?_⟩
    refine (bind_number_eq_ok u2_eq_ok).mpr ⟨parent, third, hparent, bind_note_eq_ok.mpr ?_⟩
    refine (bind_counted_eq_ok interface_eq_ok).mpr ⟨interfaces, fourth, hinterfaces, ?_⟩
    refine bind_eq_ok.mpr ⟨(), (fifth, _), readMembers_eq_ok.mpr ⟨fields, hfields, rfl⟩, ?_⟩
    refine bind_eq_ok.mpr ⟨(), (sixth, _), readMembers_eq_ok.mpr ⟨methods, hmethods, rfl⟩, ?_⟩
    refine skipAttributes_eq_ok.mpr ⟨attributes, hattributes, ?_⟩
    rw [foldl_push_interface, foldl_push_field, foldl_push_method]

end Outline

/-! ### The pool -/

/-- A pool into which placed constants were put has at an index the constant that starts there, if it
can be decoded, and else what it had before. -/
theorem get?_keepPlaced {limit start : Nat} {items : List Item} {pool : Pool} {index : UInt16}
    {constant : Constant} (hlimit : limit ≤ 2 ^ 16) (hfill : Item.Fill limit start items) :
    (keepPlaced (fun index constant pool => pool.insert index constant)
        (Item.placedFrom start items) pool).get? index = some constant ↔
      (∃ item, (index.toNat, item) ∈ Item.placedFrom start items ∧
        item.constant? = some constant) ∨
      ((∀ item, (index.toNat, item) ∈ Item.placedFrom start items → item.constant? = none) ∧
        pool.get? index = some constant) := by
  induction items generalizing start pool with
  | nil => simp [keepPlaced, Item.placedFrom]
  | cons item rest ih =>
    have hstart : (UInt16.ofNat start).toNat = start :=
      UInt16.toNat_ofNat_of_lt' (Nat.lt_of_lt_of_le hfill.1 hlimit)
    have hwidth := item.width_pos
    -- Nothing in the rest starts where the first item does.
    have hrest : ∀ other, (start, other) ∉ Item.placedFrom (start + item.width) rest := by
      intro other hother
      have := Item.le_of_mem_placedFrom hother
      dsimp only at this
      omega
    have hstep : keepPlaced (fun index constant pool => Pool.insert pool index constant)
        (Item.placedFrom start (item :: rest)) pool =
        keepPlaced (fun index constant pool => Pool.insert pool index constant)
          (Item.placedFrom (start + item.width) rest)
          (match item.constant? with
            | some constant => pool.insert (UInt16.ofNat start) constant
            | none => pool) := rfl
    rw [hstep, ih hfill.2, Item.placedFrom]
    by_cases hindex : index.toNat = start
    · obtain rfl : UInt16.ofNat start = index := by rw [← hindex, UInt16.ofNat_toNat]
      rw [hstart]
      cases hconstant : item.constant? <;> grind
    · have hne : UInt16.ofNat start ≠ index := fun h => hindex (h ▸ hstart)
      cases hconstant : item.constant? <;> grind

/-! ### Whole images -/

namespace Layout

/-- The outline of a layout. -/
def outline (layout : Layout) : Outline where
  valid := true
  minorVersion := layout.minorVersion
  majorVersion := layout.majorVersion
  accessFlags := layout.accessFlags
  thisClass := layout.thisClass
  superClass := layout.superClass
  interfaceIndices := layout.interfaces.val.toArray
  fields := (layout.fields.val.map AttributedMember.member).toArray
  methods := (layout.methods.val.map AttributedMember.member).toArray
  pool := keepPlaced (fun index constant pool => pool.insert index constant) layout.placed ∅

theorem describes_outline (layout : Layout) : layout.Describes layout.outline where
  valid := rfl
  minorVersion := rfl
  majorVersion := rfl
  accessFlags := rfl
  thisClass := rfl
  superClass := rfl
  interfaces := rfl
  fields := rfl
  methods := rfl
  pool := by
    intro index constant
    have hlimit := Nat.le_of_lt layout.poolCount.toNat_lt
    rw [outline, placed, get?_keepPlaced hlimit layout.fill, Pool.get?_empty]
    simp only [reduceCtorEq, and_false, or_false]

end Layout

/-- Reading an image to its end passes over a layout and fills in the outline of the layout. -/
theorem Outline.read_eq_ok {outline : Outline} :
    Outline.read (cursor, {}) = .ok u (next, outline) ↔
      ∃ layout : Layout, cursor.Passes layout.bytes next ∧ outline = layout.outline := by
  rw [Outline.read, bind_eq_ok]
  constructor
  · rintro ⟨_, ⟨middle, opened⟩, hopening, hbody⟩
    obtain ⟨minor, major, count, items, hfill, hfront, rfl⟩ := readOpening_eq_ok.mp hopening
    obtain ⟨flags, own, parent, interfaces, fields, methods, attributes, hback, rfl⟩ :=
      readBody_eq_ok.mp hbody
    refine ⟨⟨minor, major, count, items, hfill, flags, own, parent, interfaces, fields, methods,
      attributes⟩, hfront.append hback, ?_⟩
    simp only [Layout.outline, Array.empty_append]
    rfl
  · rintro ⟨layout, hpasses, rfl⟩
    obtain ⟨middle, hfront, hback⟩ := Cursor.passes_append.mp hpasses
    refine ⟨(), (middle, _), readOpening_eq_ok.mpr ⟨_, _, _, _, layout.fill, hfront, rfl⟩, ?_⟩
    refine readBody_eq_ok.mpr ⟨_, _, _, _, _, _, _, hback, ?_⟩
    simp only [Layout.outline, Array.empty_append]
    rfl

/-- An image is parsed without a fault when reading it succeeds. -/
theorem parse_eq_complete_iff {image : List UInt8} {outline : Outline} :
    parse image = ⟨outline, none⟩ ↔
      ∃ next, Outline.read (Cursor.front image, {}) = .ok () (next, outline) := by
  rw [parse]
  cases hread : Outline.read (Cursor.front image, {}) with
  | ok _ s => simp [Prod.ext_iff]
  | error fault s => simp

/-- Parsing inverts the writing of layouts and accepts nothing else: every layout is parsed without a
fault into the outline that it describes, whatever follows it, and every image that is parsed without
a fault has such a layout at its front. -/
theorem parse_exactly_layouts :
    (∀ (layout : Layout) (more : List UInt8),
      (parse (layout.bytes ++ more)).fault = none ∧
        layout.Describes (parse (layout.bytes ++ more)).outline) ∧
    (∀ image : List UInt8, (parse image).fault = none →
      ∃ (layout : Layout) (more : List UInt8), image = layout.bytes ++ more ∧
        layout.Describes (parse image).outline) := by
  constructor
  · intro layout more
    have hpasses : (Cursor.front (layout.bytes ++ more)).Passes layout.bytes
        ⟨layout.bytes.length, more⟩ := ⟨rfl, by simp [Cursor.front]⟩
    have hparse : parse (layout.bytes ++ more) = ⟨layout.outline, none⟩ :=
      parse_eq_complete_iff.mpr ⟨_, Outline.read_eq_ok.mpr ⟨layout, hpasses, rfl⟩⟩
    rw [hparse]
    exact ⟨rfl, layout.describes_outline⟩
  · intro image hfault
    obtain ⟨next, hread⟩ := parse_eq_complete_iff.mp
      (show parse image = ⟨(parse image).outline, none⟩ by rw [← hfault])
    obtain ⟨layout, hpasses, houtline⟩ := Outline.read_eq_ok.mp hread
    rw [houtline]
    exact ⟨layout, next.rest, hpasses.1, layout.describes_outline⟩

end JarAudit.ClassFile
