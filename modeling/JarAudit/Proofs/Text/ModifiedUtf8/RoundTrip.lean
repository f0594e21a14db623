import Mathlib.Algebra.Ring.Nat
import JarAudit.Proofs.Text.ModifiedUtf8.Grammar
import JarAudit.Proofs.Text.Utf16

/-!
# Encoding and decoding

Every sequence of 16-bit units has an encoding, whether it is text or not: surrogates are encoded as
any other unit. The encoding of a unit is a group (`isGroup_group`), and the bits of the unit are
put together again from it (`unitOf_group`). So decoding gives back the units, and what these stand
for together is decided by their neighbours (`decode_encoded`).
-/

namespace JarAudit.Text.ModifiedUtf8

/-! ### The bits of a group -/

/-- Bits that do not overlap add up. -/
theorem mul_or_eq_add (high : Nat) {low : Nat} (i : Nat) (h : low < 2 ^ i) :
    high * 2 ^ i ||| low = high * 2 ^ i + low := by
  rw [← Nat.shiftLeft_eq, ← Nat.shiftLeft_add_eq_or_of_lt h]

theorem toNat_and_ones (byte : UInt8) (n : Nat) :
    byte.toNat &&& (2 ^ n - 1) = byte.toNat % 2 ^ n :=
  Nat.and_two_pow_sub_one_eq_mod _ n

theorem toNat_unit2 (first second : UInt8) :
    (unit2 first second).toNat = first.toNat % 0x20 * 0x40 + second.toNat % 0x40 := by
  have hfirst := toNat_and_ones first 5
  have hsecond := toNat_and_ones second 6
  have hshift : first.toNat % 0x20 * 0x40 % 0x10000 = first.toNat % 0x20 * 0x40 := by omega
  have hor := mul_or_eq_add (first.toNat % 0x20) 6 (Nat.mod_lt second.toNat (by decide))
  simp only [Nat.reducePow, Nat.reduceSub] at hfirst hsecond hor
  simp [unit2, hfirst, hsecond, Nat.shiftLeft_eq, hshift, hor]

theorem toNat_unit3 (first second third : UInt8) :
    (unit3 first second third).toNat =
      first.toNat % 0x10 * 0x1000 + second.toNat % 0x40 * 0x40 + third.toNat % 0x40 := by
  have hfirst := toNat_and_ones first 4
  have hsecond := toNat_and_ones second 6
  have hthird := toNat_and_ones third 6
  have hshift : first.toNat % 0x10 * 0x1000 % 0x10000 = first.toNat % 0x10 * 0x1000 := by omega
  have hshift' : second.toNat % 0x40 * 0x40 % 0x10000 = second.toNat % 0x40 * 0x40 := by omega
  have hsmall : second.toNat % 0x40 * 0x40 < 2 ^ 12 := by omega
  have hor := mul_or_eq_add (first.toNat % 0x10) 12 hsmall
  have hor' := mul_or_eq_add (first.toNat % 0x10 * 0x40 + second.toNat % 0x40) 6
    (Nat.mod_lt third.toNat (by decide))
  have hfactor : (first.toNat % 0x10 * 0x40 + second.toNat % 0x40) * 0x40 =
      first.toNat % 0x10 * 0x1000 + second.toNat % 0x40 * 0x40 := by omega
  simp only [Nat.reducePow, Nat.reduceSub, hfactor] at hfirst hsecond hthird hor hor'
  simp [unit3, hfirst, hsecond, hthird, Nat.shiftLeft_eq, hshift, hshift', hor, hor']

/-! ### The group of a unit -/

/-- The encoding of a unit is a group. -/
theorem isGroup_group (unit : UInt16) : IsGroup (group unit) := by
  have hunit : unit.toNat < 0x10000 := unit.toNat_lt
  rw [group]
  split
  case isTrue hone =>
    simp only [Bool.and_eq_true, decide_eq_true_eq] at hone
    apply IsGroup.one
    rw [UInt8.le_iff_toNat_le, UInt8.toNat_ofNat']
    simp
    omega
  case isFalse hone =>
    split
    case isTrue htwo =>
      apply IsGroup.two
      all_goals
        rw [UInt8.le_iff_toNat_le, UInt8.le_iff_toNat_le, UInt8.toNat_ofNat']
        simp
        omega
    case isFalse htwo =>
      apply IsGroup.three
      all_goals
        rw [UInt8.le_iff_toNat_le, UInt8.le_iff_toNat_le, UInt8.toNat_ofNat']
        simp
        omega

/-- The unit that is encoded is the one that the group stands for. -/
theorem unitOf_group (unit : UInt16) : unitOf (group unit) = unit := by
  have hunit : unit.toNat < 0x10000 := unit.toNat_lt
  rw [← UInt16.toNat_inj, group]
  split
  case isTrue hone =>
    simp only [Bool.and_eq_true, decide_eq_true_eq] at hone
    rw [unitOf, UInt8.toNat_toUInt16, UInt8.toNat_ofNat']
    omega
  case isFalse hone =>
    split
    case isTrue htwo =>
      rw [unitOf, toNat_unit2, UInt8.toNat_ofNat', UInt8.toNat_ofNat']
      omega
    case isFalse htwo =>
      rw [unitOf, toNat_unit3, UInt8.toNat_ofNat', UInt8.toNat_ofNat', UInt8.toNat_ofNat']
      omega

/-- The encoding of units is decoded as they are. -/
theorem decode_encodeUnits (units : List UInt16) :
    decode (encodeUnits units) = .ok (Utf16.decode units) := by
  have hgroups : ∀ bytes ∈ units.map group, IsGroup bytes := by
    intro bytes hbytes
    obtain ⟨unit, -, rfl⟩ := List.mem_map.mp hbytes
    exact isGroup_group unit
  have hunits : (units.map group).map unitOf = units := by
    simp [Function.comp_def, unitOf_group]
  rw [encodeUnits, List.flatMap_def, decode_flatten hgroups, hunits]

/-- Decoding undoes the encoding of any sequence of units: it gives the text with the characters
that the units stand for between their neighbours. For the units of a text this is the text
itself. -/
theorem decode_encoded :
    (∀ units : List UInt16, ∃ text, decode (encodeUnits units) = .ok text ∧
      text.toList.map Char.toNat = Utf16.values units) ∧
    ∀ text : String, decode (encode text) = .ok text := by
  constructor
  · intro units
    exact ⟨_, decode_encodeUnits units, Utf16.map_toNat_decode units⟩
  · intro text
    rw [encode, decode_encodeUnits, Utf16.decode_encode]

/-- Two high surrogates before a low one: the first stands alone, the other two are a pair. -/
example : Utf16.values [0xD800, 0xD83D, 0xDE00] = [0xFFFD, 0x1F600] := by decide

end JarAudit.Text.ModifiedUtf8
