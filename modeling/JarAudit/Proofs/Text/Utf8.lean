import Mathlib.Algebra.Ring.Nat
import Mathlib.Tactic.SplitIfs
import JarAudit.Text.Utf8

/-!
# What the lossy reader keeps

Whatever the bytes are, each character that is read stands for its own bytes, or it replaces at most
three (`IsReading`, `isReading_lossy`). Text in UTF-8 is read as it is (`lossy_encode_append`). A byte
below 0x80 never belongs to a longer character, so that what stands in front of it is read as if the
bytes ended there (`lossy_append_cons`).

A text in UTF-8 that is cut into parts is read back part by part if and only if each part is whole
(`flatMap_lossy_eq_iff`). A replacement character has three bytes itself, so no part gets shorter by
being read, and none that is broken can be made up for by another (`IsReading.length_le`).
-/

namespace JarAudit.Text.Utf8

/-- The bytes that stand for a text. -/
def encode (text : List Char) : List UInt8 := text.flatMap String.utf8EncodeChar

/-- The text that bytes stand for, with replacements, as a list of characters. -/
def lossy (bytes : List UInt8) : List Char := (bytes.foldl step {}).finish

theorem decodeLossy_eq (bytes : List UInt8) : decodeLossy bytes = String.ofList (lossy bytes) := rfl

/-! ### One byte -/

section Step

variable {byte : UInt8} (read : List Char)

/-- What a first byte of two, three or four opens. -/
def opened2 (byte : UInt8) : Partial := { bits := byte.toNat % 0x20, further := 0 }

def opened3 (byte : UInt8) : Partial :=
  { bits := byte.toNat % 0x10
    further := 1
    low := if byte = 0xE0 then 0xA0 else 0x80
    high := if byte = 0xED then 0x9F else 0xBF }

def opened4 (byte : UInt8) : Partial :=
  { bits := byte.toNat % 8
    further := 2
    low := if byte = 0xF0 then 0x90 else 0x80
    high := if byte = 0xF4 then 0x8F else 0xBF }

theorem start_one (h : byte < 0x80) : start read byte = ⟨Char.ofNat byte.toNat :: read, none⟩ := by
  rw [start, if_pos h]

theorem start_two (hge : 0xC2 ≤ byte) (hlt : byte < 0xE0) :
    start read byte = ⟨read, some (opened2 byte)⟩ := by
  have hone : ¬ byte < 0x80 := by grind
  simp [start, hone, hge, hlt, opened2]

theorem start_three (hge : 0xE0 ≤ byte) (hlt : byte < 0xF0) :
    start read byte = ⟨read, some (opened3 byte)⟩ := by
  have hone : ¬ byte < 0x80 := by grind
  have htwo : ¬ byte < 0xE0 := by grind
  by_cases hfirst : byte = 0xE0
  · subst hfirst
    rfl
  by_cases hsurrogates : byte = 0xED
  · subst hsurrogates
    rfl
  have hplain : 0xE1 ≤ byte := by grind
  simp [start, hone, htwo, hfirst, hsurrogates, hplain, hlt, opened3]

theorem start_four (hge : 0xF0 ≤ byte) (hle : byte ≤ 0xF4) :
    start read byte = ⟨read, some (opened4 byte)⟩ := by
  have hone : ¬ byte < 0x80 := by grind
  have htwo : ¬ byte < 0xE0 := by grind
  have hthree : ¬ byte < 0xF0 := by grind
  have hneither : byte ≠ 0xE0 ∧ byte ≠ 0xED := by grind
  by_cases hfirst : byte = 0xF0
  · subst hfirst
    rfl
  by_cases hlast : byte = 0xF4
  · subst hlast
    rfl
  have hplain : 0xF1 ≤ byte ∧ byte < 0xF4 := by grind
  simp [start, hone, htwo, hthree, hneither, hfirst, hlast, hplain, opened4]

theorem start_none (hge : 0x80 ≤ byte) (h : byte < 0xC2 ∨ 0xF4 < byte) :
    start read byte = ⟨'\ufffd' :: read, none⟩ := by
  have hone : ¬ byte < 0x80 := by grind
  have htwo : ¬ (0xC2 ≤ byte ∧ byte < 0xE0) := by grind
  have hthree : ¬ (0xE1 ≤ byte ∧ byte < 0xF0) := by grind
  have hfour : ¬ (0xF1 ≤ byte ∧ byte < 0xF4) := by grind
  have hnone : byte ≠ 0xE0 ∧ byte ≠ 0xED ∧ byte ≠ 0xF0 ∧ byte ≠ 0xF4 := by grind
  simp [start, hone, htwo, hthree, hfour, hnone]

variable {part : Partial}

theorem step_last (hlow : part.low ≤ byte) (hhigh : byte ≤ part.high)
    (hfurther : part.further = 0) :
    step ⟨read, some part⟩ byte =
      ⟨Char.ofNat (part.bits * 0x40 + byte.toNat % 0x40) :: read, none⟩ := by
  simp [step, hlow, hhigh, hfurther]

theorem step_more (hlow : part.low ≤ byte) (hhigh : byte ≤ part.high) {further : Nat}
    (hfurther : part.further = further + 1) :
    step ⟨read, some part⟩ byte =
      ⟨read, some { bits := part.bits * 0x40 + byte.toNat % 0x40, further }⟩ := by
  simp [step, hlow, hhigh, hfurther]

theorem step_broken (h : ¬ (part.low ≤ byte ∧ byte ≤ part.high)) :
    step ⟨read, some part⟩ byte = start ('\ufffd' :: read) byte := by
  simp [step, h]

end Step

/-! ### The bytes of a character -/

theorem val_ofNat {n : Nat} (h : n.isValidChar) : (Char.ofNat n).val.toNat = n := by
  rw [Char.ofNat, dif_pos h]
  rfl

theorem toNat_ofNat_byte {n : Nat} (h : n < 0x100) : (UInt8.ofNat n).toNat = n :=
  UInt8.toNat_ofNat_of_lt' h

/-- The last `n` bytes of a character with a value, six bits in each. -/
def tail : Nat → Nat → List UInt8
  | 0, _ => []
  | n + 1, value => UInt8.ofNat (0x80 + value / 0x40 ^ n % 0x40) :: tail n value

section Value

variable {value : Nat}

theorem encodeChar_one (hlt : value < 0x80) :
    String.utf8EncodeChar (Char.ofNat value) = [UInt8.ofNat value] := by
  have hvalue : (Char.ofNat value).val.toNat = value := val_ofNat (.inl (by omega))
  simp only [String.utf8EncodeChar, hvalue]
  rw [if_pos (by omega)]

theorem encodeChar_two (hge : 0x80 ≤ value) (hlt : value < 0x800) :
    String.utf8EncodeChar (Char.ofNat value) =
      UInt8.ofNat (0xC0 + value / 0x40) :: tail 1 value := by
  have hvalue : (Char.ofNat value).val.toNat = value := val_ofNat (.inl (by omega))
  have hfirst : value / 64 % 32 + 192 = 0xC0 + value / 0x40 := by omega
  simp only [String.utf8EncodeChar, hvalue, hfirst]
  rw [if_neg (by omega), if_pos (by omega)]
  simp [tail, Nat.add_comm]

theorem encodeChar_three (hge : 0x800 ≤ value) (hlt : value < 0x10000)
    (hvalid : value.isValidChar) :
    String.utf8EncodeChar (Char.ofNat value) =
      UInt8.ofNat (0xE0 + value / 0x1000) :: tail 2 value := by
  have hvalue : (Char.ofNat value).val.toNat = value := val_ofNat hvalid
  have hfirst : value / 4096 % 16 + 224 = 0xE0 + value / 0x1000 := by omega
  simp only [String.utf8EncodeChar, hvalue, hfirst]
  rw [if_neg (by omega), if_neg (by omega), if_pos (by omega)]
  simp [tail, Nat.add_comm]

theorem encodeChar_four (hge : 0x10000 ≤ value) (hlt : value < 0x110000) :
    String.utf8EncodeChar (Char.ofNat value) =
      UInt8.ofNat (0xF0 + value / 0x40000) :: tail 3 value := by
  have hvalue : (Char.ofNat value).val.toNat = value := val_ofNat (.inr (by omega))
  have hfirst : value / 262144 % 8 + 240 = 0xF0 + value / 0x40000 := by omega
  simp only [String.utf8EncodeChar, hvalue, hfirst]
  rw [if_neg (by omega), if_neg (by omega), if_neg (by omega)]
  simp [tail, Nat.add_comm]

end Value

/-! ### Pending characters -/

/-- The least value that a pending character can come to have. -/
def Partial.least (part : Partial) : Nat :=
  (part.bits * 0x40 + part.low.toNat % 0x40) * 0x40 ^ part.further

/-- The values that a pending character can come to have lie below this one. -/
def Partial.limit (part : Partial) : Nat :=
  (part.bits * 0x40 + part.high.toNat % 0x40 + 1) * 0x40 ^ part.further

theorem least_eq (bits further : Nat) :
    Partial.least { bits, further } = bits * 0x40 ^ (further + 1) := by
  simp [Partial.least, Nat.pow_succ', Nat.mul_assoc]

theorem limit_eq (bits further : Nat) :
    Partial.limit { bits, further } = (bits + 1) * 0x40 ^ (further + 1) := by
  have hsum : bits * 0x40 + 0xBF % 0x40 + 1 = (bits + 1) * 0x40 := by omega
  simp only [Partial.limit, UInt8.reduceToNat, hsum]
  rw [Nat.mul_assoc, ← Nat.pow_succ']

/-- A pending character of which some bytes have been taken: they begin the bytes of every character
that it can come to be. -/
structure Partial.Sound (part : Partial) (taken : List UInt8) : Prop where
  low_ge : 0x80 ≤ part.low
  low_le : part.low ≤ part.high
  high_le : part.high ≤ 0xBF
  short : taken.length + part.further ≤ 3
  encode : ∀ value, part.least ≤ value → value < part.limit →
    String.utf8EncodeChar (Char.ofNat value) = taken ++ tail (part.further + 1) value

section Opened

variable {byte : UInt8}

theorem sound_opened2 (hge : 0xC2 ≤ byte) (hlt : byte < 0xE0) : (opened2 byte).Sound [byte] := by
  refine ⟨UInt8.le_refl _, by simp [opened2], UInt8.le_refl _, by simp [opened2],
    fun value hleast hlimit => ?_⟩
  rw [UInt8.le_iff_toNat_le] at hge
  rw [UInt8.lt_iff_toNat_lt] at hlt
  simp only [opened2, Partial.least, Partial.limit, UInt8.reduceToNat] at hleast hlimit hge hlt
  have hbyte : UInt8.ofNat (0xC0 + value / 0x40) = byte := by
    rw [← UInt8.toNat_inj, toNat_ofNat_byte (by omega)]
    omega
  rw [encodeChar_two (by omega) (by omega), hbyte]
  rfl

theorem sound_opened3 (hge : 0xE0 ≤ byte) (hlt : byte < 0xF0) : (opened3 byte).Sound [byte] := by
  have hlow : 0x80 ≤ (opened3 byte).low := by grind [opened3]
  have hrange : (opened3 byte).low ≤ (opened3 byte).high := by grind [opened3]
  have hhigh : (opened3 byte).high ≤ 0xBF := by grind [opened3]
  refine ⟨hlow, hrange, hhigh, by simp [opened3], fun value hleast hlimit => ?_⟩
  rw [UInt8.le_iff_toNat_le] at hge
  rw [UInt8.lt_iff_toNat_lt] at hlt
  simp only [opened3, Partial.least, Partial.limit, apply_ite UInt8.toNat, ← UInt8.toNat_inj,
    UInt8.reduceToNat] at hleast hlimit hge hlt
  have hvalid : value.isValidChar := by
    rw [Nat.isValidChar]
    split at hleast <;> split at hlimit <;> omega
  have hvalue : 0x800 ≤ value ∧ value < 0x10000 ∧ value / 0x1000 = byte.toNat % 0x10 := by
    split at hleast <;> split at hlimit <;> omega
  have hbyte : UInt8.ofNat (0xE0 + value / 0x1000) = byte := by
    rw [← UInt8.toNat_inj, toNat_ofNat_byte (by omega)]
    omega
  rw [encodeChar_three hvalue.1 hvalue.2.1 hvalid, hbyte]
  rfl

theorem sound_opened4 (hge : 0xF0 ≤ byte) (hle : byte ≤ 0xF4) : (opened4 byte).Sound [byte] := by
  have hlow : 0x80 ≤ (opened4 byte).low := by grind [opened4]
  have hrange : (opened4 byte).low ≤ (opened4 byte).high := by grind [opened4]
  have hhigh : (opened4 byte).high ≤ 0xBF := by grind [opened4]
  refine ⟨hlow, hrange, hhigh, by simp [opened4], fun value hleast hlimit => ?_⟩
  rw [UInt8.le_iff_toNat_le] at hge hle
  simp only [opened4, Partial.least, Partial.limit, apply_ite UInt8.toNat, ← UInt8.toNat_inj,
    UInt8.reduceToNat] at hleast hlimit hge hle
  have hvalue : 0x10000 ≤ value ∧ value < 0x110000 ∧ value / 0x40000 = byte.toNat % 8 := by
    split at hleast <;> split at hlimit <;> omega
  have hbyte : UInt8.ofNat (0xF0 + value / 0x40000) = byte := by
    rw [← UInt8.toNat_inj, toNat_ofNat_byte (by omega)]
    omega
  rw [encodeChar_four hvalue.1 hvalue.2.1, hbyte]
  rfl

end Opened

section Next

variable {part : Partial} {taken : List UInt8} {byte : UInt8}

/-- A byte that continues a character is its lowest six bits. -/
theorem ofNat_low_bits (hge : 0x80 ≤ byte.toNat) (hle : byte.toNat ≤ 0xBF) :
    UInt8.ofNat (0x80 + byte.toNat % 0x40) = byte := by
  rw [← UInt8.toNat_inj, toNat_ofNat_byte (by omega)]
  omega

theorem Partial.Sound.toNat_bounds (h : part.Sound taken) (hlow : part.low ≤ byte)
    (hhigh : byte ≤ part.high) :
    0x80 ≤ part.low.toNat ∧ part.low.toNat ≤ byte.toNat ∧ byte.toNat ≤ part.high.toNat ∧
      part.high.toNat ≤ 0xBF :=
  ⟨UInt8.le_iff_toNat_le.mp h.low_ge, UInt8.le_iff_toNat_le.mp hlow,
    UInt8.le_iff_toNat_le.mp hhigh, UInt8.le_iff_toNat_le.mp h.high_le⟩

/-- One more byte leaves fewer values, those that have this byte at its place. -/
theorem Partial.Sound.next (h : part.Sound taken) {further : Nat}
    (hfurther : part.further = further + 1) (hlow : part.low ≤ byte) (hhigh : byte ≤ part.high) :
    Partial.Sound { bits := part.bits * 0x40 + byte.toNat % 0x40, further }
      (taken ++ [byte]) := by
  have hbounds := h.toNat_bounds hlow hhigh
  have hshort := h.short
  constructor
  case low_ge => exact UInt8.le_refl _
  case low_le => exact (by decide : (0x80 : UInt8) ≤ 0xBF)
  case high_le => exact UInt8.le_refl _
  case short =>
    show (taken ++ [byte]).length + further ≤ 3
    simp only [List.length_append, List.length_singleton]
    omega
  case encode =>
    intro value hleast hlimit
    rw [least_eq] at hleast
    rw [limit_eq] at hlimit
    have hquotient : value / 0x40 ^ (further + 1) = part.bits * 0x40 + byte.toNat % 0x40 :=
      Nat.div_eq_of_lt_le hleast hlimit
    have hfrom : part.least ≤ value := by
      refine Nat.le_trans ?_ hleast
      rw [Partial.least, hfurther]
      exact Nat.mul_le_mul_right _ (by omega)
    have hto : value < part.limit := by
      refine Nat.lt_of_lt_of_le hlimit ?_
      rw [Partial.limit, hfurther]
      exact Nat.mul_le_mul_right _ (by omega)
    have hsix : (part.bits * 0x40 + byte.toNat % 0x40) % 0x40 = byte.toNat % 0x40 := by omega
    rw [h.encode value hfrom hto, hfurther, tail, hquotient, hsix,
      ofNat_low_bits (by omega) (by omega)]
    simp

/-- The last byte completes the bytes of a character. -/
theorem Partial.Sound.encode_last (h : part.Sound taken) (hfurther : part.further = 0)
    (hlow : part.low ≤ byte) (hhigh : byte ≤ part.high) :
    String.utf8EncodeChar (Char.ofNat (part.bits * 0x40 + byte.toNat % 0x40)) =
      taken ++ [byte] := by
  have hbounds := h.toNat_bounds hlow hhigh
  have hsix : (part.bits * 0x40 + byte.toNat % 0x40) / 0x40 ^ 0 % 0x40 = byte.toNat % 0x40 := by
    omega
  rw [h.encode _ (by rw [Partial.least, hfurther]; omega)
    (by rw [Partial.limit, hfurther]; omega), hfurther, tail, hsix,
    ofNat_low_bits (by omega) (by omega), tail]

end Next

/-! ### Readings -/

/-- A text that bytes are read as, from left to right: each character stands for its own bytes, or
it is a replacement for at most three bytes. -/
inductive IsReading : List UInt8 → List Char → Prop where
  | nil : IsReading [] []
  | char {bytes : List UInt8} {text : List Char} (h : IsReading bytes text) (char : Char) :
      IsReading (bytes ++ String.utf8EncodeChar char) (text ++ [char])
  | replaced {bytes : List UInt8} {text : List Char} (h : IsReading bytes text)
      {piece : List UInt8} (hne : piece ≠ []) (hshort : piece.length ≤ 3) :
      IsReading (bytes ++ piece) (text ++ ['\ufffd'])

/-- The text so far is a reading of all bytes but those of the pending character. -/
def State.Sound (state : State) (bytes : List UInt8) : Prop :=
  match state.pending with
  | none => IsReading bytes state.read.reverse
  | some part => ∃ front taken, bytes = front ++ taken ∧ taken ≠ [] ∧ part.Sound taken ∧
      IsReading front state.read.reverse

/-- A first byte is read on its own, or opens a character that it begins. -/
theorem start_sound {read : List Char} {bytes : List UInt8} (h : IsReading bytes read.reverse)
    (byte : UInt8) : (start read byte).Sound (bytes ++ [byte]) := by
  have hopened {part : Partial} (hpart : part.Sound [byte]) :
      State.Sound ⟨read, some part⟩ (bytes ++ [byte]) :=
    ⟨bytes, [byte], rfl, List.cons_ne_nil _ _, hpart, h⟩
  by_cases hascii : byte < 0x80
  · rw [start_one read hascii]
    have hencode : String.utf8EncodeChar (Char.ofNat byte.toNat) = [byte] := by
      rw [encodeChar_one (UInt8.lt_iff_toNat_lt.mp hascii), UInt8.ofNat_toNat]
    have hreading := h.char (Char.ofNat byte.toNat)
    rw [hencode, ← List.reverse_cons] at hreading
    exact hreading
  by_cases htwo : 0xC2 ≤ byte ∧ byte < 0xE0
  · rw [start_two read htwo.1 htwo.2]
    exact hopened (sound_opened2 htwo.1 htwo.2)
  by_cases hthree : 0xE0 ≤ byte ∧ byte < 0xF0
  · rw [start_three read hthree.1 hthree.2]
    exact hopened (sound_opened3 hthree.1 hthree.2)
  by_cases hfour : 0xF0 ≤ byte ∧ byte ≤ 0xF4
  · rw [start_four read hfour.1 hfour.2]
    exact hopened (sound_opened4 hfour.1 hfour.2)
  · rw [start_none read (by grind) (by grind)]
    have hreading := h.replaced (List.cons_ne_nil byte []) (by simp)
    rw [← List.reverse_cons] at hreading
    exact hreading

/-- A pending character that is broken off is replaced. -/
theorem Partial.Sound.isReading_replaced {part : Partial} {taken front : List UInt8}
    {read : List Char} (h : part.Sound taken) (hne : taken ≠ [])
    (hfront : IsReading front read.reverse) :
    IsReading (front ++ taken) ('\ufffd' :: read).reverse := by
  have hshort := h.short
  rw [List.reverse_cons]
  exact hfront.replaced hne (by omega)

theorem step_sound {state : State} {bytes : List UInt8} (h : state.Sound bytes) (byte : UInt8) :
    (step state byte).Sound (bytes ++ [byte]) := by
  obtain ⟨read, none | part⟩ := state
  · exact start_sound h byte
  obtain ⟨front, taken, rfl, hne, hpart, hfront⟩ := h
  by_cases hfits : part.low ≤ byte ∧ byte ≤ part.high
  · obtain ⟨hlow, hhigh⟩ := hfits
    cases hfurther : part.further with
    | zero =>
      rw [step_last read hlow hhigh hfurther]
      have hreading := hfront.char (Char.ofNat (part.bits * 0x40 + byte.toNat % 0x40))
      rw [hpart.encode_last hfurther hlow hhigh, ← List.append_assoc, ← List.reverse_cons]
        at hreading
      exact hreading
    | succ further =>
      rw [step_more read hlow hhigh hfurther]
      exact ⟨front, taken ++ [byte], List.append_assoc .., by simp,
        hpart.next hfurther hlow hhigh, hfront⟩
  · rw [step_broken read hfits]
    exact start_sound (hpart.isReading_replaced hne hfront) byte

theorem foldl_sound {state : State} {bytes : List UInt8} (h : state.Sound bytes)
    (more : List UInt8) : (more.foldl step state).Sound (bytes ++ more) := by
  induction more generalizing state bytes with
  | nil => rwa [List.append_nil]
  | cons byte more ih =>
    have hrest := ih (step_sound h byte)
    rwa [List.append_assoc] at hrest

theorem State.Sound.isReading {state : State} {bytes : List UInt8} (h : state.Sound bytes) :
    IsReading bytes state.finish := by
  obtain ⟨read, none | part⟩ := state
  · exact h
  · obtain ⟨front, taken, rfl, hne, hpart, hfront⟩ := h
    exact hpart.isReading_replaced hne hfront

theorem empty_sound : State.Sound {} [] := IsReading.nil

/-- The text that is made of bytes is a reading of them. -/
theorem isReading_lossy (bytes : List UInt8) : IsReading bytes (lossy bytes) :=
  (foldl_sound empty_sound bytes).isReading

/-! ### Encoded text -/

section Character

variable (read : List Char) {value : Nat}

/-- The next byte of any value that a pending character can come to have fits. -/
theorem Partial.Sound.fits {part : Partial} {taken : List UInt8} (h : part.Sound taken)
    (hleast : part.least ≤ value) (hlimit : value < part.limit) {further : Nat}
    (hfurther : part.further = further) {byte : UInt8}
    (hbyte : byte = UInt8.ofNat (0x80 + value / 0x40 ^ further % 0x40)) :
    part.low ≤ byte ∧ byte ≤ part.high ∧
      part.bits * 0x40 + byte.toNat % 0x40 = value / 0x40 ^ further := by
  have hpos : 0 < 0x40 ^ further := Nat.pow_pos (by decide)
  rw [Partial.least, hfurther] at hleast
  rw [Partial.limit, hfurther] at hlimit
  have hfrom := (Nat.le_div_iff_mul_le hpos).mpr hleast
  have hto := (Nat.div_lt_iff_lt_mul hpos).mpr hlimit
  have hlow := UInt8.le_iff_toNat_le.mp h.low_ge
  have hrange := UInt8.le_iff_toNat_le.mp h.low_le
  have hhigh := UInt8.le_iff_toNat_le.mp h.high_le
  have htoNat : byte.toNat = 0x80 + value / 0x40 ^ further % 0x40 := by
    rw [hbyte, toNat_ofNat_byte (by omega)]
  simp only [UInt8.reduceToNat] at hlow hhigh
  rw [UInt8.le_iff_toNat_le, UInt8.le_iff_toNat_le]
  omega

/-- A pending character takes the rest of the bytes of any value that it can come to have. -/
theorem Partial.Sound.foldl_tail {part : Partial} {taken : List UInt8} (h : part.Sound taken)
    (hleast : part.least ≤ value) (hlimit : value < part.limit) :
    (tail (part.further + 1) value).foldl step ⟨read, some part⟩ =
      ⟨Char.ofNat value :: read, none⟩ := by
  -- On the bytes that are still to come: each one but the last leaves a pending character again.
  induction hfurther : part.further generalizing part taken with
  | zero =>
    obtain ⟨hlow, hhigh, hvalue⟩ := h.fits hleast hlimit hfurther rfl
    rw [tail, List.foldl_cons, step_last read hlow hhigh hfurther, hvalue, Nat.pow_zero,
      Nat.div_one]
    rfl
  | succ further ih =>
    obtain ⟨hlow, hhigh, hvalue⟩ := h.fits hleast hlimit hfurther rfl
    have hnext := h.next hfurther hlow hhigh
    rw [hvalue] at hnext
    have hpos : 0 < 0x40 ^ (further + 1) := Nat.pow_pos (by decide)
    have hfrom := Nat.div_mul_le_self value (0x40 ^ (further + 1))
    have hto := (Nat.div_lt_iff_lt_mul hpos).mp (Nat.lt_succ_self (value / 0x40 ^ (further + 1)))
    rw [tail, List.foldl_cons, step_more read hlow hhigh hfurther, hvalue]
    exact ih hnext (by rwa [least_eq]) (by rwa [limit_eq]) rfl

theorem foldl_opened {part : Partial} {byte : UInt8} (hpart : part.Sound [byte])
    (hstart : start read byte = ⟨read, some part⟩) {n : Nat} (hn : part.further + 1 = n)
    (hleast : part.least ≤ value) (hlimit : value < part.limit) :
    (byte :: tail n value).foldl step ⟨read, none⟩ = ⟨Char.ofNat value :: read, none⟩ := by
  rw [List.foldl_cons, ← hn]
  show (tail (part.further + 1) value).foldl step (start read byte) = _
  rw [hstart]
  exact hpart.foldl_tail read hleast hlimit

theorem foldl_two (hge : 0x80 ≤ value) (hlt : value < 0x800) :
    (String.utf8EncodeChar (Char.ofNat value)).foldl step ⟨read, none⟩ =
      ⟨Char.ofNat value :: read, none⟩ := by
  have hbyte := toNat_ofNat_byte (show 0xC0 + value / 0x40 < 0x100 by omega)
  rw [encodeChar_two hge hlt]
  generalize UInt8.ofNat (0xC0 + value / 0x40) = byte at hbyte
  have hfrom : 0xC2 ≤ byte := UInt8.le_iff_toNat_le.mpr (by simp; omega)
  have hto : byte < 0xE0 := UInt8.lt_iff_toNat_lt.mpr (by simp; omega)
  refine foldl_opened read (sound_opened2 hfrom hto) (start_two read hfrom hto) rfl ?_ ?_
  · simp only [opened2, Partial.least, UInt8.reduceToNat]
    omega
  · simp only [opened2, Partial.limit, UInt8.reduceToNat]
    omega

theorem foldl_three (hge : 0x800 ≤ value) (hlt : value < 0x10000) (hvalid : value.isValidChar) :
    (String.utf8EncodeChar (Char.ofNat value)).foldl step ⟨read, none⟩ =
      ⟨Char.ofNat value :: read, none⟩ := by
  have hbyte := toNat_ofNat_byte (show 0xE0 + value / 0x1000 < 0x100 by omega)
  rw [encodeChar_three hge hlt hvalid]
  generalize UInt8.ofNat (0xE0 + value / 0x1000) = byte at hbyte
  have hfrom : 0xE0 ≤ byte := UInt8.le_iff_toNat_le.mpr (by simp; omega)
  have hto : byte < 0xF0 := UInt8.lt_iff_toNat_lt.mpr (by simp; omega)
  rw [Nat.isValidChar] at hvalid
  refine foldl_opened read (sound_opened3 hfrom hto) (start_three read hfrom hto) rfl ?_ ?_
  · simp only [opened3, Partial.least, apply_ite UInt8.toNat, ← UInt8.toNat_inj,
      UInt8.reduceToNat]
    split <;> omega
  · simp only [opened3, Partial.limit, apply_ite UInt8.toNat, ← UInt8.toNat_inj,
      UInt8.reduceToNat]
    split <;> omega

theorem foldl_four (hge : 0x10000 ≤ value) (hlt : value < 0x110000) :
    (String.utf8EncodeChar (Char.ofNat value)).foldl step ⟨read, none⟩ =
      ⟨Char.ofNat value :: read, none⟩ := by
  have hbyte := toNat_ofNat_byte (show 0xF0 + value / 0x40000 < 0x100 by omega)
  rw [encodeChar_four hge hlt]
  generalize UInt8.ofNat (0xF0 + value / 0x40000) = byte at hbyte
  have hfrom : 0xF0 ≤ byte := UInt8.le_iff_toNat_le.mpr (by simp; omega)
  have hto : byte ≤ 0xF4 := UInt8.le_iff_toNat_le.mpr (by simp; omega)
  refine foldl_opened read (sound_opened4 hfrom hto) (start_four read hfrom hto) rfl ?_ ?_
  · simp only [opened4, Partial.least, apply_ite UInt8.toNat, ← UInt8.toNat_inj,
      UInt8.reduceToNat]
    split <;> omega
  · simp only [opened4, Partial.limit, apply_ite UInt8.toNat, ← UInt8.toNat_inj,
      UInt8.reduceToNat]
    split <;> omega

/-- The bytes of a character are read as this character. -/
theorem foldl_encodeChar (char : Char) :
    (String.utf8EncodeChar char).foldl step ⟨read, none⟩ = ⟨char :: read, none⟩ := by
  have hvalid : char.toNat.isValidChar := char.valid
  have hlt : char.toNat < 0x110000 := by
    rw [Nat.isValidChar] at hvalid
    omega
  rw [← Char.ofNat_toNat char]
  generalize char.toNat = value at hvalid hlt
  by_cases hone : value < 0x80
  · have hascii : UInt8.ofNat value < 0x80 := by
      rw [UInt8.lt_iff_toNat_lt, toNat_ofNat_byte (by omega)]
      exact hone
    rw [encodeChar_one hone]
    show step ⟨read, none⟩ (UInt8.ofNat value) = _
    rw [step, start_one read hascii, toNat_ofNat_byte (by omega)]
  by_cases htwo : value < 0x800
  · exact foldl_two read (by omega) htwo
  by_cases hthree : value < 0x10000
  · exact foldl_three read (by omega) hthree hvalid
  · exact foldl_four read (by omega) hlt

end Character

/-! ### Parts of bytes -/

/-- A state with characters behind those that it has. -/
def State.onto (state : State) (read : List Char) : State := ⟨state.read ++ read, state.pending⟩

theorem start_onto (front read : List Char) (byte : UInt8) :
    start (front ++ read) byte = (start front byte).onto read := by
  simp only [start]
  split_ifs <;> rfl

theorem step_onto (state : State) (read : List Char) (byte : UInt8) :
    step (state.onto read) byte = (step state byte).onto read := by
  obtain ⟨front, none | part⟩ := state
  · exact start_onto front read byte
  by_cases hfits : part.low ≤ byte ∧ byte ≤ part.high
  · obtain ⟨hlow, hhigh⟩ := hfits
    cases hfurther : part.further with
    | zero =>
      rw [step_last front hlow hhigh hfurther]
      exact step_last (front ++ read) hlow hhigh hfurther
    | succ further =>
      rw [step_more front hlow hhigh hfurther]
      exact step_more (front ++ read) hlow hhigh hfurther
  · rw [step_broken front hfits]
    exact (step_broken (front ++ read) hfits).trans (start_onto ('\ufffd' :: front) read byte)

theorem foldl_onto (state : State) (read : List Char) (bytes : List UInt8) :
    bytes.foldl step (state.onto read) = (bytes.foldl step state).onto read := by
  induction bytes generalizing state with
  | nil => rfl
  | cons byte bytes ih => rw [List.foldl_cons, step_onto, ih, List.foldl_cons]

theorem finish_onto (state : State) (read : List Char) :
    (state.onto read).finish = read.reverse ++ state.finish := by
  obtain ⟨front, none | part⟩ := state <;> simp [State.onto, State.finish]

/-- Between characters it does not matter what has been read. -/
theorem finish_foldl (read : List Char) (bytes : List UInt8) :
    (bytes.foldl step ⟨read, none⟩).finish = read.reverse ++ lossy bytes := by
  have honto : (⟨read, none⟩ : State) = State.onto {} read := rfl
  rw [honto, foldl_onto, finish_onto, lossy]

/-- A text in front is read as it is. -/
theorem lossy_encode_append (text : List Char) (bytes : List UInt8) :
    lossy (encode text ++ bytes) = text ++ lossy bytes := by
  have hread : ∀ read : List Char, (encode text).foldl step ⟨read, none⟩ =
      ⟨text.reverse ++ read, none⟩ := by
    induction text with
    | nil => exact fun read => rfl
    | cons char text ih =>
      intro read
      rw [encode, List.flatMap_cons, List.foldl_append, foldl_encodeChar]
      exact (ih (char :: read)).trans (by simp)
  rw [lossy, List.foldl_append]
  show (bytes.foldl step ((encode text).foldl step ⟨[], none⟩)).finish = _
  rw [hread, finish_foldl]
  simp

theorem lossy_encode (text : List Char) : lossy (encode text) = text := by
  have hread := lossy_encode_append text []
  rwa [List.append_nil, show lossy [] = [] from rfl, List.append_nil] at hread

theorem encode_append (front back : List Char) :
    encode (front ++ back) = encode front ++ encode back :=
  List.flatMap_append

/-- A byte below 0x80 completes no character, and ends whatever stands in front of it. -/
theorem step_ascii {state : State} {bytes : List UInt8} (h : state.Sound bytes) {byte : UInt8}
    (hbyte : byte < 0x80) :
    step state byte = ⟨Char.ofNat byte.toNat :: state.finish.reverse, none⟩ := by
  obtain ⟨read, none | part⟩ := state
  · rw [show (⟨read, none⟩ : State).finish.reverse = read from List.reverse_reverse read]
    exact start_one read hbyte
  · obtain ⟨front, taken, -, -, hpart, -⟩ := h
    have hlow := hpart.low_ge
    have hnot : ¬ (part.low ≤ byte ∧ byte ≤ part.high) := by grind
    rw [step_broken read hnot, start_one _ hbyte]
    simp [State.finish]

/-- What stands in front of such a byte is read as if the bytes ended there. -/
theorem lossy_append_cons (front : List UInt8) {byte : UInt8} (hbyte : byte < 0x80)
    (back : List UInt8) :
    lossy (front ++ byte :: back) = lossy front ++ Char.ofNat byte.toNat :: lossy back := by
  have hsound := foldl_sound empty_sound front
  rw [lossy, List.foldl_append, List.foldl_cons, step_ascii hsound hbyte, finish_foldl]
  simp [lossy]

/-! ### Cuts -/

section Reading

variable {bytes : List UInt8} {text : List Char}

/-- Readings of two parts make one of both. -/
theorem IsReading.append {back : List UInt8} {rest : List Char} (h : IsReading bytes text)
    (hback : IsReading back rest) : IsReading (bytes ++ back) (text ++ rest) := by
  induction hback with
  | nil => rwa [List.append_nil, List.append_nil]
  | char _ char ih =>
    rw [← List.append_assoc, ← List.append_assoc]
    exact ih.char char
  | replaced _ hne hshort ih =>
    rw [← List.append_assoc, ← List.append_assoc]
    exact ih.replaced hne hshort

theorem encode_singleton (char : Char) : encode [char] = String.utf8EncodeChar char :=
  List.flatMap_singleton _ _

/-- A reading has at least as many bytes as are read. -/
theorem IsReading.length_le (h : IsReading bytes text) : bytes.length ≤ (encode text).length := by
  induction h with
  | nil => exact Nat.le_refl _
  | char _ char ih =>
    rw [encode_append, encode_singleton, List.length_append, List.length_append]
    omega
  | replaced _ _ hshort ih =>
    have hthree : (encode ['\ufffd']).length = 3 := rfl
    rw [encode_append, List.length_append, List.length_append]
    omega

/-- A character that replaces nothing stands for its own bytes. -/
theorem IsReading.exists_bytes_of_mem (h : IsReading bytes text) {char : Char} (hmem : char ∈ text)
    (hne : char ≠ '\ufffd') :
    ∃ front back, bytes = front ++ (String.utf8EncodeChar char ++ back) := by
  induction h with
  | nil => exact absurd hmem List.not_mem_nil
  | char _ last ih =>
    rcases List.mem_append.mp hmem with hmem | hlast
    · obtain ⟨front, back, rfl⟩ := ih hmem
      exact ⟨front, back ++ String.utf8EncodeChar last, by simp⟩
    · rw [List.mem_singleton.mp hlast]
      exact ⟨_, [], by rw [List.append_nil]⟩
  | replaced _ _ _ ih =>
    rcases List.mem_append.mp hmem with hmem | hlast
    · obtain ⟨front, back, rfl⟩ := ih hmem
      exact ⟨front, _, by rw [List.append_assoc, List.append_assoc]⟩
    · exact absurd (List.mem_singleton.mp hlast) hne

/-- So does one at the front, with the first bytes. -/
theorem IsReading.prefix_of_head? (h : IsReading bytes text) {char : Char} (hhead : text.head? = some char)
    (hne : char ≠ '\ufffd') : String.utf8EncodeChar char <+: bytes := by
  induction h with
  | nil => cases hhead
  | @char bytes text hfront last ih =>
    cases text with
    | cons first text => exact (ih hhead).trans (List.prefix_append _ _)
    | nil =>
      -- Nothing is read as nothing, so the character's own bytes are the first.
      obtain rfl : bytes = [] := List.eq_nil_of_length_eq_zero (Nat.le_zero.mp hfront.length_le)
      rw [Option.some.inj hhead]
      exact List.prefix_refl _
  | @replaced bytes text _ _ _ _ ih =>
    cases text with
    | cons first text => exact (ih hhead).trans (List.prefix_append _ _)
    | nil => exact absurd (Option.some.inj hhead).symm hne

end Reading

/-- Reading an encoded text in whatever way adds no character of one byte. -/
theorem IsReading.mem_of_ascii {text read : List Char} (h : IsReading (encode text) read)
    {char : Char} (hmem : char ∈ read) (hascii : char.toNat < 0x80) : char ∈ text := by
  have hne : char ≠ '\ufffd' := by
    rintro rfl
    exact absurd hascii (by decide)
  obtain ⟨front, back, hsplit⟩ := h.exists_bytes_of_mem hmem hne
  have hbyte := toNat_ofNat_byte (show char.toNat < 0x100 by omega)
  have hlt : UInt8.ofNat char.toNat < 0x80 := by
    rw [UInt8.lt_iff_toNat_lt, hbyte]
    exact hascii
  have hone := encodeChar_one hascii
  rw [Char.ofNat_toNat] at hone
  rw [hone, List.singleton_append] at hsplit
  have hread := congrArg lossy hsplit
  rw [lossy_encode, lossy_append_cons front hlt, hbyte, Char.ofNat_toNat] at hread
  rw [hread]
  exact List.mem_append_right _ List.mem_cons_self

/-- What it has at the front is a replacement, or the first character of the text. -/
theorem IsReading.head?_eq {text read : List Char} (h : IsReading (encode text) read) {char : Char}
    (hhead : read.head? = some char) (hne : char ≠ '\ufffd') : text.head? = some char := by
  obtain ⟨back, hback⟩ := h.prefix_of_head? hhead hne
  have hread := lossy_encode_append [char] back
  rw [encode_singleton, hback, lossy_encode] at hread
  rw [hread]
  rfl

/-- Bytes that stand for a text, from its first character to its last. -/
def IsWhole (bytes : List UInt8) : Prop := ∃ text, encode text = bytes

theorem isWhole_iff {bytes : List UInt8} : IsWhole bytes ↔ encode (lossy bytes) = bytes := by
  constructor
  · rintro ⟨text, rfl⟩
    rw [lossy_encode]
  · exact fun h => ⟨lossy bytes, h⟩

instance (bytes : List UInt8) : Decidable (IsWhole bytes) := decidable_of_iff _ isWhole_iff.symm

/-- What is read part by part is a reading of all of it. -/
theorem isReading_flatMap_lossy (parts : List (List UInt8)) :
    IsReading parts.flatten (parts.flatMap lossy) := by
  induction parts with
  | nil => exact .nil
  | cons part parts ih => exact (isReading_lossy part).append ih

/-- Parts are read as what they are together if and only if each of them is whole. -/
theorem encode_flatMap_lossy_iff {parts : List (List UInt8)} :
    encode (parts.flatMap lossy) = parts.flatten ↔ ∀ part ∈ parts, IsWhole part := by
  induction parts with
  | nil => exact ⟨fun _ => nofun, fun _ => rfl⟩
  | cons part parts ih =>
    rw [List.flatMap_cons, encode_append, List.flatten_cons, List.forall_mem_cons, ← ih,
      isWhole_iff]
    constructor
    · intro h
      -- No part has become shorter, and so none has become longer.
      have hfirst := (isReading_lossy part).length_le
      have hrest := (isReading_flatMap_lossy parts).length_le
      have hlength := congrArg List.length h
      rw [List.length_append, List.length_append] at hlength
      exact List.append_inj h (by omega)
    · rintro ⟨hpart, hparts⟩
      rw [hpart, hparts]

/-- An encoded text that is cut into parts is read back from these if and only if no cut falls
between the bytes of a character. -/
theorem flatMap_lossy_eq_iff {text : List Char} {parts : List (List UInt8)}
    (h : parts.flatten = encode text) :
    parts.flatMap lossy = text ↔ ∀ part ∈ parts, IsWhole part := by
  rw [← encode_flatMap_lossy_iff, h]
  constructor
  · intro hread
    rw [hread]
  · intro hencode
    have hread := congrArg lossy hencode
    rwa [lossy_encode, lossy_encode] at hread

end JarAudit.Text.Utf8
