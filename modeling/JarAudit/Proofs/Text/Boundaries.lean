import Mathlib.Data.List.Basic
import JarAudit.Proofs.Text.Utf8

/-!
# Offsets into UTF-8

A text may be held as its bytes in UTF-8 and be taken apart at byte offsets. An offset is a boundary
when no byte that goes on with a character stands there, and so exactly when a character begins or the
text ends there (`isBoundary_encode_iff`). A character below 0x80 has one byte, which belongs to no
other character (`ascii_mem_encode_iff`). So what finds the byte finds the character
(`idxOf?_encode`, `lastIdxOf?_encode`), and the byte in front of an offset tells whether such a
character stands there (`getElem?_encode_pred`).
-/

namespace JarAudit.Text.Utf8

/-- The one byte of a character below 0x80. -/
def ascii (char : Char) : UInt8 := UInt8.ofNat char.toNat

/-- Whether a byte goes on with a character that an earlier one has opened. -/
def continues (byte : UInt8) : Bool := 0x80 ≤ byte.toNat && byte.toNat < 0xC0

/-! ### The bytes of a character -/

section Character

variable {char other : Char} {byte : UInt8}

theorem toNat_ascii (h : char.toNat < 0x80) : (ascii char).toNat = char.toNat :=
  toNat_ofNat_byte (by omega)

theorem ascii_inj (h : char.toNat < 0x80) (hother : other.toNat < 0x80)
    (heq : ascii char = ascii other) : char = other := by
  have hvalue : char.toNat = other.toNat := by
    rw [← toNat_ascii h, ← toNat_ascii hother, heq]
  rw [← Char.ofNat_toNat char, hvalue, Char.ofNat_toNat]

theorem encodeChar_ascii (h : char.toNat < 0x80) : String.utf8EncodeChar char = [ascii char] := by
  have hone := encodeChar_one h
  rwa [Char.ofNat_toNat] at hone

theorem continues_ofNat (n : Nat) : continues (UInt8.ofNat (n % 64 + 128)) = true := by
  unfold continues
  rw [toNat_ofNat_byte (by omega), Bool.and_eq_true, decide_eq_true_iff, decide_eq_true_iff]
  omega

/-- A character from 0x80 on is opened by a byte from 0xC0 on, and the others go on with it. -/
theorem exists_opening_of_le (h : 0x80 ≤ char.toNat) :
    ∃ first more, String.utf8EncodeChar char = first :: more ∧ 0xC0 ≤ first.toNat ∧
      ∀ byte ∈ more, continues byte = true := by
  have hone : ¬ char.val.toNat ≤ 127 := Nat.not_le.mpr h
  unfold String.utf8EncodeChar
  rw [if_neg hone]
  split_ifs
  -- However many bytes there are, each behind the first has six bits of the value.
  all_goals
    refine ⟨_, _, rfl, ?_, ?_⟩
    · rw [toNat_ofNat_byte (by omega)]
      omega
    · simp only [List.forall_mem_cons, continues_ofNat, List.not_mem_nil, false_imp_iff,
        implies_true, and_self]

/-- No byte of a character from 0x80 on is below 0x80. -/
theorem le_of_mem_encodeChar (h : 0x80 ≤ char.toNat) (hmem : byte ∈ String.utf8EncodeChar char) :
    0x80 ≤ byte.toNat := by
  obtain ⟨first, more, hbytes, hfirst, hmore⟩ := exists_opening_of_le h
  rw [hbytes] at hmem
  rcases List.mem_cons.mp hmem with rfl | hmem
  · omega
  · have hbyte := hmore byte hmem
    rw [continues, Bool.and_eq_true, decide_eq_true_iff] at hbyte
    exact hbyte.1

/-- A character is opened by a byte that goes on with none, and the others go on with it. -/
theorem exists_opening (char : Char) :
    ∃ first more, String.utf8EncodeChar char = first :: more ∧ continues first = false ∧
      ∀ byte ∈ more, continues byte = true := by
  rcases Nat.lt_or_ge char.toNat 0x80 with h | h
  · refine ⟨ascii char, [], encodeChar_ascii h, ?_, nofun⟩
    unfold continues
    rw [toNat_ascii h, decide_eq_false (Nat.not_le.mpr h), Bool.false_and]
  · obtain ⟨first, more, hbytes, hfirst, hmore⟩ := exists_opening_of_le h
    refine ⟨first, more, hbytes, ?_, hmore⟩
    unfold continues
    rw [decide_eq_false (Nat.not_lt.mpr hfirst), Bool.and_false]

/-- The byte of a character below 0x80 belongs to that character alone. -/
theorem ascii_mem_encodeChar_iff (h : char.toNat < 0x80) :
    ascii char ∈ String.utf8EncodeChar other ↔ char = other := by
  constructor
  · intro hmem
    rcases Nat.lt_or_ge other.toNat 0x80 with hother | hother
    · rw [encodeChar_ascii hother, List.mem_singleton] at hmem
      exact ascii_inj h hother hmem
    · have hle := le_of_mem_encodeChar hother hmem
      rw [toNat_ascii h] at hle
      omega
  · rintro rfl
    rw [encodeChar_ascii h]
    exact List.mem_singleton_self _

end Character

theorem encode_cons (char : Char) (text : List Char) :
    encode (char :: text) = String.utf8EncodeChar char ++ encode text :=
  List.flatMap_cons

theorem isEmpty_encode (text : List Char) : (encode text).isEmpty = text.isEmpty := by
  cases text with
  | nil => rfl
  | cons char text =>
    obtain ⟨first, more, hbytes, -⟩ := exists_opening char
    rw [encode_cons, hbytes]
    rfl

/-! ### Boundaries -/

/-- Whether an offset is the place of a character's first byte, or the end of the bytes. -/
def isBoundary (bytes : List UInt8) (offset : Nat) : Bool :=
  match bytes[offset]? with
  | some byte => !continues byte
  | none => offset == bytes.length

theorem isBoundary_append (front bytes : List UInt8) (offset : Nat) :
    isBoundary (front ++ bytes) (front.length + offset) = isBoundary bytes offset := by
  unfold isBoundary
  rw [List.getElem?_append_right (Nat.le_add_right _ _), Nat.add_sub_cancel_left,
    List.length_append]
  cases bytes[offset]? with
  | some byte => rfl
  | none => exact Bool.eq_iff_iff.mpr (by simp)

theorem isBoundary_encode_zero (text : List Char) : isBoundary (encode text) 0 = true := by
  cases text with
  | nil => rfl
  | cons char text =>
    obtain ⟨first, more, hbytes, hfirst, -⟩ := exists_opening char
    rw [encode_cons, hbytes, List.cons_append]
    show (!continues first) = true
    rw [hfirst]
    rfl

/-- The boundaries in a text are the offsets behind its beginnings. -/
theorem isBoundary_encode_iff {text : List Char} {offset : Nat} :
    isBoundary (encode text) offset = true ↔
      ∃ front back, text = front ++ back ∧ (encode front).length = offset := by
  constructor
  · intro h
    induction text generalizing offset with
    | nil =>
      have hnil : isBoundary [] offset = true := h
      rw [isBoundary, List.getElem?_nil] at hnil
      exact ⟨[], [], rfl, (beq_iff_eq.mp hnil).symm⟩
    | cons char text ih =>
      obtain ⟨first, more, hbytes, -, hmore⟩ := exists_opening char
      have hencode : encode (char :: text) = first :: more ++ encode text := by
        rw [encode_cons, hbytes]
      cases offset with
      | zero => exact ⟨[], char :: text, rfl, rfl⟩
      | succ offset =>
        rcases Nat.lt_or_ge offset more.length with hinside | hbehind
        · -- Here stands a byte that goes on with the character.
          have hbyte : (encode (char :: text))[offset + 1]? = some more[offset] := by
            rw [hencode, List.cons_append, List.getElem?_cons_succ,
              List.getElem?_append_left hinside, List.getElem?_eq_getElem hinside]
          have hcontinues := hmore _ (List.getElem_mem hinside)
          rw [isBoundary, hbyte] at h
          dsimp only at h
          rw [hcontinues] at h
          cases h
        · have hlength : (first :: more).length + (offset - more.length) = offset + 1 := by
            rw [List.length_cons]
            omega
          rw [hencode, ← hlength, isBoundary_append] at h
          obtain ⟨front, back, rfl, hfront⟩ := ih h
          refine ⟨char :: front, back, rfl, ?_⟩
          rw [encode_cons, List.length_append, hbytes, ← hlength, ← hfront]
  · rintro ⟨front, back, rfl, rfl⟩
    rw [encode_append, show (encode front).length = (encode front).length + 0 from rfl,
      isBoundary_append]
    exact isBoundary_encode_zero back

/-- What goes wrong when bytes are asked for at offsets where there are none to be had. -/
inductive OffsetFault where
  | slice (start stop : Nat)
  | byte (offset : Nat)
  deriving DecidableEq, Repr

/-- The bytes between two offsets, which both have to be boundaries. -/
def slice (bytes : List UInt8) (start stop : Nat) : Except OffsetFault (List UInt8) :=
  if start ≤ stop ∧ isBoundary bytes start ∧ isBoundary bytes stop then
    .ok ((bytes.take stop).drop start)
  else .error (.slice start stop)

/-- A part of a text is found between the offsets at which it begins and ends. -/
theorem slice_encode (front middle back : List Char) :
    slice (encode (front ++ (middle ++ back))) (encode front).length
      (encode (front ++ middle)).length = .ok (encode middle) := by
  have hstart : isBoundary (encode (front ++ (middle ++ back))) (encode front).length = true :=
    isBoundary_encode_iff.mpr ⟨front, middle ++ back, rfl, rfl⟩
  have hstop : isBoundary (encode (front ++ (middle ++ back)))
      (encode (front ++ middle)).length = true :=
    isBoundary_encode_iff.mpr ⟨front ++ middle, back, (List.append_assoc _ _ _).symm, rfl⟩
  have hpart : encode (front ++ middle) = encode front ++ encode middle := encode_append _ _
  have hle : (encode front).length ≤ (encode (front ++ middle)).length := by
    rw [hpart, List.length_append]
    exact Nat.le_add_right _ _
  rw [slice, if_pos ⟨hle, hstart, hstop⟩, ← List.append_assoc, encode_append _ back,
    List.take_left' rfl, hpart, List.drop_left' rfl]

/-- So is all that stands behind an offset. -/
theorem slice_encode_end (front back : List Char) :
    slice (encode (front ++ back)) (encode front).length (encode (front ++ back)).length =
      .ok (encode back) := by
  have h := slice_encode front back []
  rwa [List.append_nil] at h

theorem length_of_slice {bytes part : List UInt8} {start stop : Nat}
    (h : slice bytes start stop = .ok part) : start + part.length = stop ∧ stop ≤ bytes.length := by
  unfold slice at h
  split at h
  case isFalse => cases h
  case isTrue hbounds =>
    obtain ⟨hle, -, hstop⟩ := hbounds
    have hlength : stop ≤ bytes.length := by
      unfold isBoundary at hstop
      split at hstop
      case h_1 hbyte => exact Nat.le_of_lt (List.getElem?_eq_some_iff.mp hbyte).1
      case h_2 => exact Nat.le_of_eq (beq_iff_eq.mp hstop)
    obtain rfl := Except.ok.inj h
    rw [List.length_drop, List.length_take]
    omega

/-! ### Characters below 0x80 -/

section Ascii

variable {char : Char} {front back text : List Char}

theorem ascii_mem_encode_iff (h : char.toNat < 0x80) : ascii char ∈ encode text ↔ char ∈ text := by
  unfold encode
  rw [List.mem_flatMap]
  constructor
  · rintro ⟨other, hmem, hbyte⟩
    rwa [(ascii_mem_encodeChar_iff h).mp hbyte]
  · intro hmem
    exact ⟨char, hmem, (ascii_mem_encodeChar_iff h).mpr rfl⟩

theorem encode_append_cons (h : char.toNat < 0x80) (front back : List Char) :
    encode (front ++ char :: back) = encode front ++ ascii char :: encode back := by
  rw [encode_append, ← List.singleton_append, encode_append, encode_singleton, encodeChar_ascii h]
  rfl

theorem length_encode_concat (h : char.toNat < 0x80) (front : List Char) :
    (encode (front ++ [char])).length = (encode front).length + 1 := by
  rw [encode_append_cons h, List.length_append]
  rfl

/-- A part that begins behind such a character begins one byte further on. -/
theorem slice_encode_behind (h : char.toNat < 0x80) (front middle back : List Char) :
    slice (encode (front ++ char :: (middle ++ back))) ((encode front).length + 1)
      (encode (front ++ char :: middle)).length = .ok (encode middle) := by
  have hslice := slice_encode (front ++ [char]) middle back
  rwa [length_encode_concat h, List.append_assoc, List.append_assoc, List.singleton_append,
    List.singleton_append] at hslice

theorem slice_encode_behind_end (h : char.toNat < 0x80) (front back : List Char) :
    slice (encode (front ++ char :: back)) ((encode front).length + 1)
      (encode (front ++ char :: back)).length = .ok (encode back) := by
  have hslice := slice_encode_behind h front back []
  rwa [List.append_nil] at hslice

/-- The offset of a byte's last occurrence. -/
def lastIdxOf? (byte : UInt8) (bytes : List UInt8) : Option Nat :=
  (bytes.reverse.idxOf? byte).map fun behind => bytes.length - (behind + 1)

theorem idxOf?_append_cons {byte : UInt8} {front : List UInt8} (h : byte ∉ front)
    (back : List UInt8) : (front ++ byte :: back).idxOf? byte = some front.length := by
  rw [List.idxOf?_eq_some_iff]
  refine ⟨by simp, by simp, fun other hother heq => h ?_⟩
  rw [← heq, List.getElem_append_left hother]
  exact List.getElem_mem hother

/-- The first byte of a kind stands where the first such character does. -/
theorem idxOf?_encode (h : char.toNat < 0x80) (hfront : char ∉ front) (back : List Char) :
    (encode (front ++ char :: back)).idxOf? (ascii char) = some (encode front).length := by
  rw [encode_append_cons h]
  exact idxOf?_append_cons (mt (ascii_mem_encode_iff h).mp hfront) _

theorem idxOf?_encode_of_not_mem (h : char.toNat < 0x80) (htext : char ∉ text) :
    (encode text).idxOf? (ascii char) = none :=
  List.idxOf?_eq_none_iff.mpr (mt (ascii_mem_encode_iff h).mp htext)

/-- The last byte of a kind stands where the last such character does. -/
theorem lastIdxOf?_encode (h : char.toNat < 0x80) (front : List Char) (hback : char ∉ back) :
    lastIdxOf? (ascii char) (encode (front ++ char :: back)) = some (encode front).length := by
  have hnot : ascii char ∉ (encode back).reverse := by
    rw [List.mem_reverse, ascii_mem_encode_iff h]
    exact hback
  have hreverse : (encode (front ++ char :: back)).reverse =
      (encode back).reverse ++ ascii char :: (encode front).reverse := by
    rw [encode_append_cons h, List.reverse_append, List.reverse_cons, List.append_assoc,
      List.singleton_append]
  -- From the end the last such byte is the first.
  rw [lastIdxOf?, hreverse, idxOf?_append_cons hnot, Option.map_some, encode_append_cons h,
    List.length_append, List.length_cons, List.length_reverse]
  congr 1
  omega

theorem lastIdxOf?_encode_of_not_mem (h : char.toNat < 0x80) (htext : char ∉ text) :
    lastIdxOf? (ascii char) (encode text) = none := by
  have hnot : ascii char ∉ (encode text).reverse := by
    rw [List.mem_reverse, ascii_mem_encode_iff h]
    exact htext
  rw [lastIdxOf?, List.idxOf?_eq_none_iff.mpr hnot, Option.map_none]

/-- Among characters below 0x80 a byte of a character is found just when the character is. -/
theorem contains_map_ascii {signs : List Char} (hsigns : ∀ sign ∈ signs, sign.toNat < 0x80)
    {byte : UInt8} (hbyte : byte ∈ String.utf8EncodeChar char) :
    (signs.map ascii).contains byte = signs.contains char := by
  rw [Bool.eq_iff_iff, List.contains_iff_mem, List.contains_iff_mem, List.mem_map]
  constructor
  · rintro ⟨sign, hsign, rfl⟩
    rwa [← (ascii_mem_encodeChar_iff (hsigns sign hsign)).mp hbyte]
  · intro hchar
    rw [encodeChar_ascii (hsigns char hchar), List.mem_singleton] at hbyte
    exact ⟨char, hchar, hbyte.symm⟩

/-- In front of an offset stands a byte of the character in front of it. -/
theorem getElem?_encode_pred (front : List Char) (char : Char) (back : List Char) :
    ∃ byte ∈ String.utf8EncodeChar char,
      (encode (front ++ [char] ++ back))[(encode (front ++ [char])).length - 1]? = some byte := by
  obtain ⟨first, more, hbytes, -, -⟩ := exists_opening char
  have hencode : encode (front ++ [char]) = encode front ++ (first :: more) := by
    rw [encode_append, encode_singleton, hbytes]
  have hlength : (encode (front ++ [char])).length - 1 = (encode front).length + more.length := by
    rw [hencode, List.length_append, List.length_cons]
    omega
  obtain ⟨byte, hbyte⟩ : ∃ byte, (first :: more)[more.length]? = some byte :=
    ⟨_, List.getElem?_eq_getElem (by simp)⟩
  refine ⟨byte, ?_, ?_⟩
  · rw [hbytes]
    exact List.mem_of_getElem? hbyte
  · rw [encode_append, hlength, hencode, List.append_assoc,
      List.getElem?_append_right (Nat.le_add_right _ _), Nat.add_sub_cancel_left,
      List.getElem?_append_left (by simp), hbyte]

end Ascii

end JarAudit.Text.Utf8
