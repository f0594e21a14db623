import JarAudit.Text.Utf16

/-!
# Units by their neighbours

`Utf16.decode` goes through the units once and takes a surrogate pair in one step. What it finds can
be said without an order of reading: each unit stands for something that only the unit before it and
the unit behind it decide (`valuesBetween`). Since no unit is both a high and a low surrogate, pairs
do not overlap, and the two agree on every sequence of units (`map_toNat_decode`), also on runs such
as two high surrogates before a low one.

Values are numbers here and not characters, so that nothing is lost where a number is no character.
-/

namespace JarAudit.Text.Utf16

/-! ### What a unit stands for -/

/-- The value of a surrogate pair. -/
def pairValue (high low : UInt16) : Nat :=
  0x10000 + (high.toNat - 0xD800) * 0x400 + (low.toNat - 0xDC00)

/-- The values that a unit stands for between its neighbours. A high surrogate with a low one behind
it stands for the pair, and that low one for nothing more. Any other surrogate stands for the
replacement character, and any other unit for itself. -/
def valuesBetween (before : Option UInt16) (unit : UInt16) (behind : Option UInt16) : List Nat :=
  if isHigh unit then
    match behind.filter isLow with
    | some low => [pairValue unit low]
    | none => [0xFFFD]
  else if isLow unit then
    if before.any isHigh then [] else [0xFFFD]
  else [unit.toNat]

/-- The values of the units that stand behind `before`. -/
def valuesBehind (before : Option UInt16) : List UInt16 → List Nat
  | [] => []
  | unit :: rest => valuesBetween before unit rest.head? ++ valuesBehind (some unit) rest

/-- The values that a sequence of units stands for. -/
def values (units : List UInt16) : List Nat := valuesBehind none units

/-! ### Characters and their numbers -/

theorem isHigh_iff {unit : UInt16} :
    isHigh unit = true ↔ 0xD800 ≤ unit.toNat ∧ unit.toNat < 0xDC00 := by
  simp [isHigh, UInt16.le_iff_toNat_le, UInt16.lt_iff_toNat_lt]

theorem isLow_iff {unit : UInt16} :
    isLow unit = true ↔ 0xDC00 ≤ unit.toNat ∧ unit.toNat < 0xE000 := by
  simp [isLow, UInt16.le_iff_toNat_le, UInt16.lt_iff_toNat_lt]

theorem not_isLow_of_isHigh {unit : UInt16} (h : isHigh unit = true) : isLow unit = false := by
  rw [isHigh_iff] at h
  rw [← Bool.not_eq_true, isLow_iff]
  omega

theorem toNat_ofNat_of_isValidChar {n : Nat} (h : n.isValidChar) : (Char.ofNat n).toNat = n := by
  rw [Char.ofNat, dif_pos h]
  rfl

/-- A unit that is no surrogate is the number of a character. -/
theorem toNat_ofNat_unit {unit : UInt16} (hhigh : isHigh unit = false) (hlow : isLow unit = false) :
    (Char.ofNat unit.toNat).toNat = unit.toNat := by
  rw [← Bool.not_eq_true, isHigh_iff] at hhigh
  rw [← Bool.not_eq_true, isLow_iff] at hlow
  have hlt := unit.toNat_lt
  apply toNat_ofNat_of_isValidChar
  rw [Nat.isValidChar]
  omega

/-- The value of a surrogate pair is the number of a character. -/
theorem toNat_pair {high low : UInt16} (hhigh : isHigh high = true) (hlow : isLow low = true) :
    (pair high low).toNat = pairValue high low := by
  rw [isHigh_iff] at hhigh
  rw [isLow_iff] at hlow
  apply toNat_ofNat_of_isValidChar
  rw [Nat.isValidChar]
  omega

/-! ### Decoding -/

/-- The character of a unit that stands alone. -/
def loneChar (unit : UInt16) : Char :=
  if isHigh unit || isLow unit then replacement else Char.ofNat unit.toNat

theorem decodeOnto_pair {high low : UInt16} (hhigh : isHigh high = true) (hlow : isLow low = true)
    (read : List Char) (rest : List UInt16) :
    decodeOnto read (high :: low :: rest) = decodeOnto (pair high low :: read) rest := by
  rw [decodeOnto, if_pos hhigh, if_pos hlow]

/-- A unit that opens no pair is read alone. -/
theorem decodeOnto_lone {unit : UInt16} {rest : List UInt16}
    (h : isHigh unit = true → rest.head?.any isLow = false) (read : List Char) :
    decodeOnto read (unit :: rest) = decodeOnto (loneChar unit :: read) rest := by
  cases rest with
  | nil => rfl
  | cons next rest =>
    rw [decodeOnto, loneChar]
    cases hhigh : isHigh unit with
    | true =>
      have hnext : isLow next = false := h hhigh
      simp [hnext]
    | false => cases hlow : isLow unit <;> simp

theorem valuesBetween_pair {high low : UInt16} (hhigh : isHigh high = true)
    (hlow : isLow low = true) (before : Option UInt16) :
    valuesBetween before high (some low) = [pairValue high low] := by
  simp [valuesBetween, hhigh, Option.filter, hlow]

theorem valuesBetween_low {high low : UInt16} (hhigh : isHigh high = true)
    (hlow : isLow low = true) (behind : Option UInt16) :
    valuesBetween (some high) low behind = [] := by
  have hnot : isHigh low = false := by
    rw [← Bool.not_eq_true]
    intro h
    rw [not_isLow_of_isHigh h] at hlow
    cases hlow
  simp [valuesBetween, hhigh, hlow, hnot]

/-- Outside of pairs a unit has the value of its character. -/
theorem valuesBetween_lone {before behind : Option UInt16} {unit : UInt16}
    (hbefore : before.any isHigh = true → isLow unit = false)
    (hbehind : isHigh unit = true → behind.any isLow = false) :
    valuesBetween before unit behind = [(loneChar unit).toNat] := by
  rw [valuesBetween, loneChar]
  cases hhigh : isHigh unit with
  | true =>
    have hfilter : behind.filter isLow = none := by
      have hany := hbehind hhigh
      cases behind with
      | none => rfl
      | some next => simpa [Option.filter] using hany
    rw [hfilter]
    rfl
  | false =>
    cases hlow : isLow unit with
    | true =>
      have hfirst : before.any isHigh = false := by
        rw [← Bool.not_eq_true]
        intro h
        rw [hbefore h] at hlow
        cases hlow
      rw [hfirst]
      rfl
    | false => simp [toNat_ofNat_unit hhigh hlow]

/-- The units in front of the reader have the values that their neighbours give them, as long as the
reader does not stand inside a pair. -/
theorem map_toNat_decodeOnto (read : List Char) (units : List UInt16) (before : Option UInt16)
    (h : before.any isHigh = true → units.head?.any isLow = false) :
    (decodeOnto read units).map Char.toNat =
      read.reverse.map Char.toNat ++ valuesBehind before units := by
  -- On the length, since a pair takes two units at once.
  induction hlength : units.length using Nat.strongRecOn generalizing read units before with
  | _ length ih =>
    subst hlength
    cases units with
    | nil => simp [decodeOnto, valuesBehind]
    | cons unit rest =>
      by_cases hpair : isHigh unit = true ∧ rest.head?.any isLow = true
      · obtain ⟨hhigh, hany⟩ := hpair
        obtain ⟨low, behind, rfl⟩ : ∃ low behind, rest = low :: behind := by
          cases rest with
          | nil => cases hany
          | cons low behind => exact ⟨low, behind, rfl⟩
        have hlow : isLow low = true := hany
        -- Behind the low surrogate the reader is outside of the pair.
        have hbehind : (some low).any isHigh = true → behind.head?.any isLow = false := by
          intro hnot
          rw [not_isLow_of_isHigh hnot] at hlow
          cases hlow
        have hshorter : behind.length < (unit :: low :: behind).length := by
          simp only [List.length_cons]
          omega
        rw [decodeOnto_pair hhigh hlow, ih _ hshorter _ _ (some low) hbehind rfl]
        simp [valuesBehind, valuesBetween_pair hhigh hlow, valuesBetween_low hhigh hlow,
          toNat_pair hhigh hlow]
      · have hbehind : isHigh unit = true → rest.head?.any isLow = false := by
          intro hhigh
          rw [← Bool.not_eq_true]
          exact fun hany => hpair ⟨hhigh, hany⟩
        rw [decodeOnto_lone hbehind, ih _ (by simp) _ _ (some unit) hbehind rfl]
        simp [valuesBehind, valuesBetween_lone h hbehind]

/-- The text of a sequence of units has the characters that the units stand for. -/
theorem map_toNat_decode (units : List UInt16) :
    (decode units).toList.map Char.toNat = values units := by
  rw [decode, String.toList_ofList, map_toNat_decodeOnto [] units none (by simp)]
  rfl

/-! ### Units of a text -/

/-- The units of a character are read as this character, whatever stands behind them. -/
theorem decodeOnto_unitsOf (read : List Char) (char : Char) (rest : List UInt16) :
    decodeOnto read (unitsOf char ++ rest) = decodeOnto (char :: read) rest := by
  have hvalid : char.toNat.isValidChar := char.valid
  rw [Nat.isValidChar] at hvalid
  rw [unitsOf]
  split
  case isTrue hlt =>
    have hunit : (UInt16.ofNat char.toNat).toNat = char.toNat := UInt16.toNat_ofNat_of_lt' hlt
    have hhigh : isHigh (UInt16.ofNat char.toNat) = false := by
      rw [← Bool.not_eq_true, isHigh_iff, hunit]
      omega
    have hlow : isLow (UInt16.ofNat char.toNat) = false := by
      rw [← Bool.not_eq_true, isLow_iff, hunit]
      omega
    rw [List.singleton_append, decodeOnto_lone (by simp [hhigh]), loneChar, hhigh, hlow, hunit]
    simp
  case isFalse hge =>
    have habove : (char.toNat - 0x10000) / 0x400 < 0x400 := by omega
    have hhigh : (UInt16.ofNat (0xD800 + (char.toNat - 0x10000) / 0x400)).toNat =
        0xD800 + (char.toNat - 0x10000) / 0x400 :=
      UInt16.toNat_ofNat_of_lt' (by rw [UInt16.size]; omega)
    have hlow : (UInt16.ofNat (0xDC00 + (char.toNat - 0x10000) % 0x400)).toNat =
        0xDC00 + (char.toNat - 0x10000) % 0x400 :=
      UInt16.toNat_ofNat_of_lt' (by rw [UInt16.size]; omega)
    rw [List.cons_append, List.singleton_append,
      decodeOnto_pair (by rw [isHigh_iff, hhigh]; omega) (by rw [isLow_iff, hlow]; omega), pair,
      hhigh, hlow]
    have hvalue : 0x10000 + (0xD800 + (char.toNat - 0x10000) / 0x400 - 0xD800) * 0x400 +
        (0xDC00 + (char.toNat - 0x10000) % 0x400 - 0xDC00) = char.toNat := by omega
    rw [hvalue, Char.ofNat_toNat]

/-- A text is what its units are read as. -/
theorem decode_encode (text : String) : decode (encode text) = text := by
  have hchars : ∀ (chars read : List Char),
      decodeOnto read (chars.flatMap unitsOf) = read.reverse ++ chars := by
    intro chars
    induction chars with
    | nil => simp [decodeOnto]
    | cons char chars ih =>
      intro read
      rw [List.flatMap_cons, decodeOnto_unitsOf, ih]
      simp
  rw [decode, encode, hchars, List.reverse_nil, List.nil_append, String.ofList_toList]

end JarAudit.Text.Utf16
