import Mathlib.Algebra.GroupWithZero.Nat
import Mathlib.Tactic.SplitIfs
import JarAudit.Proofs.Jar

/-!
# What extra fields tell

Reading the extra fields of a record only completes it, whatever bytes there are: a number that fits
into the record is kept, and so is the method unless a cipher is told (`completes_of_addFields`).
The numbers that do not fit are read back as they were written, with any fields of other kinds around
them (`addFields_narrow`). A field that tells a cipher takes up seven bytes more than it has, so the
field behind it is not read from its beginning (`addFields_cipher`).
-/

namespace JarAudit.Zip

/-! ### Numbers as bytes -/

/-- A number in so many bytes, the least significant byte first. -/
def littleEndianBytes : (width value : Nat) → List UInt8
  | 0, _ => []
  | width + 1, value => UInt8.ofNat value :: littleEndianBytes width (value / 256)

@[simp] theorem length_littleEndianBytes (width value : Nat) :
    (littleEndianBytes width value).length = width := by
  induction width generalizing value with
  | zero => rfl
  | succ width ih => rw [littleEndianBytes, List.length_cons, ih]

theorem littleEndian_littleEndianBytes {width value : Nat} (h : value < 256 ^ width) :
    littleEndian (littleEndianBytes width value) = value := by
  induction width generalizing value with
  | zero => rw [littleEndianBytes]; simp at h; simp [littleEndian, h]
  | succ width ih =>
    have hrest : value / 256 < 256 ^ width := by
      rw [Nat.div_lt_iff_lt_mul (by decide), ← Nat.pow_succ]
      exact h
    have hcons : littleEndian (littleEndianBytes (width + 1) value) =
        (UInt8.ofNat value).toNat + 256 * littleEndian (littleEndianBytes width (value / 256)) := rfl
    rw [hcons, ih hrest, UInt8.toNat_ofNat']
    exact Nat.mod_add_div value 256

namespace Details

variable {noted details : Details}

/-! ### Any bytes -/

/-- The details are the noted ones except where more has been told. -/
structure Completes (noted details : Details) : Prop where
  size : noted.size ≠ saturated → details.size = noted.size
  compressedSize : noted.compressedSize ≠ saturated → details.compressedSize = noted.compressedSize
  headerOffset : noted.headerOffset ≠ saturated → details.headerOffset = noted.headerOffset
  method : details.tellsCipher = false → details.method = noted.method
  tellsCipher : noted.tellsCipher = true → details.tellsCipher = true

theorem Completes.refl (details : Details) : Completes details details :=
  ⟨fun _ => rfl, fun _ => rfl, fun _ => rfl, fun _ => rfl, id⟩

theorem Completes.trans {first second third : Details} (h : Completes first second)
    (h' : Completes second third) : Completes first third where
  size hfits := by
    have hsame := h.size hfits
    rw [h'.size (hsame ▸ hfits), hsame]
  compressedSize hfits := by
    have hsame := h.compressedSize hfits
    rw [h'.compressedSize (hsame ▸ hfits), hsame]
  headerOffset hfits := by
    have hsame := h.headerOffset hfits
    rw [h'.headerOffset (hsame ▸ hfits), hsame]
  method hplain := by
    have hbefore : second.tellsCipher = false := by
      cases htells : second.tellsCipher with
      | false => rfl
      | true => rw [h'.tellsCipher htells] at hplain; exact hplain
    rw [h'.method hplain, h.method hbefore]
  tellsCipher htells := h'.tellsCipher (h.tellsCipher htells)

theorem fst_of_widen {number value taken : Nat} {bytes : List UInt8}
    (h : Zip.widen number bytes = some (value, taken)) (hfits : number ≠ saturated) :
    value = number := by
  rw [Zip.widen, if_pos hfits] at h
  exact (Prod.mk.inj (Option.some.inj h)).1.symm

theorem completes_widen (details : Details) (content : List UInt8) :
    Completes details (details.widen content).1 := by
  rw [widen]
  split
  · exact .refl details
  next size first hsize =>
    split
    · exact ⟨fst_of_widen hsize, fun _ => rfl, fun _ => rfl, fun _ => rfl, id⟩
    next compressedSize second hcompressed =>
      split
      · exact ⟨fst_of_widen hsize, fst_of_widen hcompressed, fun _ => rfl, fun _ => rfl, id⟩
      next headerOffset third hoffset =>
        exact ⟨fst_of_widen hsize, fst_of_widen hcompressed, fst_of_widen hoffset, fun _ => rfl, id⟩

theorem completes_of_tellCipher {content : List UInt8}
    (h : noted.tellCipher content = .ok (some details)) : Completes noted details := by
  rw [tellCipher.eq_def] at h
  split at h
  · split_ifs at h
    obtain rfl := Option.some.inj (Except.ok.inj h)
    exact ⟨fun _ => rfl, fun _ => rfl, fun _ => rfl, nofun, fun _ => rfl⟩
  · cases h

/-- One field completes the details. -/
theorem completes_of_addField {kind length : Nat} {content : List UInt8} {taken : Option Nat}
    (h : noted.addField kind length content = .ok (details, taken)) : Completes noted details := by
  rw [addField] at h
  split_ifs at h
  · cases h
    exact completes_widen noted content
  · obtain ⟨told, htold, hdetails⟩ := bind_eq_ok.mp h
    cases told with
    | none => cases hdetails; exact .refl noted
    | some told => cases hdetails; exact completes_of_tellCipher htold
  · cases h
    exact .refl noted

/-- Whatever bytes the extra fields are, they complete the details. -/
theorem completes_of_addFields {skipped : Nat} {bytes : List UInt8}
    (h : noted.addFields skipped bytes = .ok details) : Completes noted details := by
  -- On the bytes that are left, as the reading goes; each field completes what is told so far.
  fun_induction addFields noted skipped bytes with
  | case1 => cases h; exact .refl _
  | case2 noted first rest skipped ih => exact ih h
  | case3 noted first kind length length' content ih =>
    obtain ⟨⟨told, taken⟩, htold, hrest⟩ := bind_eq_ok.mp h
    have hfirst := completes_of_addField htold
    cases taken with
    | none => cases hrest; exact hfirst
    | some taken => exact hfirst.trans (ih told taken hrest)
  | case4 => cases h; exact .refl _

end Details

/-! ### Fields as they are written -/

/-- An extra field; its kind and its length have two bytes each. -/
structure Field where
  kind : Nat
  content : List UInt8
  kind_lt : kind < 0x10000
  length_lt : content.length < 0x10000

/-- The bytes of a field. -/
def Field.bytes (field : Field) : List UInt8 :=
  littleEndianBytes 2 field.kind ++ littleEndianBytes 2 field.content.length ++ field.content

/-- The field neither gives numbers nor tells a cipher. -/
def Field.IsOther (field : Field) : Prop :=
  field.kind ≠ Details.wideKind ∧ field.kind ≠ Details.cipherKind

/-- A number as far as it fits into four bytes. -/
def narrow (number : Nat) : Nat := min number saturated

/-- The bytes of a number that does not fit into four bytes. -/
def wideBytes (number : Nat) : List UInt8 :=
  if number < saturated then [] else littleEndianBytes 8 number

theorem widen_narrow {number : Nat} (h : number < 256 ^ 8) (behind : List UInt8) :
    widen (narrow number) (wideBytes number ++ behind) = some (number, (wideBytes number).length) := by
  by_cases hsmall : number < saturated
  · have hnarrow : narrow number = number := Nat.min_eq_left (Nat.le_of_lt hsmall)
    rw [widen, wideBytes, if_pos hsmall, hnarrow, if_pos (Nat.ne_of_lt hsmall)]
    rfl
  · have hnarrow : narrow number = saturated := Nat.min_eq_right (Nat.le_of_not_lt hsmall)
    have htake : (littleEndianBytes 8 number ++ behind).take 8 = littleEndianBytes 8 number :=
      List.take_left' (length_littleEndianBytes 8 number)
    rw [widen, wideBytes, if_neg hsmall, hnarrow, if_neg (not_not.mpr rfl), htake,
      length_littleEndianBytes, if_neg (Nat.lt_irrefl 8), littleEndian_littleEndianBytes h]

namespace Details

variable {details : Details} {field : Field}

/-- Past the bytes that are passed over the reading goes on. -/
theorem addFields_drop (details : Details) (skipped : Nat) (bytes : List UInt8) :
    details.addFields skipped bytes = details.addFields 0 (bytes.drop skipped) := by
  induction bytes generalizing skipped with
  | nil => rw [List.drop_nil, addFields, addFields]
  | cons first rest ih =>
    cases skipped with
    | zero => rfl
    | succ skipped => rw [addFields, ih, List.drop_succ_cons]

/-- Reading goes on behind a field according to how many bytes the field takes up. -/
theorem addFields_append {told : Details} {taken : Nat} {behind : List UInt8}
    (h : details.addField field.kind field.content.length (field.content ++ behind) =
      .ok (told, some taken)) :
    details.addFields 0 (field.bytes ++ behind) =
      told.addFields 0 ((field.content ++ behind).drop taken) := by
  have hkind : littleEndian (littleEndianBytes 2 field.kind) = field.kind :=
    littleEndian_littleEndianBytes field.kind_lt
  have hlength : littleEndian (littleEndianBytes 2 field.content.length) = field.content.length :=
    littleEndian_littleEndianBytes field.length_lt
  simp only [littleEndianBytes] at hkind hlength
  simp only [Field.bytes, littleEndianBytes, List.cons_append, List.nil_append]
  rw [addFields, hkind, hlength, h]
  exact addFields_drop told taken _

/-- Fields of other kinds change nothing. -/
theorem addFields_others {fields : List Field} (h : ∀ field ∈ fields, field.IsOther)
    (details : Details) (behind : List UInt8) :
    details.addFields 0 (fields.flatMap Field.bytes ++ behind) = details.addFields 0 behind := by
  induction fields with
  | nil => rfl
  | cons field fields ih =>
    obtain ⟨⟨hwide, hcipher⟩, hrest⟩ := List.forall_mem_cons.mp h
    have hfield : details.addField field.kind field.content.length
        (field.content ++ (fields.flatMap Field.bytes ++ behind)) =
          .ok (details, some field.content.length) := by
      rw [addField, if_neg hwide, if_neg hcipher]
    rw [List.flatMap_cons, List.append_assoc, addFields_append hfield, List.drop_left, ih hrest]

/-- The details as far as their numbers fit into four bytes each. -/
def narrow (details : Details) : Details :=
  { details with
    compressedSize := Zip.narrow details.compressedSize
    size := Zip.narrow details.size
    headerOffset := Zip.narrow details.headerOffset }

/-- The numbers that do not fit into four bytes. -/
def wideContent (details : Details) : List UInt8 :=
  wideBytes details.size ++ (wideBytes details.compressedSize ++ wideBytes details.headerOffset)

/-- The numbers fit into eight bytes. -/
structure Fits (details : Details) : Prop where
  size : details.size < 256 ^ 8
  compressedSize : details.compressedSize < 256 ^ 8
  headerOffset : details.headerOffset < 256 ^ 8

theorem widen_wideContent (h : details.Fits) (behind : List UInt8) :
    details.narrow.widen (details.wideContent ++ behind) =
      (details, some details.wideContent.length) := by
  have hsize := widen_narrow h.size
    (wideBytes details.compressedSize ++ (wideBytes details.headerOffset ++ behind))
  have hcompressed := widen_narrow h.compressedSize (wideBytes details.headerOffset ++ behind)
  have hoffset := widen_narrow h.headerOffset behind
  have hdrop : (wideBytes details.size ++ (wideBytes details.compressedSize ++
      (wideBytes details.headerOffset ++ behind))).drop
        ((wideBytes details.size).length + (wideBytes details.compressedSize).length) =
      wideBytes details.headerOffset ++ behind := by
    rw [← List.drop_drop, List.drop_left, List.drop_left]
  simp only [widen, narrow, wideContent, List.append_assoc, hsize, List.drop_left, hcompressed,
    hdrop, hoffset, List.length_append, Nat.add_assoc]

/-- The numbers that do not fit into the record are read back from the field that has them, with any
fields of other kinds in front of it and behind it. Bytes that stand in the field behind the numbers
do not count. -/
theorem addFields_narrow (h : details.Fits) {before after : List Field} {trailing : List UInt8}
    (hkind : field.kind = wideKind) (hcontent : field.content = details.wideContent ++ trailing)
    (hbefore : ∀ field ∈ before, field.IsOther) (hafter : ∀ field ∈ after, field.IsOther) :
    details.narrow.addFields 0 ((before ++ field :: after).flatMap Field.bytes) = .ok details := by
  have hlength : max field.content.length details.wideContent.length = field.content.length := by
    rw [hcontent, List.length_append]
    omega
  have hwiden : details.narrow.widen (field.content ++ after.flatMap Field.bytes) =
      (details, some details.wideContent.length) := by
    rw [hcontent, List.append_assoc]
    exact widen_wideContent h _
  have hfield : details.narrow.addField field.kind field.content.length
      (field.content ++ after.flatMap Field.bytes) =
        .ok (details, some field.content.length) := by
    simp only [addField, if_pos hkind, hwiden, Option.map_some, hlength]
  have hbehind : details.addFields 0 (after.flatMap Field.bytes) = .ok details := by
    rw [← List.append_nil (after.flatMap Field.bytes), addFields_others hafter, addFields]
  rw [List.flatMap_append, addFields_others hbefore, List.flatMap_cons, addFields_append hfield,
    List.drop_left, hbehind]

/-- A field that tells a cipher sets the method and hides seven bytes of what stands behind it. -/
theorem addFields_cipher {version method : Nat} {strength : UInt8} (hkind : field.kind = cipherKind)
    (hcontent : field.content = littleEndianBytes 2 version ++ littleEndianBytes 2 0x4541 ++
      strength :: littleEndianBytes 2 method)
    (hversion : version ∈ [1, 2]) (hstrength : strength ∈ [1, 2, 3]) (hmethod : method < 0x10000)
    (details : Details) (behind : List UInt8) :
    details.addFields 0 (field.bytes ++ behind) =
      { details with method, tellsCipher := true }.addFields 0 (behind.drop 7) := by
  have hlength : field.content.length = cipherLength := by
    rw [hcontent]
    simp [cipherLength]
  have htells : details.tellCipher (field.content ++ behind) =
      .ok (some { details with method, tellsCipher := true }) := by
    have hversion' : littleEndian (littleEndianBytes 2 version) = version :=
      littleEndian_littleEndianBytes (by simp at hversion; omega)
    have hmethod' : littleEndian (littleEndianBytes 2 method) = method :=
      littleEndian_littleEndianBytes hmethod
    simp only [littleEndianBytes] at hversion' hmethod'
    simp only [hcontent, littleEndianBytes, List.cons_append, List.nil_append]
    rw [tellCipher, hversion', hmethod', if_neg (by decide), if_neg (not_not.mpr hversion),
      if_neg (not_not.mpr hstrength)]
  have hfield : details.addField field.kind field.content.length (field.content ++ behind) =
      .ok ({ details with method, tellsCipher := true }, some (cipherLength + cipherLength)) := by
    rw [addField, hkind, if_neg (by decide), if_pos rfl, hlength, if_neg (by simp), htells]
    rfl
  rw [addFields_append hfield, List.drop_append, hlength, List.drop_eq_nil_of_le (by omega)]
  rfl

end Details

end JarAudit.Zip
