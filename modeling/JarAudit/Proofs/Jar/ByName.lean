import JarAudit.Proofs.Jar

/-!
# Reading by name

A record of an archive is read in two ways: in its turn, when all class files of the archive are
read at once, and by its name. Names may be repeated, and then a name stands for the last record that
has it. So reading by name gives the data of the record that an entry stands for as long as no entry
behind it has the same path (`contents_of_last`). What the directory tells of the length of the data
is passed on and not looked at.
-/

namespace JarAudit

open JarAudit.Files JarAudit.Zip

/-! ### The last item with its key -/

section IsLast

variable {α β κ : Type}

/-- An item stands in a list behind `earlier`, and nothing behind it has its key. -/
def IsLast (key : α → κ) (items earlier : List α) (item : α) : Prop :=
  ∃ later, items = earlier ++ item :: later ∧ ∀ other ∈ later, key other ≠ key item

/-- Where two lists answer to each other item by item, with the same keys, so do their last
items. -/
theorem IsLast.of_forall₂ {R : α → β → Prop} (keyA : α → κ) {keyB : β → κ}
    (hkey : ∀ a b, R a b → keyA a = keyB b) {as : List α} {bs earlier : List β} {b : β}
    (h : List.Forall₂ R as bs) (hlast : IsLast keyB bs earlier b) :
    ∃ before a, before.length = earlier.length ∧ IsLast keyA as before a ∧ R a b := by
  obtain ⟨later, rfl, hlater⟩ := hlast
  -- On what stands in front: past it, the twins of what stands behind have the same keys.
  induction earlier generalizing as with
  | nil =>
    obtain ⟨a, rest, hab, hrest, rfl⟩ := List.forall₂_cons_right_iff.mp h
    refine ⟨[], a, rfl, ⟨rest, rfl, fun other hother => ?_⟩, hab⟩
    obtain ⟨twin, htwin, hsame⟩ := (exists_of_forall₂ hrest).1 other hother
    rw [hkey other twin hsame, hkey a b hab]
    exact hlater twin htwin
  | cons first earlier ih =>
    obtain ⟨a₀, rest, -, hrest, rfl⟩ := List.forall₂_cons_right_iff.mp h
    obtain ⟨before, a, hlength, ⟨later', rfl, hlater'⟩, hab⟩ := ih hrest
    exact ⟨a₀ :: before, a, congrArg (· + 1) hlength, ⟨later', rfl, hlater'⟩, hab⟩

theorem IsLast.getElem? {key : α → κ} {items earlier : List α} {item : α}
    (h : IsLast key items earlier item) : items[earlier.length]? = some item := by
  obtain ⟨later, rfl, -⟩ := h
  rw [List.getElem?_append_right (Nat.le_refl _), Nat.sub_self, List.getElem?_cons_zero]

end IsLast

/-- A name finds the last record that has it, also when it is looked for only among records that are
chosen by their names. -/
theorem Zip.Archive.find?_of_isLast {archive : Archive} {keep : Record → Bool}
    (hkeep : ∀ a b : Record, a.name = b.name → keep a = keep b) {earlier : List Record}
    {record : Record} (hlast : IsLast Record.name (archive.records.filter keep) earlier record) :
    archive.find? record.name = some record := by
  obtain ⟨later, hsplit, hlater⟩ := hlast
  obtain ⟨front, back, hrecords, -, hback⟩ := List.filter_eq_append_iff.mp hsplit
  obtain ⟨gap, rest, rfl, -, hrecord, rfl⟩ := List.filter_eq_cons_iff.mp hback
  -- Between the chosen records stand others, and none of these has the name of a chosen one.
  rw [Archive.find?, hrecords, List.find?_eq_some_iff_append]
  refine ⟨beq_self_eq_true _, rest.reverse, (front ++ gap).reverse, ?_, ?_⟩
  · simp only [List.reverse_append, List.reverse_cons, List.append_assoc, List.cons_append,
      List.nil_append]
  · intro other hother
    have hne : other.name ≠ record.name := by
      intro hname
      -- With the same name it would have been chosen too.
      have hchosen : keep other = true := (hkeep other record hname).trans hrecord
      exact hlater other (List.mem_filter.mpr ⟨List.mem_reverse.mp hother, hchosen⟩) hname
    rw [beq_eq_false_iff_ne.mpr hne]
    rfl

/-- The data of a record has the record's checksum. -/
theorem Zip.Archive.checksum_of_data? {archive : Archive} {record : Record} {bytes : List UInt8}
    (h : archive.data? record = some bytes) : (crc32 bytes).toNat = record.checksum := by
  obtain ⟨stored, -, hcontents⟩ := Archive.data?_eq_some.mp h
  rw [Record.contents] at hcontents
  -- However the bytes came about, they are checked at the end.
  obtain ⟨plain, hchecked⟩ : ∃ plain, (if (crc32 plain).toNat = record.checksum then pure plain
      else throw DataFault.checksum : Except DataFault (List UInt8)) = .ok bytes := by
    split at hcontents <;> obtain ⟨plain, -, hchecked⟩ := bind_eq_ok.mp hcontents <;>
      exact ⟨plain, hchecked⟩
  split at hchecked
  · rename_i hchecksum
    rwa [pure_eq_ok.mp hchecked]
  · cases hchecked

namespace Jar

variable {tree : Tree} {path : String} {archive : Archive}

/-- A record that can be opened can be found. -/
theorem dataOffset_of_stored {record : Record} {stored : List UInt8}
    (h : archive.stored record = .ok stored) :
    ∃ offset, archive.dataOffset record = .ok offset := by
  rw [Archive.stored] at h
  obtain ⟨-, h⟩ := unless_eq_ok.mp h
  obtain ⟨offset, hoffset, -⟩ := bind_eq_ok.mp h
  exact ⟨offset, hoffset⟩

/-- In an archive whose records can all be read, reading by name gives back what was listed and what
was read in turn, for every name as it occurs last: the entry's own record, with the checksum of the
entry, and the class file's own data. -/
theorem contents_of_last {tree : Tree} {path : String} {archive : Archive}
    (hopen : openAt tree path = .ok archive)
    (hall : ∀ record ∈ archive.records, (archive.data? record).isSome = true) :
    ∃ listed files, entries tree path = .ok listed ∧ classFiles tree path = .ok files ∧
      List.Forall₂ (fun record entry => entryOf path record = entry)
        (archive.records.filter isFile) listed ∧
      List.Forall₂ (fun record file => file.1 = record.name ∧ archive.data? record = some file.2)
        (archive.records.filter isClassFile) files ∧
      (∀ earlier entry, IsLast Entry.fullPath listed earlier entry → ∃ record bytes,
        (archive.records.filter isFile)[earlier.length]? = some record ∧
          entry = entryOf path record ∧ archive.data? record = some bytes ∧
          contents tree path entry.fullPath = .ok bytes ∧
          (crc32 bytes).toNat = entry.checksum) ∧
      ∀ earlier file, IsLast Prod.fst files earlier file →
        contents tree path file.1 = .ok file.2 := by
  have hstored : ∀ record ∈ archive.records, ∃ stored, archive.stored record = .ok stored := by
    intro record hrecord
    obtain ⟨bytes, hbytes⟩ := Option.isSome_iff_exists.mp (hall record hrecord)
    obtain ⟨stored, hstored, -⟩ := Archive.data?_eq_some.mp hbytes
    exact ⟨stored, hstored⟩
  have hentries := (entries_eq_ok hopen).mpr
    ⟨fun record hrecord => dataOffset_of_stored (hstored record hrecord).choose_spec, rfl⟩
  obtain ⟨files, hfiles⟩ := (exists_classFiles_iff hopen).mpr
    fun record hrecord => ⟨hstored record hrecord, fun _ => hall record hrecord⟩
  have hread := ((classFiles_eq_ok hopen).mp hfiles).2
  have hlisted : List.Forall₂ (fun record entry => entryOf path record = entry)
      (archive.records.filter isFile) ((archive.records.filter isFile).map (entryOf path)) := by
    rw [List.forall₂_map_right_iff, List.forall₂_same]
    exact fun record _ => rfl
  refine ⟨_, files, hentries, hfiles, hlisted, hread, ?_, ?_⟩
  · intro earlier entry hlast
    obtain ⟨before, record, hlength, hrecord, rfl⟩ :=
      hlast.of_forall₂ Record.name (fun record entry h => h ▸ rfl) hlisted
    have hfind := Archive.find?_of_isLast (fun a b h => by rw [isFile, isFile, h]) hrecord
    have hplace := hlength ▸ hrecord.getElem?
    obtain ⟨hmem, -⟩ := List.mem_filter.mp (List.mem_of_getElem? hplace)
    obtain ⟨bytes, hbytes⟩ := Option.isSome_iff_exists.mp (hall record hmem)
    exact ⟨record, bytes, hplace, rfl, hbytes,
      (contents_eq_ok hopen).mpr ⟨record, hfind, hbytes⟩, Archive.checksum_of_data? hbytes⟩
  · intro earlier file hlast
    obtain ⟨before, record, -, hrecord, hname, hdata⟩ :=
      hlast.of_forall₂ Record.name (fun record file h => h.1.symm) hread
    have hfind := Archive.find?_of_isLast (fun a b h => by rw [isClassFile, isClassFile, h]) hrecord
    exact (contents_eq_ok hopen).mpr ⟨record, hname ▸ hfind, hdata⟩

/-! ### A repeated name -/

/-- An archive with two class files of the name `A.class` and one byte each. The directory gives the
second one a length of nine. -/
def repeatedArchive : ByteArray := ⟨#[
    80, 75, 3, 4, 10, 0, 0, 0, 0, 0, 0, 0, 33, 0, 183, 239, 220, 131, 1, 0, 0, 0, 1, 0, 0, 0,
    7, 0, 0, 0, 65, 46, 99, 108, 97, 115, 115, 49, 80, 75, 3, 4, 10, 0, 0, 0, 0, 0, 0, 0, 33,
    0, 13, 190, 213, 26, 1, 0, 0, 0, 1, 0, 0, 0, 7, 0, 0, 0, 65, 46, 99, 108, 97, 115, 115, 50,
    80, 75, 1, 2, 10, 0, 10, 0, 0, 0, 0, 0, 0, 0, 33, 0, 183, 239, 220, 131, 1, 0, 0, 0, 1, 0,
    0, 0, 7, 0, 0, 0, 0, 0, 0, 0, 0, 0, 0, 0, 0, 0, 0, 0, 0, 0, 65, 46, 99, 108, 97, 115, 115,
    80, 75, 1, 2, 10, 0, 10, 0, 0, 0, 0, 0, 0, 0, 33, 0, 13, 190, 213, 26, 1, 0, 0, 0, 9, 0, 0,
    0, 7, 0, 0, 0, 0, 0, 0, 0, 0, 0, 0, 0, 0, 0, 38, 0, 0, 0, 65, 46, 99, 108, 97, 115, 115,
    80, 75, 5, 6, 0, 0, 0, 0, 2, 0, 2, 0, 106, 0, 0, 0, 76, 0, 0, 0, 0, 0]⟩

/-- A directory with the archive in it. -/
def repeatedTree : Tree := { root := .directory [("app.jar", .file repeatedArchive 0)] }

/-- The archive as it is opened. -/
def repeatedJar : Archive :=
  (openAt repeatedTree "app.jar").toOption.getD ⟨repeatedArchive, []⟩

theorem repeatedJar_opened : openAt repeatedTree "app.jar" = .ok repeatedJar :=
  eq_ok_getD (by decide +kernel)

theorem repeatedJar_data : ∀ record ∈ repeatedJar.records,
    (repeatedJar.data? record).isSome = true := by
  decide +kernel

/-- Of the two records the name stands for the second. -/
theorem contents_of_last_repeated :
    openAt repeatedTree "app.jar" = .ok repeatedJar ∧
      (∀ record ∈ repeatedJar.records, (repeatedJar.data? record).isSome = true) ∧
      ∃ listed files, entries repeatedTree "app.jar" = .ok listed ∧
        classFiles repeatedTree "app.jar" = .ok files ∧
        List.Forall₂ (fun record entry => entryOf "app.jar" record = entry)
          (repeatedJar.records.filter isFile) listed ∧
        List.Forall₂ (fun record file => file.1 = record.name ∧
          repeatedJar.data? record = some file.2) (repeatedJar.records.filter isClassFile) files ∧
        (∀ earlier entry, IsLast Entry.fullPath listed earlier entry → ∃ record bytes,
          (repeatedJar.records.filter isFile)[earlier.length]? = some record ∧
            entry = entryOf "app.jar" record ∧ repeatedJar.data? record = some bytes ∧
            contents repeatedTree "app.jar" entry.fullPath = .ok bytes ∧
            (crc32 bytes).toNat = entry.checksum) ∧
        ∀ earlier file, IsLast Prod.fst files earlier file →
          contents repeatedTree "app.jar" file.1 = .ok file.2 :=
  ⟨repeatedJar_opened, repeatedJar_data, contents_of_last repeatedJar_opened repeatedJar_data⟩

/-- Reading by name gives neither the data of the first record, which has another checksum, nor the
length that the directory gives for the second. -/
theorem contents_of_repeated_name :
    openAt repeatedTree "app.jar" = .ok repeatedJar ∧
      (∀ record ∈ repeatedJar.records, (repeatedJar.data? record).isSome = true) ∧
      ∃ listed files, entries repeatedTree "app.jar" = .ok listed ∧
        classFiles repeatedTree "app.jar" = .ok files ∧
        (∃ entry ∈ listed, contents repeatedTree "app.jar" entry.fullPath = .ok [0x32] ∧
          (crc32 [0x32]).toNat ≠ entry.checksum) ∧
        (∃ entry ∈ listed, contents repeatedTree "app.jar" entry.fullPath = .ok [0x32] ∧
          (crc32 [0x32]).toNat = entry.checksum ∧ [0x32].length ≠ entry.size) ∧
        ∃ file ∈ files, contents repeatedTree "app.jar" file.1 ≠ .ok file.2 := by
  refine ⟨repeatedJar_opened, repeatedJar_data,
    (entries repeatedTree "app.jar").toOption.getD [],
    (classFiles repeatedTree "app.jar").toOption.getD [], eq_ok_getD (by decide +kernel),
    eq_ok_getD (by decide +kernel), ?_⟩
  decide +kernel

end Jar

end JarAudit
