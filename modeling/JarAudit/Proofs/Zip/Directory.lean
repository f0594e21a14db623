import Mathlib.Tactic.SplitIfs
import JarAudit.Proofs.Zip.Extra
import JarAudit.Zip.Archive

/-!
# How the directory is found and read

The end record is the last place with its mark from which a whole end record fits into the file
(`EndRecord.find_eq_ok`), and the wide end record the first one behind the place where it is said to
open (`WideEndRecord.find_eq_ok`). Each directory record takes up bytes of its own, so an archive
has no more records than fit into its file, whatever number its end records tell
(`Archive.size_of_ofFile`).
-/

namespace JarAudit.Zip

variable {file : ByteArray}

/-! ### The search of the end records -/

/-- The search downwards finds the last mark. -/
theorem EndRecord.findFrom_eq_some {tries place found : Nat} :
    findFrom file tries place = some found ↔
      found ≤ place ∧ place < found + tries ∧ number? file found 4 = some signature ∧
        ∀ other, found < other → other ≤ place → number? file other 4 ≠ some signature := by
  -- As the search goes: a place without the mark is out of the question for the rest of it.
  fun_induction findFrom file tries place with
  | case1 => constructor <;> grind
  | case2 place tries hmark => constructor <;> grind
  | case3 tries hmark => constructor <;> grind
  | case4 tries lower hmark ih =>
    rw [ih]
    constructor
    · rintro ⟨hle, hnear, hfound, hlast⟩
      refine ⟨by omega, by omega, hfound, fun other hbehind hother => ?_⟩
      obtain rfl | hlower : other = lower + 1 ∨ other ≤ lower := by omega
      · exact hmark
      · exact hlast other hbehind hlower
    · rintro ⟨hle, hnear, hfound, hlast⟩
      have hne : found ≠ lower + 1 := by rintro rfl; exact hmark hfound
      exact ⟨by omega, by omega, hfound, fun other hbehind hother => hlast other hbehind (by omega)⟩

/-- The search upwards finds the first mark. -/
theorem WideEndRecord.findFrom_eq_some {tries place found : Nat} :
    findFrom file tries place = some found ↔
      place ≤ found ∧ found < place + tries ∧ number? file found 4 = some signature ∧
        ∀ other, place ≤ other → other < found → number? file other 4 ≠ some signature := by
  fun_induction findFrom file tries place with
  | case1 => constructor <;> grind
  | case2 tries place hmark => constructor <;> grind
  | case3 tries place hmark ih =>
    rw [ih]
    constructor
    · rintro ⟨hge, hnear, hfound, hfirst⟩
      refine ⟨by omega, by omega, hfound, fun other hother hbefore => ?_⟩
      obtain rfl | hupper : place = other ∨ place + 1 ≤ other := by omega
      · exact hmark
      · exact hfirst other hupper hbefore
    · rintro ⟨hge, hnear, hfound, hfirst⟩
      have hne : found ≠ place := by rintro rfl; exact hmark hfound
      exact ⟨by omega, by omega, hfound, fun other hother hbefore => hfirst other (by omega) hbefore⟩

/-- The end record opens at the last place with its mark, among those from which an end record with
its comment can reach the end of the file. -/
theorem EndRecord.find_eq_ok {place : Nat} :
    find file = .ok place ↔
      place + size ≤ file.size ∧ file.size ≤ place + size + maxComment ∧
        number? file place 4 = some signature ∧
        ∀ other, place < other → other + size ≤ file.size →
          number? file other 4 ≠ some signature := by
  rw [find]
  split_ifs with hshort
  · exact ⟨nofun, fun h => absurd h.1 (by omega)⟩
  · constructor
    · intro h
      split at h
      next place hfound =>
        cases h
        obtain ⟨hle, hnear, hmark, hlast⟩ := findFrom_eq_some.mp hfound
        exact ⟨by omega, by omega, hmark, fun other hbehind hfits => hlast other hbehind (by omega)⟩
      · cases h
    · rintro ⟨hfits, hnear, hmark, hlast⟩
      rw [findFrom_eq_some.mpr ⟨by omega, by omega, hmark,
        fun other hbehind hle => hlast other hbehind (by omega)⟩]

/-- The wide end record opens at the first place with its mark, from the one on where it is said to
open, among those from which it fits in front of the locator. -/
theorem WideEndRecord.find_eq_ok {nominal place found : Nat} :
    find file nominal place = .ok found ↔
      nominal ≤ found ∧ found + leastDistance ≤ place ∧ number? file found 4 = some signature ∧
        ∀ other, nominal ≤ other → other < found → number? file other 4 ≠ some signature := by
  rw [find]
  split_ifs with hshort
  · exact ⟨nofun, fun h => absurd h.2.1 (by omega)⟩
  · constructor
    · intro h
      split at h
      next found hfound =>
        cases h
        obtain ⟨hge, hnear, hmark, hfirst⟩ := findFrom_eq_some.mp hfound
        exact ⟨hge, by omega, hmark, hfirst⟩
      · cases h
    · rintro ⟨hge, hfits, hmark, hfirst⟩
      rw [findFrom_eq_some.mpr ⟨hge, by omega, hmark, hfirst⟩]

/-! ### The reading of the records -/

namespace Record

variable {shift place next : Nat} {record : Record}

/-- A directory record takes up bytes of its own, all of them in the file. What it tells completes
the numbers that stand in it; a record that leaves its method to a cipher tells that cipher. -/
theorem spec_of_read (h : read file shift place = .ok (record, next)) :
    (place + fixedSize ≤ next ∧ next ≤ file.size) ∧
    ∃ noted details : Details,
      number file (place + 10) 2 = .ok noted.method ∧
      number file (place + 20) 4 = .ok noted.compressedSize ∧
      number file (place + 24) 4 = .ok noted.size ∧
      number file (place + 42) 4 = .ok noted.headerOffset ∧
      noted.Completes details ∧
      (details.method = encryptedMethod → details.tellsCipher = true) ∧
      record.toDetails = { details with headerOffset := details.headerOffset + shift } := by
  rw [read] at h
  obtain ⟨mark, -, h⟩ := bind_eq_ok.mp h
  obtain ⟨-, h⟩ := unless_eq_ok.mp h
  obtain ⟨flags, -, h⟩ := bind_eq_ok.mp h
  obtain ⟨method, hmethod, h⟩ := bind_eq_ok.mp h
  obtain ⟨time, -, h⟩ := bind_eq_ok.mp h
  obtain ⟨date, -, h⟩ := bind_eq_ok.mp h
  obtain ⟨checksum, -, h⟩ := bind_eq_ok.mp h
  obtain ⟨compressedSize, hcompressed, h⟩ := bind_eq_ok.mp h
  obtain ⟨size, hsize, h⟩ := bind_eq_ok.mp h
  obtain ⟨nameLength, -, h⟩ := bind_eq_ok.mp h
  obtain ⟨extraLength, -, h⟩ := bind_eq_ok.mp h
  obtain ⟨commentLength, -, h⟩ := bind_eq_ok.mp h
  obtain ⟨headerOffset, hoffset, h⟩ := bind_eq_ok.mp h
  obtain ⟨hfits, h⟩ := unless_eq_ok.mp h
  obtain ⟨details, hdetails, h⟩ := bind_eq_ok.mp h
  obtain ⟨htold, h⟩ := unless_eq_ok.mp h
  obtain ⟨-, h⟩ := unless_eq_ok.mp h
  obtain ⟨rfl, rfl⟩ := Prod.mk.inj (Except.ok.inj h)
  refine ⟨⟨by omega, by omega⟩, _, details, hmethod, hcompressed, hsize, hoffset,
    Details.completes_of_addFields hdetails, ?_, rfl⟩
  simpa using htold

/-- As many records are read as there should be, and all of them lie in the file. -/
theorem size_of_readAll {count : Nat} {read records : List Record}
    (h : readAll file shift count place read = .ok records) :
    records.length = read.length + count ∧
      place + fixedSize * count ≤ max place file.size := by
  induction count generalizing place read with
  | zero =>
    cases h
    exact ⟨List.length_reverse, Nat.le_max_left place file.size⟩
  | succ count ih =>
    rw [readAll] at h
    obtain ⟨⟨record, next⟩, hrecord, h⟩ := bind_eq_ok.mp h
    obtain ⟨⟨hnext, hend⟩, -⟩ := spec_of_read hrecord
    obtain ⟨hlength, hrest⟩ := ih h
    rw [List.length_cons] at hlength
    rw [Nat.mul_succ]
    exact ⟨by omega, by omega⟩

end Record

/-- An archive has no more records than fit into its file. -/
theorem Archive.size_of_ofFile {archive : Archive} (h : Archive.ofFile file = .ok archive) :
    Record.fixedSize * archive.records.length ≤ file.size := by
  rw [ofFile] at h
  obtain ⟨extent, -, h⟩ := bind_eq_ok.mp h
  obtain ⟨records, hrecords, h⟩ := bind_eq_ok.mp h
  cases h
  obtain ⟨hlength, hfits⟩ := Record.size_of_readAll hrecords
  rw [List.length_nil] at hlength
  change Record.fixedSize * records.length ≤ file.size
  rw [hlength, Nat.zero_add]
  simp only [Record.fixedSize] at hfits ⊢
  omega

end JarAudit.Zip
