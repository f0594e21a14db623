import JarAudit.Proofs.Session.Verify

/-!
# Scanned classes and provided classes

Verifying a session scans every archive that was found. What counts as provided is what was listed
when the session was opened: with `recurse` the same archives, and without it only the archive that
the session is opened over. As long as the files stay as they are, a class that is scanned and
listed is provided and never reported missing (`scanned_class_not_missing`). Without `recurse` a
class of an archive that the manifest names can be scanned and reported missing at once.
-/

namespace JarAudit

open JarAudit.Files

/-- The archive at a path has a class, by the name of one of its records. -/
def Jar.HasClass (tree : Tree) (path name : String) : Prop :=
  ∃ names, Jar.classNames tree path = .ok names ∧ name ∈ names

namespace Session

variable {tree : Tree} {path name : String} {recurse : Bool} {session : Session}

/-- Verifying a session scans a class, by the name of its record. -/
def ScansClass (session : Session) (tree : Tree) (name : String) : Prop :=
  ∃ scan ∈ (session.scanned tree).1, Entry.classNameOf? scan.1.entry = some name

instance (session : Session) (tree : Tree) (name : String) :
    Decidable (session.ScansClass tree name) :=
  inferInstanceAs (Decidable (∃ scan ∈ _, _))

/-- A session provides the classes of all files that it lists. -/
theorem mem_provided_of_listed (hopen : openArchive tree path recurse = .ok session)
    {owner file : String} (hlisted : ∃ entry ∈ session.entries, entry.place = (owner, file))
    {archive : Zip.Archive} (harchive : Jar.openAt tree owner = .ok archive)
    (hclass : Entry.classNameOf? file = some name) : name ∈ session.provided := by
  obtain ⟨entry, hentry, hplace⟩ := hlisted
  obtain ⟨rfl, rfl⟩ := Prod.mk.inj hplace
  rw [openArchive_provided hopen, Entry.provided, NameSet.mem_ofList, List.mem_filterMap]
  refine ⟨entry, hentry, ?_⟩
  rw [Entry.className?, isStandalone_eq_false harchive]
  exact hclass

/-- With or without `recurse`, the classes of the archive that the session is opened over are
provided. -/
theorem mem_provided_of_root (hopen : openArchive tree path recurse = .ok session)
    (hclass : Jar.HasClass tree path name) : name ∈ session.provided := by
  obtain ⟨names, hnames, hname⟩ := hclass
  obtain ⟨archive, harchive, -⟩ := bind_eq_ok.mp hnames
  obtain ⟨own, hown, -⟩ := bind_eq_ok.mp hopen
  rw [inContext_eq_ok] at hown
  -- The record that has the class is listed as an entry of the archive.
  obtain ⟨record, hrecord, hclass⟩ :=
    (exists_of_forall₂ ((Jar.classNames_eq_ok harchive).mp hnames).2).2 name hname
  obtain ⟨hmem, hfile⟩ := List.mem_filter.mp hrecord
  have hlisted := (Jar.mem_entries harchive hown).mpr
    ⟨record, hmem, Jar.isDirectoryName_eq_false hfile, rfl⟩
  exact mem_provided_of_listed hopen (place_mem_of_root hopen hown hlisted) harchive hclass

/-- With `recurse`, every class that verifying scans is provided. -/
theorem mem_provided_of_scansClass (hopen : openArchive tree path true = .ok session)
    (hscans : session.ScansClass tree name) : name ∈ session.provided := by
  obtain ⟨scan, hscan, hclass⟩ := hscans
  obtain ⟨himage, -⟩ := mem_scanned.mp hscan
  obtain ⟨status, hstatus, hfound, files, hfiles, file, hfile, himage⟩ :=
    (mem_images_of_archive (openArchive_kind hopen)).mp himage
  rw [← himage] at hclass
  obtain ⟨archive, harchive, -⟩ := bind_eq_ok.mp hfiles
  obtain ⟨record, hrecord, hname, hplain, -⟩ := (Jar.mem_classFiles harchive hfiles).mp hfile
  -- What was found was listed, record by record.
  have hlisted := (exists_entry_iff hopen).mpr
    ⟨status, hstatus, hfound, rfl, archive, harchive, record, hrecord, hname ▸ hplain, hname⟩
  exact mem_provided_of_listed hopen hlisted harchive hclass

/-- Verifying does not report as missing what it scans itself, in any archive that the session
listed: with `recurse` in all that were found, and without it in the one it is opened over. -/
theorem scanned_class_not_missing {tree : Tree} {path : String} {recurse : Bool} {session : Session}
    (system : NameSet) (hopen : openArchive tree path recurse = .ok session) {name : String}
    (hscans : session.ScansClass tree name)
    (hlisted : recurse = true ∨ Jar.HasClass tree path name) :
    name ∉ (session.verify tree system).missing := by
  have hprovided : name ∈ session.provided := by
    rcases hlisted with rfl | hclass
    · exact mem_provided_of_scansClass hopen hscans
    · exact mem_provided_of_root hopen hclass
  intro hmissing
  obtain ⟨image, -, names, -, hmissing⟩ := mem_verify_missing.mp hmissing
  obtain ⟨-, -, hunprovided, -⟩ := mem_missing.mp hmissing
  exact hunprovided hprovided

/-! ### A class in an archive that the manifest names -/

/-- An archive with the class file `Main.class`, which refers to `Util`. Its manifest names
`lib.jar`. -/
def applicationArchive : ByteArray := ⟨#[
    80, 75, 3, 4, 10, 0, 0, 0, 0, 0, 0, 0, 33, 0, 59, 14, 243, 37, 20, 0, 0, 0, 20, 0, 0, 0,
    20, 0, 0, 0, 77, 69, 84, 65, 45, 73, 78, 70, 47, 77, 65, 78, 73, 70, 69, 83, 84, 46, 77,
    70, 67, 108, 97, 115, 115, 45, 80, 97, 116, 104, 58, 32, 108, 105, 98, 46, 106, 97, 114,
    10, 80, 75, 3, 4, 10, 0, 0, 0, 0, 0, 0, 0, 33, 0, 137, 157, 84, 62, 20, 0, 0, 0, 20, 0, 0,
    0, 10, 0, 0, 0, 77, 97, 105, 110, 46, 99, 108, 97, 115, 115, 202, 254, 186, 190, 0, 0, 0,
    52, 0, 3, 1, 0, 4, 85, 116, 105, 108, 7, 0, 1, 80, 75, 1, 2, 10, 0, 10, 0, 0, 0, 0, 0, 0,
    0, 33, 0, 59, 14, 243, 37, 20, 0, 0, 0, 20, 0, 0, 0, 20, 0, 0, 0, 0, 0, 0, 0, 0, 0, 0, 0,
    0, 0, 0, 0, 0, 0, 77, 69, 84, 65, 45, 73, 78, 70, 47, 77, 65, 78, 73, 70, 69, 83, 84, 46,
    77, 70, 80, 75, 1, 2, 10, 0, 10, 0, 0, 0, 0, 0, 0, 0, 33, 0, 137, 157, 84, 62, 20, 0, 0, 0,
    20, 0, 0, 0, 10, 0, 0, 0, 0, 0, 0, 0, 0, 0, 0, 0, 0, 0, 70, 0, 0, 0, 77, 97, 105, 110, 46,
    99, 108, 97, 115, 115, 80, 75, 5, 6, 0, 0, 0, 0, 2, 0, 2, 0, 122, 0, 0, 0, 130, 0, 0, 0, 0,
    0]⟩

/-- An archive with the class file `Util.class`, which refers to nothing. -/
def libraryArchive : ByteArray := ⟨#[
    80, 75, 3, 4, 10, 0, 0, 0, 0, 0, 0, 0, 33, 0, 94, 109, 58, 177, 10, 0, 0, 0, 10, 0, 0, 0,
    10, 0, 0, 0, 85, 116, 105, 108, 46, 99, 108, 97, 115, 115, 202, 254, 186, 190, 0, 0, 0, 52,
    0, 1, 80, 75, 1, 2, 10, 0, 10, 0, 0, 0, 0, 0, 0, 0, 33, 0, 94, 109, 58, 177, 10, 0, 0, 0,
    10, 0, 0, 0, 10, 0, 0, 0, 0, 0, 0, 0, 0, 0, 0, 0, 0, 0, 0, 0, 0, 0, 85, 116, 105, 108, 46,
    99, 108, 97, 115, 115, 80, 75, 5, 6, 0, 0, 0, 0, 1, 0, 1, 0, 56, 0, 0, 0, 50, 0, 0, 0, 0, 0]⟩

/-- A directory with both archives in it. -/
def applicationTree : Tree where
  root := .directory [("app.jar", .file applicationArchive 0), ("lib.jar", .file libraryArchive 0)]

/-- The session over the first archive. -/
def applicationSession (recurse : Bool) : Session :=
  (openArchive applicationTree "app.jar" recurse).toOption.getD
    { root := "app.jar", kind := .archive }

theorem applicationSession_opened (recurse : Bool) :
    openArchive applicationTree "app.jar" recurse = .ok (applicationSession recurse) := by
  cases recurse <;> exact eq_ok_getD (by decide +kernel)

/-- With `recurse` the class that `Main` refers to is scanned and not missing. -/
theorem scanned_class_not_missing_application :
    openArchive applicationTree "app.jar" true = .ok (applicationSession true) ∧
      (applicationSession true).ScansClass applicationTree "Util" ∧
      "Util" ∉ ((applicationSession true).verify applicationTree ∅).missing := by
  have hscans : (applicationSession true).ScansClass applicationTree "Util" := by decide +kernel
  exact ⟨applicationSession_opened true, hscans,
    scanned_class_not_missing ∅ (applicationSession_opened true) hscans (.inl rfl)⟩

/-- Without `recurse` the same class is scanned and missing. -/
theorem unlisted_class_missing :
    openArchive applicationTree "app.jar" false = .ok (applicationSession false) ∧
      (applicationSession false).ScansClass applicationTree "Util" ∧
      "Util" ∈ ((applicationSession false).verify applicationTree ∅).missing := by
  refine ⟨applicationSession_opened false, by decide +kernel, ?_⟩
  rw [Std.TreeSet.mem_iff_contains]
  decide +kernel

end Session

end JarAudit
