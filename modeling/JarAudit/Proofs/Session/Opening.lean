import JarAudit.Proofs.Entry.Duplicates
import JarAudit.Proofs.Jar
import JarAudit.Session.Basic

/-!
# What a session knows when it is opened

A session over archives is put together from the entries of its own archive and from the archives
at some paths; which paths these are is up to the manifest (`openArchive_eq_ok`). `assemble` does it
for any paths, so that sessions with more and with fewer of them can be compared. Such a session
consists of parts: each archive with its status and the entries that were listed of it
(`IsListing`). `IsListing.exists_entry_iff` says where the entries of a session come from: of each
archive that was found, the session has exactly the entries that the archive lists.
-/

namespace JarAudit

open JarAudit.Files

/-- Where an entry lies: the archive and the path in it. -/
def Entry.place (entry : Entry) : String × String := (entry.owningArchive, entry.fullPath)

/-- Raising flags leaves all entries where they are. -/
theorem DuplicateReport.map_place_flagged (entries : List Entry) :
    (flagged entries).map Entry.place = entries.map Entry.place := by
  rw [flagged_eq, List.map_map]
  rfl

namespace Session

/-- The session over an archive with entries of its own, together with the archives at some paths.
-/
def assemble (tree : Tree) (recurse : Bool) (path : String) (own : List Entry)
    (manifest : Option Manifest) (paths : List String) : Session :=
  let opened := paths.map (openDependency tree recurse)
  let entries := DuplicateReport.flagged (own ++ opened.flatMap (·.2))
  { root := path
    kind := .archive
    manifest
    archives := .ofFound tree path own.length :: opened.map (·.1)
    entries
    provided := Entry.provided entries }

variable {tree : Tree} {path : String} {recurse : Bool} {session : Session} {own : List Entry}

/-- An archive is opened by putting it together with the archives that its manifest names. A
manifest that cannot be read names none. -/
theorem openArchive_eq_ok :
    openArchive tree path recurse = .ok session ↔ ∃ own, Jar.entries tree path = .ok own ∧
      session = assemble tree recurse path own (Jar.manifest tree path).toOption.join
        (dependencies path (Jar.manifest tree path).toOption.join) := by
  rw [openArchive, bind_eq_ok]
  simp only [inContext_eq_ok]
  exact exists_congr fun own => and_congr_right fun _ => pure_eq_ok

theorem openArchive_kind (h : openArchive tree path recurse = .ok session) :
    session.kind = .archive := by
  obtain ⟨own, -, rfl⟩ := openArchive_eq_ok.mp h
  rfl

/-- A session provides the classes of its entries. -/
theorem openArchive_provided (h : openArchive tree path recurse = .ok session) :
    session.provided = Entry.provided session.entries := by
  obtain ⟨own, -, rfl⟩ := openArchive_eq_ok.mp h
  rfl

/-- The archive that a session is opened over is listed, whatever becomes of the archives that its
manifest names. -/
theorem place_mem_of_root (h : openArchive tree path recurse = .ok session)
    (hown : Jar.entries tree path = .ok own) {entry : Entry} (hentry : entry ∈ own) :
    ∃ listed ∈ session.entries, listed.place = entry.place := by
  obtain ⟨listed, hlisted, rfl⟩ := openArchive_eq_ok.mp h
  rw [hown] at hlisted
  obtain rfl := Except.ok.inj hlisted
  rw [← List.mem_map]
  refine (DuplicateReport.map_place_flagged _).symm ▸ ?_
  exact List.mem_map_of_mem (List.mem_append_left _ hentry)

/-- Whatever is listed in a session was listed of the archive that holds it. -/
theorem exists_listing_of_mem (h : openArchive tree path recurse = .ok session) {entry : Entry}
    (hentry : entry ∈ session.entries) :
    ∃ listed, Jar.entries tree entry.owningArchive = .ok listed ∧
      ∃ item ∈ listed, item.place = entry.place := by
  have hsource : ∀ {owner : String} {listed : List Entry}, Jar.entries tree owner = .ok listed →
      ∀ item ∈ listed, Jar.entries tree item.owningArchive = .ok listed := by
    intro owner listed hlisted item hitem
    obtain ⟨archive, harchive, -⟩ := bind_eq_ok.mp hlisted
    obtain ⟨record, -, -, rfl⟩ := (Jar.mem_entries harchive hlisted).mp hitem
    exact hlisted
  obtain ⟨own, hown, rfl⟩ := openArchive_eq_ok.mp h
  simp only [assemble, DuplicateReport.flagged_eq, List.mem_map, List.mem_append,
    List.mem_flatMap] at hentry
  obtain ⟨item, hitem, rfl⟩ := hentry
  -- The entry is an item of some listing with flags raised, which leaves the item in its place.
  show ∃ listed, Jar.entries tree item.owningArchive = .ok listed ∧
    ∃ other ∈ listed, other.place = item.place
  rcases hitem with hitem | ⟨_, ⟨dependency, -, rfl⟩, hitem⟩
  · exact ⟨own, hsource hown item hitem, item, hitem, rfl⟩
  · unfold openDependency at hitem
    split at hitem
    · cases hitem
    · cases recurse with
      | false =>
        rw [if_neg Bool.false_ne_true] at hitem
        split at hitem <;> cases hitem
      | true =>
        rw [if_pos rfl] at hitem
        split at hitem
        case h_1 listed hlisted => exact ⟨listed, hsource hlisted item hitem, item, hitem, rfl⟩
        case h_2 => cases hitem

/-! ### Parts of a session -/

/-- An archive of a session, and what was listed of it: all its entries if it was found, else
nothing. -/
structure IsPart (tree : Tree) (part : ArchiveStatus × List Entry) : Prop where
  listed : part.1.found = true → Jar.entries tree part.1.path = .ok part.2
  unlisted : part.1.found = false → part.2 = []

theorem ofFound_path (tree : Tree) (path : String) (count : Nat) :
    (ArchiveStatus.ofFound tree path count).path = path := by
  rw [ArchiveStatus.ofFound]
  split <;> rfl

theorem ofFound_found (tree : Tree) (path : String) (count : Nat) :
    (ArchiveStatus.ofFound tree path count).found = true := by
  rw [ArchiveStatus.ofFound]
  split <;> rfl

theorem isPart_ofFound (h : Jar.entries tree path = .ok own) (count : Nat) :
    IsPart tree (.ofFound tree path count, own) where
  listed _ := by rw [ofFound_path, h]
  unlisted hfound := by
    rw [ofFound_found] at hfound
    cases hfound

/-- An archive that the manifest names is a part, whether it can be read or not. -/
theorem isPart_openDependency (tree : Tree) (path : String) :
    IsPart tree (openDependency tree true path) := by
  have habsent : IsPart tree ({ path }, []) := ⟨nofun, fun _ => rfl⟩
  rw [openDependency]
  split
  · exact habsent
  · rw [if_pos rfl]
    cases hentries : Jar.entries tree path with
    | error failure => exact habsent
    | ok entries => exact isPart_ofFound hentries entries.length

/-- A session lists its archives: it consists of parts, and the entries of all parts, one behind the
other, are flagged as duplicates. -/
def IsListing (tree : Tree) (session : Session) : Prop :=
  ∃ parts : List (ArchiveStatus × List Entry), (∀ part ∈ parts, IsPart tree part) ∧
    session.archives = parts.map (·.1) ∧
    session.entries = DuplicateReport.flagged (parts.flatMap (·.2))

theorem isListing_assemble (hown : Jar.entries tree path = .ok own) (manifest : Option Manifest)
    (paths : List String) : IsListing tree (assemble tree true path own manifest paths) := by
  refine ⟨(.ofFound tree path own.length, own) :: paths.map (openDependency tree true), ?_, rfl, ?_⟩
  · intro part hpart
    rcases List.mem_cons.mp hpart with rfl | hdependency
    · exact isPart_ofFound hown own.length
    · obtain ⟨dependency, -, rfl⟩ := List.mem_map.mp hdependency
      exact isPart_openDependency tree dependency
  · rw [List.flatMap_cons]
    rfl

/-- The entries of a session are the files in the archives that were found. -/
theorem IsListing.exists_entry_iff (h : IsListing tree session) {owner name : String} :
    (∃ entry ∈ session.entries, entry.place = (owner, name)) ↔
      ∃ status ∈ session.archives, status.found = true ∧ status.path = owner ∧
        ∃ archive, Jar.openAt tree owner = .ok archive ∧ ∃ record ∈ archive.records,
          Zip.Record.isDirectoryName record.name = false ∧ record.name = name := by
  obtain ⟨parts, hparts, harchives, hentries⟩ := h
  rw [harchives, hentries, ← List.mem_map (f := Entry.place), DuplicateReport.map_place_flagged]
  constructor
  · intro hplace
    obtain ⟨entry, hentry, hplace⟩ := List.mem_map.mp hplace
    obtain ⟨part, hpart, hentry⟩ := List.mem_flatMap.mp hentry
    have hfound : part.1.found = true := by
      refine eq_true_of_ne_false fun hmissing => ?_
      rw [(hparts part hpart).unlisted hmissing] at hentry
      cases hentry
    have hlisted := (hparts part hpart).listed hfound
    obtain ⟨archive, hopen, -⟩ := bind_eq_ok.mp hlisted
    obtain ⟨record, hrecord, hfile, rfl⟩ := (Jar.mem_entries hopen hlisted).mp hentry
    obtain ⟨rfl, rfl⟩ := Prod.mk.inj hplace
    exact ⟨part.1, List.mem_map_of_mem hpart, hfound, rfl, archive, hopen, record, hrecord, hfile,
      rfl⟩
  · rintro ⟨status, hstatus, hfound, rfl, archive, hopen, record, hrecord, hfile, rfl⟩
    obtain ⟨part, hpart, rfl⟩ := List.mem_map.mp hstatus
    have hlisted := (hparts part hpart).listed hfound
    have hentry := (Jar.mem_entries hopen hlisted).mpr ⟨record, hrecord, hfile, rfl⟩
    exact List.mem_map.mpr ⟨_, List.mem_flatMap.mpr ⟨part, hpart, hentry⟩, rfl⟩

/-! ### Opened sessions -/

/-- A session as it is opened over a file tree: over one class file, or over an archive with all that
its manifest names. -/
def IsOpened (tree : Tree) (session : Session) : Prop :=
  (∃ path, openClassFile tree path = .ok session) ∨
    ∃ path, openArchive tree path true = .ok session

/-- A session over a class file has the one entry, which stands alone. -/
theorem openClassFile_entries (h : openClassFile tree path = .ok session) :
    session.kind = .classFile ∧ ∃ entry, session.entries = [entry] ∧ entry.isStandalone = true := by
  obtain ⟨entry, hentry, hsession⟩ := bind_eq_ok.mp h
  obtain rfl := Except.ok.inj hsession
  refine ⟨rfl, entry, rfl, ?_⟩
  rw [standaloneEntry] at hentry
  split at hentry
  · cases hentry
  · obtain rfl := Except.ok.inj hentry
    rfl

/-- A session that was opened with all that its manifest names lists its archives. -/
theorem isListing_openArchive (h : openArchive tree path true = .ok session) :
    IsListing tree session := by
  obtain ⟨own, hown, rfl⟩ := openArchive_eq_ok.mp h
  exact isListing_assemble hown _ _

theorem exists_entry_iff (h : openArchive tree path true = .ok session) {owner name : String} :
    (∃ entry ∈ session.entries, entry.place = (owner, name)) ↔
      ∃ status ∈ session.archives, status.found = true ∧ status.path = owner ∧
        ∃ archive, Jar.openAt tree owner = .ok archive ∧ ∃ record ∈ archive.records,
          Zip.Record.isDirectoryName record.name = false ∧ record.name = name :=
  (isListing_openArchive h).exists_entry_iff

end Session

end JarAudit
