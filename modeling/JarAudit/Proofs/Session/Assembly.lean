import Mathlib.Algebra.GroupWithZero.Nat
import JarAudit.Proofs.Session.Opening

/-!
# The state of a session when it is opened

`IsFresh` says part by part what a session holds after it was opened with all that its manifest
names, and `openArchive_isFresh` that every session does: the statuses go with the paths, the entries
with the statuses, and flags and provided classes with the entries.
-/

namespace JarAudit

open JarAudit.Files

namespace Session

variable {tree : Tree} {path dependency : String} {session : Session} {listed : List Entry}

/-! ### The archives that a manifest names -/

theorem isFile_of_entries (h : Jar.entries tree path = .ok listed) : tree.isFile path = true := by
  obtain ⟨archive, hopen, -⟩ := bind_eq_ok.mp h
  exact Jar.isFile_of_openAt hopen

theorem unflagged_of_mem_entries (h : Jar.entries tree path = .ok listed) {entry : Entry}
    (hentry : entry ∈ listed) : entry.unflagged = entry := by
  obtain ⟨archive, hopen, -⟩ := bind_eq_ok.mp h
  obtain ⟨record, -, -, rfl⟩ := (Jar.mem_entries hopen h).mp hentry
  rfl

theorem openDependency_of_entries (h : Jar.entries tree dependency = .ok listed) :
    openDependency tree true dependency = (.ofFound tree dependency listed.length, listed) := by
  rw [openDependency, isFile_of_entries h, h]
  rfl

theorem openDependency_of_absent (h : ∀ listed, Jar.entries tree dependency ≠ .ok listed) :
    openDependency tree true dependency = ({ path := dependency }, []) := by
  rw [openDependency, if_pos rfl]
  split
  · rfl
  · cases hentries : Jar.entries tree dependency with
    | error failure => rfl
    | ok listed => exact absurd hentries (h listed)

theorem ofFound_entryCount (tree : Tree) (path : String) (count : Nat) :
    (ArchiveStatus.ofFound tree path count).entryCount = count := by
  rw [ArchiveStatus.ofFound]
  split <;> rfl

/-- The status of an archive that the manifest names: found, with its size and the number of its
entries, when it is a file whose entries can be listed, and blank otherwise. -/
structure IsStatusOf (tree : Tree) (dependency : String) (status : ArchiveStatus) : Prop where
  path : status.path = dependency
  found_iff : status.found = true ↔
    tree.isFile dependency = true ∧ ∃ listed, Jar.entries tree dependency = .ok listed
  found : ∀ listed, Jar.entries tree dependency = .ok listed →
    status = .ofFound tree dependency listed.length
  absent : status.found = false →
    status.entryCount = 0 ∧ status.size = 0 ∧ status.lastModified = 0

theorem isStatusOf_openDependency (tree : Tree) (dependency : String) :
    IsStatusOf tree dependency (openDependency tree true dependency).1 := by
  by_cases h : ∃ listed, Jar.entries tree dependency = .ok listed
  · obtain ⟨listed, hlisted⟩ := h
    rw [openDependency_of_entries hlisted]
    refine ⟨ofFound_path .., ?_, ?_, ?_⟩
    · rw [ofFound_found]
      exact ⟨fun _ => ⟨isFile_of_entries hlisted, listed, hlisted⟩, fun _ => rfl⟩
    · intro other hother
      rw [hlisted] at hother
      rw [Except.ok.inj hother]
    · intro hfound
      rw [ofFound_found] at hfound
      cases hfound
  · rw [openDependency_of_absent (not_exists.mp h)]
    exact ⟨rfl, ⟨nofun, fun hlisted => absurd hlisted.2 h⟩,
      fun listed hlisted => absurd ⟨listed, hlisted⟩ h, fun _ => ⟨rfl, rfl, rfl⟩⟩

/-! ### The listing of a session -/

theorem exists_listings {parts : List (ArchiveStatus × List Entry)}
    (hparts : ∀ part ∈ parts, IsPart tree part) :
    ∃ listings, List.Forall₂ (fun status listed => Jar.entries tree status.path = .ok listed)
        ((parts.map (·.1)).filter (·.found)) listings ∧
      listings.flatten = parts.flatMap (·.2) := by
  induction parts with
  | nil => exact ⟨[], .nil, rfl⟩
  | cons part rest ih =>
    obtain ⟨hpart, hrest⟩ := List.forall_mem_cons.mp hparts
    obtain ⟨listings, hlistings, hflatten⟩ := ih hrest
    rw [List.map_cons, List.flatMap_cons, ← hflatten]
    -- A part that was not found has neither a listing nor entries.
    cases hfound : part.1.found with
    | true =>
      rw [List.filter_cons_of_pos hfound]
      exact ⟨part.2 :: listings, .cons (hpart.listed hfound) hlistings, List.flatten_cons⟩
    | false =>
      rw [List.filter_cons_of_neg (ne_true_of_eq_false hfound), hpart.unlisted hfound]
      exact ⟨listings, hlistings, rfl⟩

/-- A session that lists its archives has what the found ones list, one behind the other, with flags
that were all down before. -/
theorem IsListing.exists_listings (h : IsListing tree session) :
    ∃ listings, List.Forall₂ (fun status listed => Jar.entries tree status.path = .ok listed)
        (session.archives.filter (·.found)) listings ∧
      (∀ entry ∈ listings.flatten, entry.unflagged = entry) ∧
      session.entries = DuplicateReport.flagged listings.flatten := by
  obtain ⟨parts, hparts, harchives, hentries⟩ := h
  obtain ⟨listings, hlistings, hflatten⟩ := Session.exists_listings hparts
  rw [← harchives] at hlistings
  refine ⟨listings, hlistings, ?_, hflatten ▸ hentries⟩
  intro entry hentry
  obtain ⟨listed, hlisted, hmem⟩ := List.mem_flatten.mp hentry
  obtain ⟨status, -, hstatus⟩ := (exists_of_forall₂ hlistings).2 listed hlisted
  exact unflagged_of_mem_entries hstatus hmem

/-! ### Counts -/

theorem openDependency_entryCount (tree : Tree) (dependency : String) :
    (openDependency tree true dependency).1.entryCount =
      (openDependency tree true dependency).2.length := by
  by_cases h : ∃ listed, Jar.entries tree dependency = .ok listed
  · obtain ⟨listed, hlisted⟩ := h
    rw [openDependency_of_entries hlisted, ofFound_entryCount]
  · rw [openDependency_of_absent (not_exists.mp h), List.length_nil]

theorem sum_entryCount_assemble (tree : Tree) (path : String) (own : List Entry)
    (manifest : Option Manifest) (paths : List String) :
    ((assemble tree true path own manifest paths).archives.map (·.entryCount)).sum =
      (assemble tree true path own manifest paths).entries.length := by
  have hlength : (assemble tree true path own manifest paths).entries.length =
      (own ++ (paths.map (openDependency tree true)).flatMap (·.2)).length := by
    rw [← List.length_map Entry.unflagged]
    exact (congrArg List.length (DuplicateReport.map_unflagged_flagged _)).trans (List.length_map _)
  -- Both sides are sums over the archives, with the own one in front.
  rw [hlength, List.length_append, List.length_flatMap, List.map_map]
  simp only [assemble, List.map_cons, List.sum_cons, ofFound_entryCount, List.map_map]
  congr 2
  exact List.map_congr_left fun dependency _ => openDependency_entryCount tree dependency

/-! ### Archives that are not there -/

/-- An archive that cannot be listed adds a blank status and nothing else. -/
theorem assemble_of_absent {absent : String}
    (h : ∀ listed, Jar.entries tree absent ≠ .ok listed) (path : String) (own : List Entry)
    (manifest : Option Manifest) (before after : List String) :
    ∃ front back : List ArchiveStatus, front.length = before.length + 1 ∧
      (assemble tree true path own manifest (before ++ absent :: after)).archives =
        front ++ { path := absent } :: back ∧
      { assemble tree true path own manifest (before ++ absent :: after) with
          archives := front ++ back } =
        assemble tree true path own manifest (before ++ after) := by
  refine ⟨.ofFound tree path own.length :: before.map fun path => (openDependency tree true path).1,
    after.map fun path => (openDependency tree true path).1, ?_, ?_, ?_⟩
  · rw [List.length_cons, List.length_map]
  · simp only [assemble, List.map_append, List.map_cons, openDependency_of_absent h, List.map_map,
      List.cons_append, Function.comp_def]
  · simp only [assemble, List.map_append, List.map_cons, List.flatMap_append, List.flatMap_cons,
      openDependency_of_absent h, List.nil_append, List.map_map, List.cons_append,
      Function.comp_def]

/-! ### Opened sessions -/

/-- What a session holds when an archive with entries of its own was opened together with all that
its manifest names. -/
structure IsFresh (tree : Tree) (path : String) (own : List Entry) (session : Session) :
    Prop where
  /-- The first status is that of the archive itself. -/
  root : session.archives.head? = some (.ofFound tree path own.length)
  /-- Then comes a status for each path that the manifest names, as seen from the directory of the
  archive. -/
  dependencies : List.Forall₂ (IsStatusOf tree)
    (((session.manifest.map Manifest.classPath).getD []).map (Path.join (Path.parent path)))
    session.archives.tail
  manifest : ∀ manifest, Jar.manifest tree path = .ok manifest → session.manifest = manifest
  /-- A manifest that cannot be read makes the same session as none. -/
  noManifest : ((∃ failure, Jar.manifest tree path = .error failure) ∨
    Jar.manifest tree path = .ok none) → session = assemble tree true path own none []
  /-- The entries are those that the found archives list, in order, but for the flags. -/
  entries : ∃ listings,
    List.Forall₂ (fun status listed => Jar.entries tree status.path = .ok listed)
      (session.archives.filter (·.found)) listings ∧
    session.entries.map Entry.unflagged = listings.flatten
  /-- Without an archive that cannot be listed nothing would change but that its blank status would
  not be there. -/
  absent : ∀ before absent after,
    ((session.manifest.map Manifest.classPath).getD []).map (Path.join (Path.parent path)) =
      before ++ absent :: after →
    (tree.isFile absent = false ∨ ∃ failure, Jar.entries tree absent = .error failure) →
    ∃ front back, front.length = before.length + 1 ∧
      session.archives = front ++ { path := absent } :: back ∧
      { session with archives := front ++ back } =
        assemble tree true path own session.manifest (before ++ after)
  entryCount : (session.archives.map (·.entryCount)).sum = session.entries.length
  provided : ∀ name, name ∈ session.provided ↔
    ∃ entry ∈ session.entries, entry.className? = some name
  /-- The flags of an entry tell of another position with the same path, and with the same path and
  checksum. -/
  flags : ∀ (i : Nat) (entry : Entry), session.entries[i]? = some entry →
    (entry.isNameMatch = true ↔ ∃ (j : Nat) (other : Entry), j ≠ i ∧
      session.entries[j]? = some other ∧ other.fullPath = entry.fullPath) ∧
    (entry.isChecksumMatch = true ↔ ∃ (j : Nat) (other : Entry), j ≠ i ∧
      session.entries[j]? = some other ∧ other.fullPath = entry.fullPath ∧
      other.checksum = entry.checksum)

theorem dependencies_eq (path : String) (manifest : Option Manifest) :
    dependencies path manifest =
      ((manifest.map Manifest.classPath).getD []).map (Path.join (Path.parent path)) := by
  cases manifest <;> rfl

/-- Every session that was opened over an archive, with all that its manifest names, holds what a
fresh session holds. -/
theorem openArchive_isFresh {tree : Tree} {path : String} {session : Session}
    (h : openArchive tree path true = .ok session) :
    ∃ own, Jar.entries tree path = .ok own ∧ IsFresh tree path own session := by
  obtain ⟨own, hown, rfl⟩ := openArchive_eq_ok.mp h
  refine ⟨own, hown, ?_⟩
  have hlisting := isListing_assemble hown (Jar.manifest tree path).toOption.join
    (dependencies path (Jar.manifest tree path).toOption.join)
  obtain ⟨listings, hlistings, hplain, hflagged⟩ := hlisting.exists_listings
  constructor
  case root => rfl
  case dependencies =>
    rw [← dependencies_eq]
    simp only [assemble, List.tail_cons, List.map_map, List.forall₂_map_right_iff,
      List.forall₂_same]
    exact fun dependency _ => isStatusOf_openDependency tree dependency
  case manifest =>
    intro manifest hmanifest
    change (Jar.manifest tree path).toOption.join = manifest
    rw [hmanifest]
    rfl
  case noManifest =>
    rintro (⟨failure, hfailure⟩ | hnone)
    · rw [hfailure]
      rfl
    · rw [hnone]
      rfl
  case entries =>
    refine ⟨listings, hlistings, ?_⟩
    rw [hflagged, DuplicateReport.map_unflagged_flagged]
    exact (List.map_congr_left hplain).trans (List.map_id _)
  case absent =>
    intro before absent after hsplit habsent
    have hunlisted : ∀ listed, Jar.entries tree absent ≠ .ok listed := by
      intro listed hlisted
      rcases habsent with hfile | ⟨failure, hfailure⟩
      · rw [isFile_of_entries hlisted] at hfile
        cases hfile
      · rw [hlisted] at hfailure
        cases hfailure
    have hblank := assemble_of_absent hunlisted path own (Jar.manifest tree path).toOption.join
      before after
    rwa [← hsplit, ← dependencies_eq] at hblank
  case entryCount => exact sum_entryCount_assemble ..
  case provided =>
    intro name
    rw [openArchive_provided h, Entry.provided, NameSet.mem_ofList, List.mem_filterMap]
  case flags =>
    intro i entry hentry
    rw [hflagged] at hentry ⊢
    exact DuplicateReport.flags_of_getElem?_flagged hplain hentry

/-! ### A session with archives of all sorts -/

/-- An archive with the class file `Main.class`. Its manifest names `lib.jar`, `./lib.jar`,
`torn.jar` and `gone.jar`. -/
def bundleArchive : ByteArray := ⟨#[
    80, 75, 3, 4, 10, 0, 0, 0, 0, 0, 0, 0, 33, 0, 85, 130, 162, 201, 48, 0, 0, 0, 48, 0, 0, 0,
    20, 0, 0, 0, 77, 69, 84, 65, 45, 73, 78, 70, 47, 77, 65, 78, 73, 70, 69, 83, 84, 46, 77, 70,
    67, 108, 97, 115, 115, 45, 80, 97, 116, 104, 58, 32, 108, 105, 98, 46, 106, 97, 114, 32, 46,
    47, 108, 105, 98, 46, 106, 97, 114, 32, 116, 111, 114, 110, 46, 106, 97, 114, 32, 103, 111,
    110, 101, 46, 106, 97, 114, 10, 80, 75, 3, 4, 10, 0, 0, 0, 0, 0, 0, 0, 33, 0, 94, 109, 58,
    177, 10, 0, 0, 0, 10, 0, 0, 0, 10, 0, 0, 0, 77, 97, 105, 110, 46, 99, 108, 97, 115, 115,
    202, 254, 186, 190, 0, 0, 0, 52, 0, 1, 80, 75, 1, 2, 10, 0, 10, 0, 0, 0, 0, 0, 0, 0, 33, 0,
    85, 130, 162, 201, 48, 0, 0, 0, 48, 0, 0, 0, 20, 0, 0, 0, 0, 0, 0, 0, 0, 0, 0, 0, 0, 0, 0,
    0, 0, 0, 77, 69, 84, 65, 45, 73, 78, 70, 47, 77, 65, 78, 73, 70, 69, 83, 84, 46, 77, 70, 80,
    75, 1, 2, 10, 0, 10, 0, 0, 0, 0, 0, 0, 0, 33, 0, 94, 109, 58, 177, 10, 0, 0, 0, 10, 0, 0, 0,
    10, 0, 0, 0, 0, 0, 0, 0, 0, 0, 0, 0, 0, 0, 98, 0, 0, 0, 77, 97, 105, 110, 46, 99, 108, 97,
    115, 115, 80, 75, 5, 6, 0, 0, 0, 0, 2, 0, 2, 0, 122, 0, 0, 0, 148, 0, 0, 0, 0, 0]⟩

/-- An archive with the directory `com/` and the class file `com/Util.class`. -/
def folderArchive : ByteArray := ⟨#[
    80, 75, 3, 4, 10, 0, 0, 0, 0, 0, 0, 0, 33, 0, 0, 0, 0, 0, 0, 0, 0, 0, 0, 0, 0, 0, 4, 0, 0,
    0, 99, 111, 109, 47, 80, 75, 3, 4, 10, 0, 0, 0, 0, 0, 0, 0, 33, 0, 94, 109, 58, 177, 10, 0,
    0, 0, 10, 0, 0, 0, 14, 0, 0, 0, 99, 111, 109, 47, 85, 116, 105, 108, 46, 99, 108, 97, 115,
    115, 202, 254, 186, 190, 0, 0, 0, 52, 0, 1, 80, 75, 1, 2, 10, 0, 10, 0, 0, 0, 0, 0, 0, 0,
    33, 0, 0, 0, 0, 0, 0, 0, 0, 0, 0, 0, 0, 0, 4, 0, 0, 0, 0, 0, 0, 0, 0, 0, 0, 0, 0, 0, 0, 0,
    0, 0, 99, 111, 109, 47, 80, 75, 1, 2, 10, 0, 10, 0, 0, 0, 0, 0, 0, 0, 33, 0, 94, 109, 58,
    177, 10, 0, 0, 0, 10, 0, 0, 0, 14, 0, 0, 0, 0, 0, 0, 0, 0, 0, 0, 0, 0, 0, 34, 0, 0, 0, 99,
    111, 109, 47, 85, 116, 105, 108, 46, 99, 108, 97, 115, 115, 80, 75, 5, 6, 0, 0, 0, 0, 2, 0,
    2, 0, 110, 0, 0, 0, 88, 0, 0, 0, 0, 0]⟩

/-- An archive whose directory has the class file `Torn.class`. Where its local header should be
there is none. -/
def tornArchive : ByteArray := ⟨#[
    0, 75, 3, 4, 10, 0, 0, 0, 0, 0, 0, 0, 33, 0, 94, 109, 58, 177, 10, 0, 0, 0, 10, 0, 0, 0, 10,
    0, 0, 0, 84, 111, 114, 110, 46, 99, 108, 97, 115, 115, 202, 254, 186, 190, 0, 0, 0, 52, 0,
    1, 80, 75, 1, 2, 10, 0, 10, 0, 0, 0, 0, 0, 0, 0, 33, 0, 94, 109, 58, 177, 10, 0, 0, 0, 10,
    0, 0, 0, 10, 0, 0, 0, 0, 0, 0, 0, 0, 0, 0, 0, 0, 0, 0, 0, 0, 0, 84, 111, 114, 110, 46, 99,
    108, 97, 115, 115, 80, 75, 5, 6, 0, 0, 0, 0, 1, 0, 1, 0, 56, 0, 0, 0, 50, 0, 0, 0, 0, 0]⟩

/-- A directory with the three archives in it. -/
def bundleTree : Tree where
  root := .directory [("app.jar", .file bundleArchive 0), ("lib.jar", .file folderArchive 0),
    ("torn.jar", .file tornArchive 0)]

/-- The session over the first archive. -/
def bundleSession (recurse : Bool) : Session :=
  (openArchive bundleTree "app.jar" recurse).toOption.getD { root := "app.jar", kind := .archive }

theorem bundleSession_opened (recurse : Bool) :
    openArchive bundleTree "app.jar" recurse = .ok (bundleSession recurse) := by
  cases recurse <;> exact eq_ok_getD (by decide +kernel)

/-- The session over the first archive holds what a fresh session holds. One archive is there twice,
one cannot be listed and one is not there. -/
theorem openArchive_isFresh_bundle :
    openArchive bundleTree "app.jar" true = .ok (bundleSession true) ∧
      (bundleSession true).archives.map (fun status => (status.path, status.found)) =
        [("app.jar", true), ("lib.jar", true), ("./lib.jar", true), ("torn.jar", false),
          ("gone.jar", false)] ∧
      ∃ own, Jar.entries bundleTree "app.jar" = .ok own ∧
        IsFresh bundleTree "app.jar" own (bundleSession true) :=
  ⟨bundleSession_opened true, by decide +kernel, openArchive_isFresh (bundleSession_opened true)⟩

end Session

end JarAudit
