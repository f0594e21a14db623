import JarAudit.Proofs.Session.Opening
import JarAudit.Session.Audit

/-!
# Verifying a session against asking each of its entries

Missing classes can be asked for in two ways: of a whole session by `Session.verify`, and entry by
entry by `Session.missing`. Both leave out what the session provides and what the platform provides,
and both leave a class out of what it misses itself; but they take the name of that class from
different places. The query takes the name that the image gives (`queryName`), and the whole session
that of the record (`recordName`), so they can differ over a class whose record has another name.
`OwnNamesCovered` is the condition under which no difference shows.
-/

namespace JarAudit

open JarAudit.Files JarAudit.ClassFile

/-! ### Reports -/

/-- What went well among some results. -/
theorem mem_partResults_fst {ε α : Type} {results : List (Except ε α)} {value : α} :
    value ∈ (partResults results).1 ↔ .ok value ∈ results := by
  rw [partResults, List.mem_filterMap]
  constructor
  · rintro ⟨result, hresult, hvalue⟩
    cases result with
    | error e => cases hvalue
    | ok other =>
      obtain rfl := Option.some.inj hvalue
      exact hresult
  · intro hresult
    exact ⟨.ok value, hresult, rfl⟩

/-- A set that collects what is missing for each of some images. -/
theorem mem_foldl_missing {scanned : List (ClassImage × List String)}
    {provided system set : NameSet} {name : String} :
    name ∈ scanned.foldl (fun set (image, names) =>
        NameSet.addAll set (missing names provided system image.self).toList) set ↔
      name ∈ set ∨ ∃ pair ∈ scanned, name ∈ missing pair.2 provided system pair.1.self := by
  simp only [← Std.TreeSet.mem_toList (t := missing _ _ _ _)]
  exact NameSet.mem_foldl_addAll

namespace Session

variable {tree : Tree} {session : Session} {system : NameSet} {entry : Entry} {name : String}

theorem scanImage_eq_ok {image : ClassImage} {pair : ClassImage × List String} :
    scanImage image = .ok pair ↔
      pair.1 = image ∧ Reference.references image.image = .ok pair.2 := by
  obtain ⟨scanned, names⟩ := pair
  rw [scanImage]
  cases Reference.references image.image with
  | error fault => exact ⟨nofun, nofun⟩
  | ok found => rw [Except.ok.injEq, Except.ok.injEq, Prod.mk.injEq, eq_comm]

/-- Scanning gives each image beside its references, if it can be scanned. -/
theorem mem_scanned {pair : ClassImage × List String} :
    pair ∈ (session.scanned tree).1 ↔
      pair.1 ∈ (session.images tree).1 ∧ Reference.references pair.1.image = .ok pair.2 := by
  rw [scanned, mem_partResults_fst, List.mem_map]
  constructor
  · rintro ⟨image, himage, hscan⟩
    obtain ⟨rfl, hnames⟩ := scanImage_eq_ok.mp hscan
    exact ⟨himage, hnames⟩
  · rintro ⟨himage, hnames⟩
    exact ⟨pair.1, himage, scanImage_eq_ok.mpr ⟨rfl, hnames⟩⟩

/-- A name is reported missing when some image refers to it that does not have it as its own, and
nothing provides it. -/
theorem mem_verify_missing :
    name ∈ (session.verify tree system).missing ↔
      ∃ image ∈ (session.images tree).1, ∃ names, Reference.references image.image = .ok names ∧
        name ∈ JarAudit.missing names session.provided system image.self := by
  have hreport : (session.verify tree system).missing =
      (session.scanned tree).1.foldl (fun set (image, names) =>
        NameSet.addAll set (JarAudit.missing names session.provided system image.self).toList) ∅ :=
    rfl
  rw [hreport, mem_foldl_missing]
  constructor
  · rintro (hempty | ⟨pair, hpair, hname⟩)
    · exact absurd hempty Std.TreeSet.not_mem_emptyc
    · obtain ⟨himage, hnames⟩ := mem_scanned.mp hpair
      exact ⟨pair.1, himage, pair.2, hnames, hname⟩
  · rintro ⟨image, himage, names, hnames, hname⟩
    exact .inr ⟨(image, names), mem_scanned.mpr ⟨himage, hnames⟩, hname⟩

/-! ### Entries -/

/-- The name that the image of an entry gives to its class. -/
def imageName (tree : Tree) (entry : Entry) : Option String :=
  (read tree entry).toOption.bind fun image => (parse image).outline.className

/-- The name under which the query for an entry does not miss its class. -/
def queryName (tree : Tree) (entry : Entry) : Option String :=
  (imageName tree entry).or entry.className?

/-- The name under which verifying a session does not miss the class of an entry: in an archive, that
of the record. -/
def recordName (tree : Tree) (entry : Entry) : Option String :=
  if entry.isStandalone then imageName tree entry else Entry.dropClassSuffix? entry.fullPath

/-- An entry can be scanned and refers to a class that neither the session nor the platform
provides. -/
def Needs (session : Session) (tree : Tree) (system : NameSet) (entry : Entry) (name : String) :
    Prop :=
  ∃ image names, read tree entry = .ok image ∧ Reference.references image = .ok names ∧
    name ∈ names ∧ name ∉ session.provided ∧ name ∉ system

/-- Verifying a session comes to an entry. In an archive it comes to the class files, unless there is
one among all the records that cannot be read. -/
def IsReached (tree : Tree) (entry : Entry) : Prop :=
  entry.isStandalone = true ∨
    entry.isClass = true ∧ ∃ files, Jar.classFiles tree entry.owningArchive = .ok files

theorem references_eq_ok {image : List UInt8} {names : List String} :
    references tree entry = .ok (image, names) ↔
      read tree entry = .ok image ∧ Reference.references image = .ok names := by
  rw [references, bind_eq_ok]
  constructor
  · rintro ⟨_, hread, hrest⟩
    obtain ⟨_, hnames, hpair⟩ := bind_eq_ok.mp hrest
    rw [inContext_eq_ok, liftImage, mapError_eq_ok] at hnames
    obtain ⟨rfl, rfl⟩ := Prod.mk.inj (Except.ok.inj hpair)
    exact ⟨hread, hnames⟩
  · rintro ⟨hread, hnames⟩
    refine ⟨image, hread, bind_eq_ok.mpr ⟨names, ?_, rfl⟩⟩
    rw [inContext_eq_ok, liftImage, mapError_eq_ok, hnames]

/-- What the query for an entry answers. -/
theorem exists_missing_iff :
    (∃ missing, session.missing tree entry system = .ok missing ∧ name ∈ missing) ↔
      session.Needs tree system entry name ∧ queryName tree entry ≠ some name := by
  constructor
  · rintro ⟨missing, hmissing, hname⟩
    obtain ⟨⟨image, names⟩, hreferences, hset⟩ := bind_eq_ok.mp hmissing
    obtain ⟨hread, hnames⟩ := references_eq_ok.mp hreferences
    obtain rfl := Except.ok.inj hset
    obtain ⟨href, hself, hprovided, hsystem⟩ := mem_missing.mp hname
    refine ⟨⟨image, names, hread, hnames, href, hprovided, hsystem⟩, ?_⟩
    rw [queryName, imageName, hread]
    exact hself
  · rintro ⟨⟨image, names, hread, hnames, href, hprovided, hsystem⟩, hself⟩
    rw [queryName, imageName, hread] at hself
    exact ⟨_, bind_eq_ok.mpr ⟨(image, names), references_eq_ok.mpr ⟨hread, hnames⟩, rfl⟩,
      mem_missing.mpr ⟨href, hself, hprovided, hsystem⟩⟩

/-! ### Images -/

theorem mem_images_of_classFile (hkind : session.kind = .classFile) {image : ClassImage} :
    image ∈ (session.images tree).1 ↔ ∃ entry ∈ session.entries, ∃ bytes,
      read tree entry = .ok bytes ∧
        { archive := "", entry := entry.fullPath, self := (parse bytes).outline.className,
          image := bytes } = image := by
  rw [images, hkind, List.mem_flatten]
  simp only [mem_partResults_fst, List.mem_map]
  constructor
  · rintro ⟨found, ⟨entry, hentry, hfile⟩, himage⟩
    rw [fileImage] at hfile
    cases hread : read tree entry with
    | error failure =>
      rw [hread] at hfile
      cases hfile
    | ok bytes =>
      rw [hread] at hfile
      obtain rfl := Except.ok.inj hfile
      exact ⟨entry, hentry, bytes, hread, (List.mem_singleton.mp himage).symm⟩
  · rintro ⟨entry, hentry, bytes, hread, rfl⟩
    exact ⟨_, ⟨entry, hentry, by rw [fileImage, hread]⟩, List.mem_singleton.mpr rfl⟩

theorem mem_images_of_archive (hkind : session.kind = .archive) {image : ClassImage} :
    image ∈ (session.images tree).1 ↔ ∃ status ∈ session.archives, status.found = true ∧
      ∃ files, Jar.classFiles tree status.path = .ok files ∧ ∃ file ∈ files,
        { archive := status.path, entry := file.1, self := Entry.dropClassSuffix? file.1,
          image := file.2 } = image := by
  rw [images, hkind, List.mem_flatten]
  simp only [mem_partResults_fst, List.mem_map, List.mem_filter, and_assoc]
  constructor
  · rintro ⟨found, ⟨status, hstatus, hfound, hfiles⟩, himage⟩
    rw [archiveImages] at hfiles
    cases hread : Jar.classFiles tree status.path with
    | error failure =>
      rw [hread] at hfiles
      cases hfiles
    | ok files =>
      rw [hread] at hfiles
      obtain rfl := Except.ok.inj hfiles
      exact ⟨status, hstatus, hfound, files, hread, List.mem_map.mp himage⟩
  · rintro ⟨status, hstatus, hfound, files, hread, hfile⟩
    refine ⟨_, ⟨status, hstatus, hfound, ?_⟩, List.mem_map.mpr hfile⟩
    rw [archiveImages, hread]

/-- No two records of an archive of the session share a name. -/
def NamesDistinct (session : Session) (tree : Tree) : Prop :=
  ∀ status ∈ session.archives, status.found = true → ∀ archive,
    Jar.openAt tree status.path = .ok archive → (archive.records.map (·.name)).Nodup

/-- What verifying a session over a class file reports. -/
theorem mem_verify_missing_of_classFile {path : String}
    (hopen : openClassFile tree path = .ok session) :
    name ∈ (session.verify tree system).missing ↔ ∃ entry ∈ session.entries,
      IsReached tree entry ∧ session.Needs tree system entry name ∧
        recordName tree entry ≠ some name := by
  obtain ⟨hkind, entry, hentries, halone⟩ := openClassFile_entries hopen
  rw [mem_verify_missing]
  simp only [mem_images_of_classFile hkind, hentries, List.mem_singleton, exists_eq_left]
  have hname : ∀ image, read tree entry = .ok image →
      recordName tree entry = (parse image).outline.className := by
    intro image hread
    rw [recordName, if_pos halone, imageName, hread]
    rfl
  constructor
  · rintro ⟨_, ⟨image, hread, rfl⟩, names, hnames, hmissing⟩
    obtain ⟨href, hself, hprovided, hsystem⟩ := mem_missing.mp hmissing
    exact ⟨.inl halone, ⟨image, names, hread, hnames, href, hprovided, hsystem⟩,
      hname image hread ▸ hself⟩
  · rintro ⟨-, ⟨image, names, hread, hnames, href, hprovided, hsystem⟩, hself⟩
    rw [hname image hread] at hself
    exact ⟨_, ⟨image, hread, rfl⟩, names, hnames,
      mem_missing.mpr ⟨href, hself, hprovided, hsystem⟩⟩

theorem isClass_iff :
    entry.isClass = true ↔ (Entry.dropClassSuffix? entry.fullPath).isSome = true := by
  rw [Entry.isClass, Entry.dropClassSuffix?, Option.isSome_map,
    List.isSome_isSuffixOf?_eq_isSuffixOf]

/-- An entry of an archive that can be opened does not stand alone. -/
theorem isStandalone_eq_false {archive : Zip.Archive}
    (h : Jar.openAt tree entry.owningArchive = .ok archive) : entry.isStandalone = false := by
  rw [Entry.isStandalone, ← Bool.not_eq_true, String.isEmpty_iff]
  intro hempty
  rw [hempty] at h
  exact Jar.openAt_empty tree h

/-- What an entry of an archive holds is the contents under its path. -/
theorem read_of_record (halone : entry.isStandalone = false) :
    read tree entry = Jar.contents tree entry.owningArchive entry.fullPath := by
  rw [read, halone]
  rfl

theorem recordName_of_record (halone : entry.isStandalone = false) :
    recordName tree entry = Entry.dropClassSuffix? entry.fullPath := by
  rw [recordName, halone]
  rfl

/-- What verifying a session over archives reports. The entries stand for the images: an archive that
lists a class file under a name also answers the name with the same contents. -/
theorem mem_verify_missing_of_archive {path : String}
    (hopen : openArchive tree path true = .ok session) (hnames : session.NamesDistinct tree) :
    name ∈ (session.verify tree system).missing ↔ ∃ entry ∈ session.entries,
      IsReached tree entry ∧ session.Needs tree system entry name ∧
        recordName tree entry ≠ some name := by
  have hkind := openArchive_kind hopen
  rw [mem_verify_missing]
  simp only [mem_images_of_archive hkind]
  constructor
  · rintro ⟨_, ⟨status, hstatus, hfound, files, hfiles, ⟨record, bytes⟩, hfile, rfl⟩, names, hrefs,
      hmissing⟩
    obtain ⟨archive, harchive, -⟩ := bind_eq_ok.mp hfiles
    obtain ⟨hcontents, hplain, hclass⟩ :=
      (Jar.mem_classFiles_iff_contents harchive hfiles
        (hnames status hstatus hfound archive harchive)).mp hfile
    -- The file is a record of the archive, and the session lists every record as an entry.
    obtain ⟨own, hown, hownName, -⟩ := (Jar.mem_classFiles harchive hfiles).mp hfile
    obtain ⟨entry, hentry, hplace⟩ := (exists_entry_iff hopen).mpr
      ⟨status, hstatus, hfound, rfl, archive, harchive, own, hown, hownName ▸ hplain, hownName⟩
    obtain ⟨howner, rfl⟩ := Prod.mk.inj hplace
    rw [← howner] at harchive hfiles hcontents
    have halone := isStandalone_eq_false harchive
    rw [← read_of_record halone] at hcontents
    obtain ⟨href, hother, hprovided, hsystem⟩ := mem_missing.mp hmissing
    exact ⟨entry, hentry, .inr ⟨isClass_iff.mpr hclass, files, hfiles⟩,
      ⟨bytes, names, hcontents, hrefs, href, hprovided, hsystem⟩,
      recordName_of_record halone ▸ hother⟩
  · rintro ⟨entry, hentry, hreached, ⟨bytes, names, hread, hrefs, href, hprovided, hsystem⟩, hother⟩
    obtain ⟨status, hstatus, hfound, howner, archive, harchive, own, -, hplain, hownName⟩ :=
      (exists_entry_iff hopen).mp ⟨entry, hentry, rfl⟩
    have halone := isStandalone_eq_false harchive
    rw [read_of_record halone] at hread
    rw [recordName_of_record halone] at hother
    obtain hfalse | ⟨hclass, files, hfiles⟩ := hreached
    · rw [halone] at hfalse
      cases hfalse
    -- No other record has the name, so what is found under it is what is read in turn.
    have hfile : (entry.fullPath, bytes) ∈ files :=
      (Jar.mem_classFiles_iff_contents harchive hfiles
        (hnames status hstatus hfound archive (howner ▸ harchive))).mpr
        ⟨hread, hownName ▸ hplain, isClass_iff.mp hclass⟩
    exact ⟨_, ⟨status, hstatus, hfound, files, howner ▸ hfiles, _, hfile, rfl⟩, names, hrefs,
      mem_missing.mpr ⟨href, hother, hprovided, hsystem⟩⟩

/-- Some entry that verifying comes to needs a class, and the class is not the entry's own by the name
of its record. -/
def MissedByVerify (session : Session) (tree : Tree) (system : NameSet) (name : String) : Prop :=
  ∃ entry ∈ session.entries, IsReached tree entry ∧ session.Needs tree system entry name ∧
    recordName tree entry ≠ some name

/-- Some entry that is named like a class file needs a class, and the class is not the entry's own by
the name that its image gives. -/
def MissedByQuery (session : Session) (tree : Tree) (system : NameSet) (name : String) : Prop :=
  ∃ entry ∈ session.entries, entry.isClass = true ∧ session.Needs tree system entry name ∧
    queryName tree entry ≠ some name

theorem mem_verify_missing_iff (hopen : IsOpened tree session)
    (hnames : session.NamesDistinct tree) :
    name ∈ (session.verify tree system).missing ↔ session.MissedByVerify tree system name := by
  rcases hopen with ⟨path, hfile⟩ | ⟨path, harchive⟩
  · exact mem_verify_missing_of_classFile hfile
  · exact mem_verify_missing_of_archive harchive hnames

/-- An entry does not stand alone unless the session is over it, and then it is the only one. -/
theorem eq_of_isStandalone (hopen : IsOpened tree session) (hentry : entry ∈ session.entries)
    (halone : entry.isStandalone = true) {other : Entry} (hother : other ∈ session.entries) :
    other = entry := by
  rcases hopen with ⟨path, hfile⟩ | ⟨path, harchive⟩
  · obtain ⟨-, only, hentries, -⟩ := openClassFile_entries hfile
    rw [hentries, List.mem_singleton] at hentry hother
    rw [hentry, hother]
  · obtain ⟨_, _, _, _, archive, hopened, -⟩ :=
      (exists_entry_iff harchive).mp ⟨entry, hentry, rfl⟩
    rw [isStandalone_eq_false hopened] at halone
    cases halone

theorem queryName_of_isStandalone (halone : entry.isStandalone = true) :
    queryName tree entry = recordName tree entry := by
  rw [queryName, recordName, Entry.className?, if_pos halone, if_pos halone, Option.or_none]

/-- A class that needs itself under the name of its record has a backslash in this name, for under the
name with `/` in its place the session provides it. -/
theorem forwardSlashes_ne_of_needs (hopen : IsOpened tree session)
    (hentry : entry ∈ session.entries) (hneeds : session.Needs tree system entry name)
    (halone : entry.isStandalone = false) (hrecord : recordName tree entry = some name) :
    Entry.forwardSlashes name ≠ name := by
  intro hslashes
  have hprovided : session.provided = Entry.provided session.entries := by
    rcases hopen with ⟨path, hfile⟩ | ⟨path, harchive⟩
    · obtain ⟨-, only, hentries, hstands⟩ := openClassFile_entries hfile
      rw [hentries, List.mem_singleton] at hentry
      rw [hentry, hstands] at halone
      cases halone
    · exact openArchive_provided harchive
  have hclass : entry.className? = some name := by
    rw [recordName_of_record halone] at hrecord
    rw [Entry.className?, halone, Entry.classNameOf?, hrecord]
    exact congrArg some hslashes
  obtain ⟨_, _, -, -, -, hmissing, -⟩ := hneeds
  rw [hprovided, Entry.provided, NameSet.mem_ofList] at hmissing
  exact hmissing (List.mem_filterMap.mpr ⟨entry, hentry, hclass⟩)

/-- What verifying a session and asking its entries make of single entries differently does not show
in what they find altogether. -/
structure OwnNamesCovered (session : Session) (tree : Tree) (system : NameSet) : Prop where
  /-- A class refers to itself under the name that its image gives, and its record has another name:
  then the query for another entry misses the class too. -/
  declared : ∀ entry ∈ session.entries, IsReached tree entry → ∀ name,
    session.Needs tree system entry name → queryName tree entry = some name →
    recordName tree entry ≠ some name → session.MissedByQuery tree system name
  /-- A class refers to itself under the name of its record, which has a backslash in it, and its
  image gives another name: then verifying misses the class for another entry too. -/
  recorded : ∀ entry ∈ session.entries, entry.isClass = true → ∀ name,
    session.Needs tree system entry name → recordName tree entry = some name →
    Entry.forwardSlashes name ≠ name → queryName tree entry ≠ some name →
    session.MissedByVerify tree system name
  /-- An archive has a record that cannot be read, so verifying passes over all its classes: then
  what they miss is missing from others too. -/
  unreached : ∀ entry ∈ session.entries, entry.isClass = true → ¬ IsReached tree entry → ∀ name,
    session.Needs tree system entry name → queryName tree entry ≠ some name →
    session.MissedByVerify tree system name
  /-- A file that stands alone and is not named like a class file needs nothing but itself. -/
  unnamed : ∀ entry ∈ session.entries, entry.isStandalone = true → entry.isClass = false →
    ∀ name, session.Needs tree system entry name → recordName tree entry = some name

/-- Verifying a session reports exactly what the queries for its class files find altogether if and
only if their different views of a class's own name are covered. -/
theorem verify_eq_queries_iff {tree : Tree} {session : Session} (system : NameSet)
    (hopen : IsOpened tree session) (hnames : session.NamesDistinct tree) :
    (∀ name, name ∈ (session.verify tree system).missing ↔
      ∃ entry ∈ session.entries, entry.isClass = true ∧
        ∃ missing, session.missing tree entry system = .ok missing ∧ name ∈ missing) ↔
    session.OwnNamesCovered tree system := by
  simp only [mem_verify_missing_iff hopen hnames, exists_missing_iff]
  constructor
  · intro hsame
    refine ⟨?_, ?_, ?_, ?_⟩
    · intro entry hentry hreached name hneeds _ hrecord
      exact (hsame name).mp ⟨entry, hentry, hreached, hneeds, hrecord⟩
    · intro entry hentry hclass name hneeds _ _ hquery
      exact (hsame name).mpr ⟨entry, hentry, hclass, hneeds, hquery⟩
    · intro entry hentry hclass _ name hneeds hquery
      exact (hsame name).mpr ⟨entry, hentry, hclass, hneeds, hquery⟩
    · intro entry hentry halone hclass name hneeds
      by_contra hrecord
      obtain ⟨other, hother, hotherClass, -⟩ :=
        (hsame name).mp ⟨entry, hentry, .inl halone, hneeds, hrecord⟩
      rw [eq_of_isStandalone hopen hentry halone hother, hclass] at hotherClass
      cases hotherClass
  · intro hcovered name
    -- An entry answers for itself wherever its two names do not stand between.
    constructor
    · rintro ⟨entry, hentry, hreached, hneeds, hrecord⟩
      by_cases hquery : queryName tree entry = some name
      · exact hcovered.declared entry hentry hreached name hneeds hquery hrecord
      · cases hclass : entry.isClass with
        | true => exact ⟨entry, hentry, hclass, hneeds, hquery⟩
        | false =>
          have halone : entry.isStandalone = true := by
            rcases hreached with halone | ⟨hreached, -⟩
            · exact halone
            · rw [hclass] at hreached
              cases hreached
          exact absurd (hcovered.unnamed entry hentry halone hclass name hneeds) hrecord
    · rintro ⟨entry, hentry, hclass, hneeds, hquery⟩
      by_cases hreached : IsReached tree entry
      · by_cases hrecord : recordName tree entry = some name
        · have halone : entry.isStandalone = false := by
            refine eq_false_of_ne_true fun halone => hquery ?_
            rw [queryName_of_isStandalone halone, hrecord]
          exact hcovered.recorded entry hentry hclass name hneeds hrecord
            (forwardSlashes_ne_of_needs hopen hentry hneeds halone hrecord) hquery
        · exact ⟨entry, hentry, hreached, hneeds, hrecord⟩
      · exact hcovered.unreached entry hentry hclass hreached name hneeds hquery

/-! ### A class below a directory of its archive -/

/-- An archive with the one record `WEB-INF/classes/A.class`. Its class calls itself `A` and descends
from `Base`. -/
def webArchive : ByteArray := ⟨#[
    80, 75, 3, 4, 10, 0, 0, 0, 0, 0, 0, 0, 33, 0, 124, 225, 206, 25, 41, 0, 0, 0, 41, 0, 0, 0, 23,
    0, 0, 0, 87, 69, 66, 45, 73, 78, 70, 47, 99, 108, 97, 115, 115, 101, 115, 47, 65, 46, 99, 108,
    97, 115, 115, 202, 254, 186, 190, 0, 0, 0, 52, 0, 5, 1, 0, 1, 65, 7, 0, 1, 1, 0, 4, 66, 97,
    115, 101, 7, 0, 3, 0, 33, 0, 2, 0, 4, 0, 0, 0, 0, 0, 0, 0, 0, 80, 75, 1, 2, 10, 0, 10, 0, 0,
    0, 0, 0, 0, 0, 33, 0, 124, 225, 206, 25, 41, 0, 0, 0, 41, 0, 0, 0, 23, 0, 0, 0, 0, 0, 0, 0, 0,
    0, 0, 0, 0, 0, 0, 0, 0, 0, 87, 69, 66, 45, 73, 78, 70, 47, 99, 108, 97, 115, 115, 101, 115,
    47, 65, 46, 99, 108, 97, 115, 115, 80, 75, 5, 6, 0, 0, 0, 0, 1, 0, 1, 0, 69, 0, 0, 0, 94, 0,
    0, 0, 0, 0]⟩

/-- A directory with the archive in it. -/
def webTree : Tree := { root := .directory [("app.jar", .file webArchive 0)] }

/-- The session over the archive. -/
def webSession : Session :=
  (openArchive webTree "app.jar" true).toOption.getD { root := "app.jar", kind := .archive }

/-- A platform with the parent alone. -/
def basePlatform : NameSet := NameSet.ofList ["Base"]

theorem webSession_isOpened : IsOpened webTree webSession :=
  .inr ⟨"app.jar", eq_ok_getD (by decide +kernel)⟩

theorem webSession_namesDistinct : webSession.NamesDistinct webTree := by
  have hall : webSession.archives.all (fun status =>
      (Jar.openAt webTree status.path).toOption.all fun archive =>
        decide (archive.records.map (·.name)).Nodup) = true := by
    decide +kernel
  intro status hstatus _ archive hopen
  have hnames := List.all_eq_true.mp hall status hstatus
  rw [hopen] at hnames
  exact of_decide_eq_true hnames

/-- Verifying and asking differ over the archive. -/
theorem verify_eq_queries_iff_webArchive :
    IsOpened webTree webSession ∧ webSession.NamesDistinct webTree ∧
      ((∀ name, name ∈ (webSession.verify webTree basePlatform).missing ↔
        ∃ entry ∈ webSession.entries, entry.isClass = true ∧
          ∃ missing, webSession.missing webTree entry basePlatform = .ok missing ∧
            name ∈ missing) ↔
      webSession.OwnNamesCovered webTree basePlatform) :=
  ⟨webSession_isOpened, webSession_namesDistinct,
    verify_eq_queries_iff basePlatform webSession_isOpened webSession_namesDistinct⟩

/-- Verifying the archive reports its class as missing, which the query for the class does not. All
records can be read and have names of their own. -/
theorem verify_reports_own_class :
    IsOpened webTree webSession ∧ webSession.NamesDistinct webTree ∧
      (∀ entry ∈ webSession.entries, ∃ image, read webTree entry = .ok image) ∧
      "A" ∈ (webSession.verify webTree basePlatform).missing ∧
      ¬ ∃ entry ∈ webSession.entries, entry.isClass = true ∧
          ∃ missing, webSession.missing webTree entry basePlatform = .ok missing ∧
            "A" ∈ missing := by
  refine ⟨webSession_isOpened, webSession_namesDistinct, ?_, ?_, ?_⟩
  · have hall : webSession.entries.all (fun entry =>
        (read webTree entry).toOption.isSome) = true := by
      decide +kernel
    intro entry hentry
    have hread := List.all_eq_true.mp hall entry hentry
    cases himage : read webTree entry with
    | error failure =>
      rw [himage] at hread
      cases hread
    | ok image => exact ⟨image, rfl⟩
  · rw [Std.TreeSet.mem_iff_contains]
    decide +kernel
  · have hall : webSession.entries.all (fun entry =>
        (webSession.missing webTree entry basePlatform).toOption.all fun missing =>
          !missing.contains "A") = true := by
      decide +kernel
    rintro ⟨entry, hentry, -, missing, hmissing, hname⟩
    have hnone := List.all_eq_true.mp hall entry hentry
    rw [hmissing] at hnone
    rw [Std.TreeSet.mem_iff_contains] at hname
    change (!missing.contains "A") = true at hnone
    rw [hname] at hnone
    cases hnone

end Session

end JarAudit
