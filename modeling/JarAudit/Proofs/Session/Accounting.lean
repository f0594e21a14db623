import JarAudit.Proofs.Session.Verify

/-!
# How a session accounts for its class images

A report on a whole session is made in two rounds. First the sources of the session are read: each
gives its class images or else one failure. Then the images are scanned: each gives the classes that
it refers to or else one failure. `Gathers` and `Scans` tell the two rounds source by source and
image by image, and `reports_exact` says what the two reports make of them.

An archive is one source. So its class files are accounted for together or not at all, and
`accountsFor_iff` says when.
-/

namespace JarAudit

open JarAudit.Files JarAudit.ClassFile

/-- What class images are read from: an archive, or a file that stands alone. -/
inductive ImageSource where
  | archive (path : String)
  | file (entry : Entry)

/-- Reading sources in turn. Every source adds its images, or else one failure, in front of what the
sources behind it give. The failure of an archive does not name an entry. -/
inductive Gathers (tree : Tree) :
    List ImageSource → List ClassImage → List EntryFailure → Prop where
  | done : Gathers tree [] [] []
  | archive {path : String} {files : List (String × List UInt8)} {sources : List ImageSource}
      {images : List ClassImage} {failures : List EntryFailure}
      (hread : Jar.classFiles tree path = .ok files)
      (hrest : Gathers tree sources images failures) :
      Gathers tree (.archive path :: sources)
        (files.map (fun (entry, image) =>
          { archive := path, entry, self := Entry.dropClassSuffix? entry, image }) ++ images)
        failures
  | unreadArchive {path : String} {error : Failure} {sources : List ImageSource}
      {images : List ClassImage} {failures : List EntryFailure}
      (hread : Jar.classFiles tree path = .error error)
      (hrest : Gathers tree sources images failures) :
      Gathers tree (.archive path :: sources) images
        ({ archive := path, entry := "", error } :: failures)
  | file {entry : Entry} {image : List UInt8} {sources : List ImageSource}
      {images : List ClassImage} {failures : List EntryFailure}
      (hread : Session.read tree entry = .ok image)
      (hrest : Gathers tree sources images failures) :
      Gathers tree (.file entry :: sources)
        ({ archive := "", entry := entry.fullPath, self := (parse image).outline.className,
           image } :: images) failures
  | unreadFile {entry : Entry} {error : Failure} {sources : List ImageSource}
      {images : List ClassImage} {failures : List EntryFailure}
      (hread : Session.read tree entry = .error error)
      (hrest : Gathers tree sources images failures) :
      Gathers tree (.file entry :: sources) images
        ({ archive := "", entry := entry.fullPath, error } :: failures)

/-- Scanning images in turn. Every image goes with its references to the scanned ones, or else is the
subject of one failure. -/
inductive Scans :
    List ClassImage → List (ClassImage × List String) → List EntryFailure → Prop where
  | done : Scans [] [] []
  | scanned {image : ClassImage} {names : List String} {images : List ClassImage}
      {scanned : List (ClassImage × List String)} {failures : List EntryFailure}
      (hscan : Reference.references image.image = .ok names)
      (hrest : Scans images scanned failures) :
      Scans (image :: images) ((image, names) :: scanned) failures
  | failed {image : ClassImage} {fault : Fault} {images : List ClassImage}
      {scanned : List (ClassImage × List String)} {failures : List EntryFailure}
      (hscan : Reference.references image.image = .error fault)
      (hrest : Scans images scanned failures) :
      Scans (image :: images) scanned
        ({ archive := image.archive, entry := image.entry, error := ⟨.imageFault fault, []⟩ } ::
          failures)

/-! ### The rounds -/

/-- Archives that cannot be read are reported without an entry. -/
theorem Gathers.entry_eq_empty {tree : Tree} {sources : List ImageSource} {images : List ClassImage}
    {failures : List EntryFailure} (h : Gathers tree sources images failures)
    (harchives : ∀ source ∈ sources, ∃ path, source = .archive path) :
    ∀ failure ∈ failures, failure.entry = "" := by
  induction h with
  | done => exact nofun
  | archive _ _ ih =>
    exact ih fun source hsource => harchives source (List.mem_cons_of_mem _ hsource)
  | unreadArchive _ _ ih =>
    rw [List.forall_mem_cons]
    exact ⟨rfl, ih fun source hsource => harchives source (List.mem_cons_of_mem _ hsource)⟩
  | file | unreadFile =>
    obtain ⟨path, hpath⟩ := harchives _ List.mem_cons_self
    cases hpath

/-- Every archive that cannot be read is reported. -/
theorem Gathers.mem_failures {tree : Tree} {sources : List ImageSource} {images : List ClassImage}
    {failures : List EntryFailure} (h : Gathers tree sources images failures) {path : String}
    {error : Failure} (hsource : .archive path ∈ sources)
    (hread : Jar.classFiles tree path = .error error) :
    { archive := path, entry := "", error } ∈ failures := by
  induction h with
  | done => cases hsource
  | archive hother _ ih =>
    rcases List.mem_cons.mp hsource with hsame | hrest
    · obtain rfl := ImageSource.archive.inj hsame
      rw [hread] at hother
      cases hother
    · exact ih hrest
  | unreadArchive hother _ ih =>
    rcases List.mem_cons.mp hsource with hsame | hrest
    · obtain rfl := ImageSource.archive.inj hsame
      rw [hread] at hother
      obtain rfl := Except.error.inj hother
      exact List.mem_cons_self
    · exact List.mem_cons_of_mem _ (ih hrest)
  | file _ _ ih =>
    exact ih ((List.mem_cons.mp hsource).resolve_left nofun)
  | unreadFile _ _ ih =>
    exact List.mem_cons_of_mem _ (ih ((List.mem_cons.mp hsource).resolve_left nofun))

/-- No image is lost and none is counted twice. -/
theorem Scans.length_add_length {images : List ClassImage}
    {scanned : List (ClassImage × List String)} {failures : List EntryFailure}
    (h : Scans images scanned failures) : scanned.length + failures.length = images.length := by
  induction h with
  | done => rfl
  | scanned _ _ ih | failed _ _ ih =>
    simp only [List.length_cons]
    omega

/-- An image ends up among the scanned ones or in a failure that names it. -/
theorem Scans.mem_or_mem {images : List ClassImage} {scanned : List (ClassImage × List String)}
    {failures : List EntryFailure} (h : Scans images scanned failures) {image : ClassImage}
    (himage : image ∈ images) : (∃ names, (image, names) ∈ scanned) ∨
      ∃ failure ∈ failures, failure.archive = image.archive ∧ failure.entry = image.entry := by
  induction h with
  | done => cases himage
  | @scanned first names _ _ _ _ _ ih =>
    rcases List.mem_cons.mp himage with rfl | hrest
    · exact .inl ⟨names, List.mem_cons_self⟩
    · exact (ih hrest).imp (fun ⟨names, hmem⟩ => ⟨names, List.mem_cons_of_mem _ hmem⟩) id
  | failed _ _ ih =>
    rcases List.mem_cons.mp himage with rfl | hrest
    · exact .inr ⟨_, List.mem_cons_self, rfl, rfl⟩
    · exact (ih hrest).imp id fun ⟨failure, hmem, hnames⟩ =>
        ⟨failure, List.mem_cons_of_mem _ hmem, hnames⟩

/-- A failure of the second round names an image that was there. -/
theorem Scans.exists_of_mem_failures {images : List ClassImage}
    {scanned : List (ClassImage × List String)} {failures : List EntryFailure}
    (h : Scans images scanned failures) {failure : EntryFailure} (hfailure : failure ∈ failures) :
    ∃ image ∈ images, failure.archive = image.archive ∧ failure.entry = image.entry := by
  induction h with
  | done => cases hfailure
  | scanned _ _ ih =>
    obtain ⟨image, himage, hnames⟩ := ih hfailure
    exact ⟨image, List.mem_cons_of_mem _ himage, hnames⟩
  | @failed first _ _ _ _ _ _ ih =>
    rcases List.mem_cons.mp hfailure with rfl | hrest
    · exact ⟨first, List.mem_cons_self, rfl, rfl⟩
    · obtain ⟨image, himage, hnames⟩ := ih hrest
      exact ⟨image, List.mem_cons_of_mem _ himage, hnames⟩

theorem partResults_ok {ε α : Type} (value : α) (results : List (Except ε α)) :
    partResults (.ok value :: results) =
      (value :: (partResults results).1, (partResults results).2) := rfl

theorem partResults_error {ε α : Type} (error : ε) (results : List (Except ε α)) :
    partResults (.error error :: results) =
      ((partResults results).1, error :: (partResults results).2) := rfl

namespace Session

variable {tree : Tree} {session : Session} {system : NameSet}

/-- The sources of a session, in order: the archives that were found, or the files that stand alone.
-/
def sources (session : Session) : List ImageSource :=
  match session.kind with
  | .archive => (session.archives.filter (·.found)).map fun status => .archive status.path
  | .classFile => session.entries.map .file

/-- The images of one source. -/
def sourceImages (tree : Tree) : ImageSource → Except EntryFailure (List ClassImage)
  | .archive path => archiveImages tree path
  | .file entry => fileImage tree entry

/-- The images of a session are those of its sources. -/
theorem images_eq (session : Session) (tree : Tree) :
    session.images tree =
      ((partResults (session.sources.map (sourceImages tree))).1.flatten,
        (partResults (session.sources.map (sourceImages tree))).2) := by
  rw [images, sources]
  cases session.kind <;> simp only [List.map_map] <;> rfl

theorem gathers_partResults (tree : Tree) (sources : List ImageSource) :
    Gathers tree sources (partResults (sources.map (sourceImages tree))).1.flatten
      (partResults (sources.map (sourceImages tree))).2 := by
  induction sources with
  | nil => exact .done
  | cons source rest ih =>
    rw [List.map_cons]
    cases source with
    | archive path =>
      cases hread : Jar.classFiles tree path with
      | ok files =>
        simp only [sourceImages, archiveImages, hread, partResults_ok, List.flatten_cons]
        exact .archive hread ih
      | error error =>
        simp only [sourceImages, archiveImages, hread, partResults_error]
        exact .unreadArchive hread ih
    | file entry =>
      cases hread : read tree entry with
      | ok image =>
        simp only [sourceImages, fileImage, hread, partResults_ok, List.flatten_cons]
        exact .file hread ih
      | error error =>
        simp only [sourceImages, fileImage, hread, partResults_error]
        exact .unreadFile hread ih

/-- The first round over a session. -/
theorem gathers_images (session : Session) (tree : Tree) :
    Gathers tree session.sources (session.images tree).1 (session.images tree).2 := by
  rw [images_eq]
  exact gathers_partResults tree session.sources

theorem scans_partResults (images : List ClassImage) :
    Scans images (partResults (images.map scanImage)).1 (partResults (images.map scanImage)).2 := by
  induction images with
  | nil => exact .done
  | cons image rest ih =>
    rw [List.map_cons]
    cases hscan : Reference.references image.image with
    | ok names =>
      simp only [scanImage, hscan, partResults_ok]
      exact .scanned hscan ih
    | error fault =>
      simp only [scanImage, hscan, partResults_error]
      exact .failed hscan ih

/-- What both reports on a session are made from: the two rounds, the failures of the first in front
of those of the second. -/
theorem scans_scanned (session : Session) (tree : Tree) :
    ∃ unscanned, Scans (session.images tree).1 (session.scanned tree).1 unscanned ∧
      (session.scanned tree).2 = (session.images tree).2 ++ unscanned :=
  ⟨_, scans_partResults (session.images tree).1, rfl⟩

/-! ### The reports -/

theorem verify_failures :
    (session.verify tree system).failures = (session.scanned tree).2 := rfl

theorem mem_verify_missing_iff_scanned {name : String} :
    name ∈ (session.verify tree system).missing ↔ ∃ scan ∈ (session.scanned tree).1,
      name ∈ scan.2 ∧ scan.1.self ≠ some name ∧ name ∉ session.provided ∧ name ∉ system := by
  rw [verify]
  simp only [mem_foldl_missing, Std.TreeSet.not_mem_emptyc, false_or, mem_missing]

theorem mem_referenced {name : String} :
    name ∈ (session.referenced tree).referenced ↔
      ∃ scan ∈ (session.scanned tree).1, name ∈ scan.2 := by
  exact NameSet.mem_foldl_addAll.trans (or_iff_right Std.TreeSet.not_mem_emptyc)

/-- Both reports account for every source and every image once, and are exact: a class is referred to
when some scanned image refers to it, and it is missing when moreover the image does not have its
name and neither the session nor the platform provides it. A wider platform takes away from what is
missing just what it adds. -/
theorem reports_exact (session : Session) (tree : Tree) (system : NameSet) :
    ∃ images unread scanned unscanned,
      Gathers tree session.sources images unread ∧ Scans images scanned unscanned ∧
      scanned.length + unscanned.length = images.length ∧
      (session.verify tree system).scanned = scanned.length ∧
      (session.referenced tree).scanned = scanned.length ∧
      (session.verify tree system).failures = unread ++ unscanned ∧
      (session.referenced tree).failures = unread ++ unscanned ∧
      (∀ name, name ∈ (session.referenced tree).referenced ↔ ∃ scan ∈ scanned, name ∈ scan.2) ∧
      (∀ name, name ∈ (session.verify tree system).missing ↔ ∃ scan ∈ scanned,
        name ∈ scan.2 ∧ scan.1.self ≠ some name ∧ name ∉ session.provided ∧ name ∉ system) ∧
      (∀ name ∈ (session.verify tree system).missing,
        name ∈ (session.referenced tree).referenced) ∧
      ∀ further name, name ∈ (session.verify tree (system ∪ further)).missing ↔
        name ∈ (session.verify tree system).missing ∧ name ∉ further := by
  obtain ⟨unscanned, hscans, hfailures⟩ := scans_scanned session tree
  refine ⟨(session.images tree).1, (session.images tree).2, (session.scanned tree).1, unscanned,
    gathers_images session tree, hscans, hscans.length_add_length, rfl, rfl, hfailures, hfailures,
    fun name => mem_referenced, fun name => mem_verify_missing_iff_scanned, ?_, ?_⟩
  · intro name hname
    obtain ⟨scan, hscan, href, -⟩ := mem_verify_missing_iff_scanned.mp hname
    exact mem_referenced.mpr ⟨scan, hscan, href⟩
  · intro further name
    rw [mem_verify_missing_iff_scanned, mem_verify_missing_iff_scanned, Std.TreeSet.mem_union_iff,
      not_or]
    constructor
    · rintro ⟨scan, hscan, href, hself, hprovided, hsystem, hfurther⟩
      exact ⟨⟨scan, hscan, href, hself, hprovided, hsystem⟩, hfurther⟩
    · rintro ⟨⟨scan, hscan, href, hself, hprovided, hsystem⟩, hfurther⟩
      exact ⟨scan, hscan, href, hself, hprovided, hsystem, hfurther⟩

/-! ### Archives that are set aside -/

/-- Verifying accounts for a record of an archive: its data was scanned under its name, or a failure
names the archive and the record. -/
def AccountsFor (session : Session) (tree : Tree) (system : NameSet) (path : String)
    (archive : Zip.Archive) (record : Zip.Record) : Prop :=
  (∃ scan ∈ (session.scanned tree).1, scan.1.archive = path ∧ scan.1.entry = record.name ∧
    archive.data? record = some scan.1.image) ∨
  ∃ failure ∈ (session.verify tree system).failures,
    failure.archive = path ∧ failure.entry = record.name

instance (session : Session) (tree : Tree) (system : NameSet) (path : String)
    (archive : Zip.Archive) (record : Zip.Record) :
    Decidable (session.AccountsFor tree system path archive record) :=
  inferInstanceAs (Decidable (_ ∨ _))

theorem name_ne_empty {record : Zip.Record} (hclass : Jar.isClassFile record = true) :
    record.name ≠ "" := by
  intro hempty
  rw [Jar.isClassFile, hempty] at hclass
  cases hclass

/-- Of an archive that has images, all class files could be read. -/
theorem exists_classFiles_of_mem_images (hkind : session.kind = .archive) {image : ClassImage}
    (himage : image ∈ (session.images tree).1) :
    ∃ files, Jar.classFiles tree image.archive = .ok files := by
  obtain ⟨status, -, -, files, hfiles, file, -, rfl⟩ := (mem_images_of_archive hkind).mp himage
  exact ⟨files, hfiles⟩

theorem exists_classFiles_of_accountsFor (hkind : session.kind = .archive) {path : String}
    {archive : Zip.Archive} {record : Zip.Record} (hclass : Jar.isClassFile record = true)
    (h : session.AccountsFor tree system path archive record) :
    ∃ files, Jar.classFiles tree path = .ok files := by
  rcases h with ⟨scan, hscan, rfl, -⟩ | ⟨failure, hfailure, rfl, hentry⟩
  · exact exists_classFiles_of_mem_images hkind (mem_scanned.mp hscan).1
  · obtain ⟨unscanned, hscans, hfailures⟩ := scans_scanned session tree
    rw [verify_failures, hfailures] at hfailure
    rcases List.mem_append.mp hfailure with hunread | hunscanned
    · have hsources : ∀ source ∈ session.sources, ∃ path, source = .archive path := by
        rw [sources, hkind]
        exact List.forall_mem_map.mpr fun status _ => ⟨status.path, rfl⟩
      have hempty := (gathers_images session tree).entry_eq_empty hsources failure hunread
      exact absurd (hentry.symm.trans hempty) (name_ne_empty hclass)
    · obtain ⟨image, himage, hsame, -⟩ := hscans.exists_of_mem_failures hunscanned
      rw [hsame]
      exact exists_classFiles_of_mem_images hkind himage

theorem accountsFor_of_classFiles (hkind : session.kind = .archive) {status : ArchiveStatus}
    (hstatus : status ∈ session.archives) (hfound : status.found = true) {archive : Zip.Archive}
    (hopen : Jar.openAt tree status.path = .ok archive) {record : Zip.Record}
    (hrecord : record ∈ archive.records) (hclass : Jar.isClassFile record = true)
    (hdata : (archive.data? record).isSome = true) {files : List (String × List UInt8)}
    (hfiles : Jar.classFiles tree status.path = .ok files) :
    session.AccountsFor tree system status.path archive record := by
  obtain ⟨unscanned, hscans, hfailures⟩ := scans_scanned session tree
  obtain ⟨bytes, hbytes⟩ := Option.isSome_iff_exists.mp hdata
  have hfile : (record.name, bytes) ∈ files := (Jar.mem_classFiles hopen hfiles).mpr
    ⟨record, hrecord, rfl, Jar.isDirectoryName_eq_false hclass, hclass, hbytes⟩
  have himage := (mem_images_of_archive hkind).mpr
    ⟨status, hstatus, hfound, files, hfiles, _, hfile, rfl⟩
  rcases hscans.mem_or_mem himage with ⟨names, hscan⟩ | ⟨failure, hfailure, harchive, hentry⟩
  · exact .inl ⟨_, hscan, rfl, rfl, hbytes⟩
  · refine .inr ⟨failure, ?_, harchive, hentry⟩
    rw [verify_failures, hfailures]
    exact List.mem_append_right _ hfailure

/-- An archive of the session that cannot be read is reported. -/
theorem mem_verify_failures_of_unread (hkind : session.kind = .archive) {status : ArchiveStatus}
    (hstatus : status ∈ session.archives) (hfound : status.found = true) {error : Failure}
    (hread : Jar.classFiles tree status.path = .error error) :
    { archive := status.path, entry := "", error } ∈ (session.verify tree system).failures := by
  have hsource : .archive status.path ∈ session.sources := by
    rw [sources, hkind]
    exact List.mem_map.mpr ⟨status, List.mem_filter.mpr ⟨hstatus, hfound⟩, rfl⟩
  obtain ⟨unscanned, -, hfailures⟩ := scans_scanned session tree
  rw [verify_failures, hfailures]
  exact List.mem_append_left _ ((gathers_images session tree).mem_failures hsource hread)

/-- A class file that can be read is accounted for if and only if nothing in its archive is
unreadable. Otherwise the archive is set aside as a whole, and a failure names it without an entry. -/
theorem accountsFor_iff {tree : Tree} {session : Session} (system : NameSet)
    (hkind : session.kind = .archive) {status : ArchiveStatus} (hstatus : status ∈ session.archives)
    (hfound : status.found = true) {archive : Zip.Archive}
    (hopen : Jar.openAt tree status.path = .ok archive) {record : Zip.Record}
    (hrecord : record ∈ archive.records) (hclass : Jar.isClassFile record = true)
    (hdata : (archive.data? record).isSome = true) :
    (session.AccountsFor tree system status.path archive record ↔ Jar.IsReadable archive) ∧
      (¬ Jar.IsReadable archive → ∃ error,
        { archive := status.path, entry := "", error } ∈ (session.verify tree system).failures) := by
  rw [← Jar.exists_classFiles_iff hopen]
  refine ⟨⟨exists_classFiles_of_accountsFor hkind hclass, ?_⟩, ?_⟩
  · rintro ⟨files, hfiles⟩
    exact accountsFor_of_classFiles hkind hstatus hfound hopen hrecord hclass hdata hfiles
  · intro hunread
    cases hfiles : Jar.classFiles tree status.path with
    | ok files => exact absurd ⟨files, hfiles⟩ hunread
    | error error => exact ⟨error, mem_verify_failures_of_unread hkind hstatus hfound hfiles⟩

/-! ### A class file beside a damaged one -/

/-- An archive with the class files `Bad.class` and `Good.class`, of which the first does not have the
checksum that the directory gives it. -/
def damagedArchive : ByteArray := ⟨#[
    80, 75, 3, 4, 10, 0, 0, 0, 0, 0, 0, 0, 33, 0, 1, 0, 0, 0, 1, 0, 0, 0, 1, 0, 0, 0, 9, 0, 0,
    0, 66, 97, 100, 46, 99, 108, 97, 115, 115, 0, 80, 75, 3, 4, 10, 0, 0, 0, 0, 0, 0, 0, 33, 0,
    94, 109, 58, 177, 10, 0, 0, 0, 10, 0, 0, 0, 10, 0, 0, 0, 71, 111, 111, 100, 46, 99, 108,
    97, 115, 115, 202, 254, 186, 190, 0, 0, 0, 52, 0, 1, 80, 75, 1, 2, 10, 0, 10, 0, 0, 0, 0,
    0, 0, 0, 33, 0, 1, 0, 0, 0, 1, 0, 0, 0, 1, 0, 0, 0, 9, 0, 0, 0, 0, 0, 0, 0, 0, 0, 0, 0, 0,
    0, 0, 0, 0, 0, 66, 97, 100, 46, 99, 108, 97, 115, 115, 80, 75, 1, 2, 10, 0, 10, 0, 0, 0, 0,
    0, 0, 0, 33, 0, 94, 109, 58, 177, 10, 0, 0, 0, 10, 0, 0, 0, 10, 0, 0, 0, 0, 0, 0, 0, 0, 0,
    0, 0, 0, 0, 40, 0, 0, 0, 71, 111, 111, 100, 46, 99, 108, 97, 115, 115, 80, 75, 5, 6, 0, 0,
    0, 0, 2, 0, 2, 0, 111, 0, 0, 0, 90, 0, 0, 0, 0, 0]⟩

/-- A directory with the archive in it. -/
def damagedTree : Tree := { root := .directory [("app.jar", .file damagedArchive 0)] }

/-- The archive as it is opened. -/
def damagedJar : Zip.Archive :=
  (Jar.openAt damagedTree "app.jar").toOption.getD ⟨damagedArchive, []⟩

/-- The session over the archive. -/
def damagedSession : Session :=
  (openArchive damagedTree "app.jar" true).toOption.getD { root := "app.jar", kind := .archive }

theorem damagedJar_opened : Jar.openAt damagedTree "app.jar" = .ok damagedJar :=
  eq_ok_getD (by decide +kernel)

theorem damagedSession_opened : openArchive damagedTree "app.jar" true = .ok damagedSession :=
  eq_ok_getD (by decide +kernel)

/-- The session finds its archive, and the sound class file in it can be read. -/
theorem damagedSession_found : ∃ status ∈ damagedSession.archives, status.found = true ∧
    status.path = "app.jar" ∧ ∃ record ∈ damagedJar.records, record.name = "Good.class" ∧
      Jar.isClassFile record = true ∧ (damagedJar.data? record).isSome = true := by
  decide +kernel

/-- What the sound class file depends on. -/
theorem accountsFor_iff_damaged : ∃ status ∈ damagedSession.archives, ∃ record ∈ damagedJar.records,
    damagedSession.kind = .archive ∧ status.found = true ∧
      Jar.openAt damagedTree status.path = .ok damagedJar ∧ Jar.isClassFile record = true ∧
      (damagedJar.data? record).isSome = true ∧
      ((damagedSession.AccountsFor damagedTree ∅ status.path damagedJar record ↔
          Jar.IsReadable damagedJar) ∧
        (¬ Jar.IsReadable damagedJar → ∃ error, { archive := status.path, entry := "", error } ∈
          (damagedSession.verify damagedTree ∅).failures)) := by
  obtain ⟨status, hstatus, hfound, hpath, record, hrecord, -, hclass, hdata⟩ := damagedSession_found
  have hopen : Jar.openAt damagedTree status.path = .ok damagedJar := hpath ▸ damagedJar_opened
  have hkind := openArchive_kind damagedSession_opened
  exact ⟨status, hstatus, record, hrecord, hkind, hfound, hopen, hclass, hdata,
    accountsFor_iff ∅ hkind hstatus hfound hopen hrecord hclass hdata⟩

/-- Verifying the session does not account for the sound class file. -/
theorem sound_class_not_accountedFor :
    openArchive damagedTree "app.jar" true = .ok damagedSession ∧
      Jar.openAt damagedTree "app.jar" = .ok damagedJar ∧
      ∃ status ∈ damagedSession.archives, status.found = true ∧ status.path = "app.jar" ∧
        ∃ record ∈ damagedJar.records, Jar.isClassFile record = true ∧
          (damagedJar.data? record).isSome = true ∧
          ¬ damagedSession.AccountsFor damagedTree ∅ status.path damagedJar record :=
  ⟨damagedSession_opened, damagedJar_opened, by decide +kernel⟩

end Session

end JarAudit
