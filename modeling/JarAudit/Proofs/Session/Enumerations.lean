import JarAudit.Proofs.Jar.ByName
import JarAudit.Proofs.Session.Provision
import JarAudit.SystemClasses

/-!
# The classes of an archive, counted up in three ways

The classes of an archive come up by their names alone, as entries, and with their contents.
`classNames_eq_map_entries` and `map_classNameOf?_classFiles` say that all three give the same names
in the same order. So an archive has the same classes on a class path, among what a session provides
and among what verifying the session goes through: those that `Jar.HasClass` says
(`SystemClasses.mem_load_names`, `Session.mem_provided_of_archive`, `Session.exists_image_iff`).
-/

namespace JarAudit

open JarAudit.Files JarAudit.Zip

/-- When each item is checked and something is picked out of it, the answer is what is picked out of
all items, as soon as all of them pass. -/
theorem bind_mapM_pick {ε α β γ : Type} (check : α → Except ε γ) (pick : α → Option β)
    (items : List α) :
    ((items.mapM fun item => check item >>= fun _ => pure (pick item)) >>= fun picked =>
        pure (picked.filterMap id)) =
      (items.mapM check).map fun _ => items.filterMap pick := by
  -- What is picked and what is checked come from the same steps, one item after the other.
  have hsteps : (items.mapM fun item => check item >>= fun _ => pure (pick item)) =
      (items.mapM check).map fun _ => items.map pick := by
    induction items with
    | nil => rfl
    | cons item rest ih =>
      rw [List.mapM_cons, List.mapM_cons, ih]
      cases check item with
      | error e => rfl
      | ok c => cases rest.mapM check <;> rfl
  rw [hsteps]
  cases items.mapM check with
  | error e => rfl
  | ok checked =>
    show Except.ok ((items.map pick).filterMap id) = Except.ok (items.filterMap pick)
    rw [List.filterMap_map, Function.id_comp]

namespace Jar

variable {tree : Tree} {path name : String} {archive : Archive}

/-- A directory has no class. -/
theorem classNameOf?_of_isDirectoryName (h : Record.isDirectoryName name = true) :
    Entry.classNameOf? name = none := by
  have hsuffix : Entry.dropClassSuffix? name = none := by
    by_contra hsome
    rw [isDirectoryName_eq_false (Option.isSome_iff_ne_none.mpr hsome)] at h
    cases h
  rw [Entry.classNameOf?, hsuffix, Option.map_none]

/-- An entry has the class that its record is named for, which no directory is. -/
theorem className?_entryOf (hopen : openAt tree path = .ok archive) (record : Record) :
    (entryOf path record).className? = Entry.classNameOf? record.name := by
  have halone : (entryOf path record).isStandalone = false := Session.isStandalone_eq_false hopen
  rw [Entry.className?, halone]
  rfl

theorem entries_of_openAt (hopen : openAt tree path = .ok archive) :
    entries tree path =
      (archive.records.mapM fun record => liftFault (archive.dataOffset record)).map fun _ =>
        archive.records.filterMap fun record =>
          if Record.isDirectoryName record.name then none else some (entryOf path record) := by
  rw [← bind_mapM_pick, entries, hopen]
  have hstep : ∀ record : Record,
      (if Record.isDirectoryName record.name then pure none
        else pure (some (entryOf path record)) : Except Failure (Option Entry)) =
      pure (if Record.isDirectoryName record.name then none else some (entryOf path record)) :=
    fun record => (apply_ite pure ..).symm
  simp only [← hstep]
  rfl

theorem classNames_of_openAt (hopen : openAt tree path = .ok archive) :
    classNames tree path =
      (archive.records.mapM fun record => liftFault (archive.dataOffset record)).map fun _ =>
        archive.records.filterMap fun record => Entry.classNameOf? record.name := by
  rw [← bind_mapM_pick, classNames, hopen]
  rfl

/-- The names of the classes are those of the class entries, and what keeps back the one keeps back
the other. -/
theorem classNames_eq_map_entries (tree : Tree) (path : String) :
    classNames tree path = (entries tree path).map (·.filterMap Entry.className?) := by
  cases hopen : openAt tree path with
  | error failure =>
    unfold classNames entries
    rw [hopen]
    rfl
  | ok archive =>
    have hpicked : (archive.records.filterMap fun record =>
          if Record.isDirectoryName record.name then none
          else some (entryOf path record)).filterMap Entry.className? =
        archive.records.filterMap fun record => Entry.classNameOf? record.name := by
      rw [List.filterMap_filterMap]
      refine List.filterMap_congr fun record _ => ?_
      by_cases hdirectory : Record.isDirectoryName record.name = true
      · rw [if_pos hdirectory, classNameOf?_of_isDirectoryName hdirectory, Option.bind_none]
      · rw [if_neg hdirectory, Option.bind_some, className?_entryOf hopen]
    rw [classNames_of_openAt hopen, entries_of_openAt hopen, ← hpicked]
    cases archive.records.mapM fun record => liftFault (archive.dataOffset record) <;> rfl

theorem classNames_eq_ok_iff {names : List String} :
    classNames tree path = .ok names ↔
      ∃ listed, entries tree path = .ok listed ∧ names = listed.filterMap Entry.className? := by
  rw [classNames_eq_map_entries]
  cases entries tree path with
  | error failure => exact ⟨nofun, nofun⟩
  | ok listed =>
    show Except.ok _ = Except.ok names ↔ _
    simp only [Except.ok.injEq, exists_eq_left', eq_comm]

/-- The class files are named like the classes, in the same order. -/
theorem map_classNameOf?_classFiles {files : List (String × List UInt8)}
    (h : classFiles tree path = .ok files) :
    ∃ names, classNames tree path = .ok names ∧
      files.map (fun file => Entry.classNameOf? file.1) = names.map some := by
  obtain ⟨archive, hopen, -⟩ := bind_eq_ok.mp h
  obtain ⟨hstored, hfiles⟩ := (classFiles_eq_ok hopen).mp h
  have hoffsets : ∀ record ∈ archive.records, ∃ offset, archive.dataOffset record = .ok offset := by
    intro record hrecord
    obtain ⟨stored, hstored⟩ := hstored record hrecord
    exact dataOffset_of_stored hstored
  obtain ⟨names, hnames⟩ : ∃ names, List.Forall₂ (fun record name =>
      Entry.classNameOf? record.name = some name) (archive.records.filter isClassFile) names := by
    rw [exists_forall₂_iff]
    intro record hrecord
    obtain ⟨stem, hstem⟩ := Option.isSome_iff_exists.mp (List.mem_filter.mp hrecord).2
    exact ⟨_, by rw [Entry.classNameOf?, hstem, Option.map_some]⟩
  refine ⟨names, (classNames_eq_ok hopen).mpr ⟨hoffsets, hnames⟩, ?_⟩
  calc files.map (fun file => Entry.classNameOf? file.1)
      = (archive.records.filter isClassFile).map fun record => Entry.classNameOf? record.name := by
        refine (map_eq_map_of_forall₂ (hfiles.imp fun record file hfile => ?_)).symm
        rw [hfile.1]
    _ = names.map some := map_eq_map_of_forall₂ hnames

end Jar

/-! ### On a class path -/

namespace SystemClasses

variable {tree : Tree} {name : String}

theorem mem_names_add {classes : SystemClasses} {archive : String}
    {found : Except Failure (List String)} :
    name ∈ (classes.add archive found).names ↔
      name ∈ classes.names ∨ ∃ names, found = .ok names ∧ name ∈ names := by
  cases found with
  | error failure => simp [add]
  | ok names =>
    show name ∈ NameSet.addAll classes.names names ↔ _
    simp only [NameSet.mem_addAll, Except.ok.injEq, exists_eq_left']

/-- The classes of a class path are those of its archives. -/
theorem mem_load_names {classPath : List String} :
    name ∈ (load tree classPath).names ↔ ∃ archive ∈ classPath, Jar.HasClass tree archive name := by
  -- What was found in the archives before varies along the class path.
  suffices hfold : ∀ classes : SystemClasses,
      name ∈ (classPath.foldl (fun classes archive =>
        classes.add archive (Jar.classNames tree archive)) classes).names ↔
      name ∈ classes.names ∨ ∃ archive ∈ classPath, Jar.HasClass tree archive name by
    refine (hfold {}).trans (or_iff_right ?_)
    exact Std.TreeSet.not_mem_emptyc
  induction classPath with
  | nil => intro classes; simp
  | cons archive rest ih =>
    intro classes
    rw [List.foldl_cons, ih, mem_names_add, or_assoc, List.exists_mem_cons_iff]
    rfl

end SystemClasses

/-! ### In a session -/

theorem Entry.className?_of_place {entry other : Entry} (h : entry.place = other.place) :
    entry.className? = other.className? := by
  obtain ⟨howner, hpath⟩ := Prod.mk.inj h
  unfold Entry.className? Entry.isStandalone
  rw [howner, hpath]

namespace Session

variable {tree : Tree} {root path name : String} {recurse : Bool} {session : Session}

/-- An archive has its entries in a session: the session is opened over it, or with `recurse`, and
it was found. -/
def IsListed (session : Session) (recurse : Bool) (path : String) : Prop :=
  path = session.root ∨
    recurse = true ∧ ∃ status ∈ session.archives, status.found = true ∧ status.path = path

theorem exists_entry_of_isListed (hopen : openArchive tree root recurse = .ok session)
    (hpath : session.IsListed recurse path) {listed : List Entry}
    (hlisted : Jar.entries tree path = .ok listed) {item : Entry} (hitem : item ∈ listed) :
    ∃ entry ∈ session.entries, entry.place = item.place := by
  rcases hpath with rfl | ⟨rfl, status, hstatus, hfound, rfl⟩
  · have hroot : session.root = root := by
      obtain ⟨own, -, rfl⟩ := openArchive_eq_ok.mp hopen
      rfl
    rw [hroot] at hlisted
    exact place_mem_of_root hopen hlisted hitem
  · obtain ⟨archive, harchive, -⟩ := bind_eq_ok.mp hlisted
    obtain ⟨record, hrecord, hfile, rfl⟩ := (Jar.mem_entries harchive hlisted).mp hitem
    exact (exists_entry_iff hopen).mpr
      ⟨status, hstatus, hfound, rfl, archive, harchive, record, hrecord, hfile, rfl⟩

/-- The entries of an archive in a session provide the classes of the archive. -/
theorem mem_provided_of_archive (hopen : openArchive tree root recurse = .ok session)
    (hpath : session.IsListed recurse path) :
    name ∈ Entry.provided (session.entries.filter (·.owningArchive = path)) ↔
      Jar.HasClass tree path name := by
  rw [Entry.provided, NameSet.mem_ofList, List.mem_filterMap]
  constructor
  · rintro ⟨entry, hentry, hclass⟩
    obtain ⟨hentry, howner⟩ := List.mem_filter.mp hentry
    obtain ⟨listed, hlisted, item, hitem, hplace⟩ := exists_listing_of_mem hopen hentry
    rw [of_decide_eq_true howner] at hlisted
    refine ⟨_, Jar.classNames_eq_ok_iff.mpr ⟨listed, hlisted, rfl⟩, ?_⟩
    rw [List.mem_filterMap]
    exact ⟨item, hitem, (Entry.className?_of_place hplace).trans hclass⟩
  · rintro ⟨names, hnames, hname⟩
    obtain ⟨listed, hlisted, rfl⟩ := Jar.classNames_eq_ok_iff.mp hnames
    obtain ⟨item, hitem, hclass⟩ := List.mem_filterMap.mp hname
    obtain ⟨entry, hentry, hplace⟩ := exists_entry_of_isListed hopen hpath hlisted hitem
    have howner : entry.owningArchive = path := by
      obtain ⟨archive, harchive, -⟩ := bind_eq_ok.mp hlisted
      obtain ⟨record, -, -, rfl⟩ := (Jar.mem_entries harchive hlisted).mp hitem
      exact (Prod.mk.inj hplace).1
    refine ⟨entry, List.mem_filter.mpr ⟨hentry, decide_eq_true howner⟩, ?_⟩
    exact (Entry.className?_of_place hplace).trans hclass

/-- The images of an archive that verifying goes through are those of the classes of the archive, if
they can be read. -/
theorem exists_image_iff (hkind : session.kind = .archive)
    (hfound : ∃ status ∈ session.archives, status.found = true ∧ status.path = path)
    {files : List (String × List UInt8)} (hfiles : Jar.classFiles tree path = .ok files) :
    (∃ image ∈ (session.images tree).1, image.archive = path ∧
        Entry.classNameOf? image.entry = some name) ↔ Jar.HasClass tree path name := by
  obtain ⟨names, hnames, hsame⟩ := Jar.map_classNameOf?_classFiles hfiles
  have hclass : Jar.HasClass tree path name ↔
      ∃ file ∈ files, Entry.classNameOf? file.1 = some name := by
    rw [Jar.HasClass, hnames]
    simp only [Except.ok.injEq, exists_eq_left']
    rw [← List.mem_map, hsame, List.mem_map]
    simp only [Option.some.injEq, exists_eq_right]
  rw [hclass]
  constructor
  · rintro ⟨image, himage, rfl, hname⟩
    obtain ⟨status, -, -, read, hread, file, hfile, rfl⟩ := (mem_images_of_archive hkind).mp himage
    obtain rfl := Except.ok.inj (hfiles.symm.trans hread)
    exact ⟨file, hfile, hname⟩
  · rintro ⟨file, hfile, hname⟩
    obtain ⟨status, hstatus, hfound, rfl⟩ := hfound
    exact ⟨_, (mem_images_of_archive hkind).mpr
      ⟨status, hstatus, hfound, files, hfiles, file, hfile, rfl⟩, rfl, hname⟩

/-- The classes of an archive are the same however they are counted up. By name alone they are the
classes of its entries, with the same order and repeats, and they fail to be listed for the same
reason; and when all class files can be read, these are named like the classes. So an archive gives
the same classes to a class path, to the sessions that list it, and to verifying, if it can be
read. -/
theorem enumerations_agree (tree : Tree) (path : String) :
    Jar.classNames tree path = (Jar.entries tree path).map (·.filterMap Entry.className?) ∧
    (∀ files, Jar.classFiles tree path = .ok files →
      ∃ names, Jar.classNames tree path = .ok names ∧
        files.map (fun file => Entry.classNameOf? file.1) = names.map some) ∧
    (∀ name, name ∈ (SystemClasses.load tree [path]).names ↔ Jar.HasClass tree path name) ∧
    ∀ root recurse session, openArchive tree root recurse = .ok session →
      session.provided = Entry.provided session.entries ∧
      (session.IsListed recurse path → ∀ name,
        name ∈ Entry.provided (session.entries.filter (·.owningArchive = path)) ↔
          Jar.HasClass tree path name) ∧
      ((∃ status ∈ session.archives, status.found = true ∧ status.path = path) →
        ∀ files, Jar.classFiles tree path = .ok files → ∀ name,
          (∃ image ∈ (session.images tree).1, image.archive = path ∧
            Entry.classNameOf? image.entry = some name) ↔ Jar.HasClass tree path name) := by
  refine ⟨Jar.classNames_eq_map_entries tree path, ?_, ?_, ?_⟩
  · intro files hfiles
    exact Jar.map_classNameOf?_classFiles hfiles
  · intro name
    rw [SystemClasses.mem_load_names, List.exists_mem_cons_iff]
    simp
  · intro root recurse session hopen
    refine ⟨openArchive_provided hopen, fun hpath name => mem_provided_of_archive hopen hpath, ?_⟩
    intro hfound files hfiles name
    exact exists_image_iff (openArchive_kind hopen) hfound hfiles

end Session

end JarAudit
