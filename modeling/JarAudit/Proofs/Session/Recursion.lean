import JarAudit.Proofs.Session.Assembly

/-!
# Archives that are only counted

With `recurse` an archive that the manifest names is listed; without it its records are only
counted, directories with the files, and nobody looks whether they are there. So the two statuses of
an archive can differ. `IsCountOf` says how, and `archives_recurse` that two sessions over one
archive differ in nothing else about their archives.
-/

namespace JarAudit

open JarAudit.Files

namespace Jar

variable {tree : Tree} {path : String} {archive : Zip.Archive}

/-- All records of an archive are there, those of directories too. -/
def IsListable (archive : Zip.Archive) : Prop :=
  ∀ record ∈ archive.records, ∃ offset, archive.dataOffset record = .ok offset

theorem exists_entries_iff (hopen : openAt tree path = .ok archive) :
    (∃ listed, entries tree path = .ok listed) ↔ IsListable archive := by
  simp only [entries_eq_ok hopen, exists_and_left, exists_eq, and_true, IsListable]

theorem recordCount_eq_ok {count : Nat} :
    recordCount tree path = .ok count ↔
      ∃ archive, openAt tree path = .ok archive ∧ count = archive.records.length := by
  rw [recordCount, bind_eq_ok]
  exact exists_congr fun archive => and_congr_right fun _ => pure_eq_ok

theorem length_records (archive : Zip.Archive) :
    archive.records.length = (archive.records.filter isFile).length +
      archive.records.countP (Zip.Record.isDirectoryName ·.name) := by
  rw [List.length_eq_countP_add_countP isFile, List.countP_eq_length_filter]
  congr 1
  refine List.countP_congr fun record _ => ?_
  rw [isFile, decide_eq_true_eq, Bool.not_eq_true', Bool.not_eq_false]

theorem countP_directories_eq_zero_iff :
    archive.records.countP (Zip.Record.isDirectoryName ·.name) = 0 ↔
      ∀ record ∈ archive.records, isFile record = true := by
  simp only [List.countP_eq_zero, isFile, Bool.not_eq_true, Bool.not_eq_true']

end Jar

namespace Session

variable {tree : Tree} {dependency : String} {archive : Zip.Archive}

theorem openDependency_counted (hopen : Jar.openAt tree dependency = .ok archive) :
    openDependency tree false dependency =
      (.ofFound tree dependency archive.records.length, []) := by
  rw [openDependency, Jar.isFile_of_openAt hopen, Jar.recordCount_eq_ok.mpr ⟨archive, hopen, rfl⟩]
  rfl

/-- An archive whose directory cannot be read has a blank status either way. -/
theorem openDependency_unopened (h : ∀ archive, Jar.openAt tree dependency ≠ .ok archive)
    (recurse : Bool) : openDependency tree recurse dependency = ({ path := dependency }, []) := by
  cases recurse with
  | true =>
    refine openDependency_of_absent fun listed hlisted => ?_
    obtain ⟨archive, hopen, -⟩ := bind_eq_ok.mp hlisted
    exact h archive hopen
  | false =>
    rw [openDependency, if_neg Bool.false_ne_true]
    split
    · rfl
    · cases hcount : Jar.recordCount tree dependency with
      | error failure => rfl
      | ok count =>
        obtain ⟨archive, hopen, -⟩ := Jar.recordCount_eq_ok.mp hcount
        exact absurd hopen (h archive)

theorem ofFound_file (tree : Tree) (path : String) (count other : Nat) :
    (ArchiveStatus.ofFound tree path count).size = (ArchiveStatus.ofFound tree path other).size ∧
      (ArchiveStatus.ofFound tree path count).lastModified =
        (ArchiveStatus.ofFound tree path other).lastModified := by
  rw [ArchiveStatus.ofFound, ArchiveStatus.ofFound]
  cases tree.read path <;> exact ⟨rfl, rfl⟩

/-! ### One archive -/

/-- How the status of an archive whose records are only counted goes with the status of the same
archive when it is listed. -/
structure IsCountOf (tree : Tree) (counted listed : ArchiveStatus) : Prop where
  path : counted.path = listed.path
  /-- To be counted, an archive needs a directory that can be read. -/
  counted_found_iff : counted.found = true ↔ ∃ archive, Jar.openAt tree counted.path = .ok archive
  /-- To be listed, it needs its records besides. -/
  listed_found_iff : listed.found = true ↔
    ∃ archive, Jar.openAt tree counted.path = .ok archive ∧ Jar.IsListable archive
  counted_blank : counted.found = false → counted = { path := counted.path }
  listed_blank : listed.found = false → listed = { path := listed.path }
  file : listed.found = true →
    counted.size = listed.size ∧ counted.lastModified = listed.lastModified
  /-- All records are counted; directories are not listed. -/
  entryCount : ∀ archive, Jar.openAt tree counted.path = .ok archive →
    counted.entryCount = archive.records.length ∧ (listed.found = true → counted.entryCount =
      listed.entryCount + archive.records.countP (Zip.Record.isDirectoryName ·.name))

theorem isCountOf_of_unopened (h : ∀ archive, Jar.openAt tree dependency ≠ .ok archive) :
    IsCountOf tree { path := dependency } { path := dependency } where
  path := rfl
  counted_found_iff := ⟨nofun, fun ⟨archive, hopen⟩ => absurd hopen (h archive)⟩
  listed_found_iff := ⟨nofun, fun ⟨archive, hopen, _⟩ => absurd hopen (h archive)⟩
  counted_blank _ := rfl
  listed_blank _ := rfl
  file := nofun
  entryCount archive hopen := absurd hopen (h archive)

theorem isCountOf_of_unlisted (hopen : Jar.openAt tree dependency = .ok archive)
    (hlist : ¬ Jar.IsListable archive) :
    IsCountOf tree (.ofFound tree dependency archive.records.length) { path := dependency } where
  path := ofFound_path ..
  counted_found_iff := by
    rw [ofFound_found, ofFound_path]
    exact ⟨fun _ => ⟨archive, hopen⟩, fun _ => rfl⟩
  listed_found_iff := by
    rw [ofFound_path]
    refine ⟨nofun, fun ⟨other, hother, hlistable⟩ => ?_⟩
    rw [hopen] at hother
    obtain rfl := Except.ok.inj hother
    exact absurd hlistable hlist
  counted_blank hfound := by
    rw [ofFound_found] at hfound
    cases hfound
  listed_blank _ := rfl
  file := nofun
  entryCount other hother := by
    rw [ofFound_path, hopen] at hother
    obtain rfl := Except.ok.inj hother
    exact ⟨ofFound_entryCount .., nofun⟩

theorem isCountOf_of_listed (hopen : Jar.openAt tree dependency = .ok archive) {listed : List Entry}
    (hlisted : Jar.entries tree dependency = .ok listed) :
    IsCountOf tree (.ofFound tree dependency archive.records.length)
      (.ofFound tree dependency listed.length) where
  path := by rw [ofFound_path, ofFound_path]
  counted_found_iff := by
    rw [ofFound_found, ofFound_path]
    exact ⟨fun _ => ⟨archive, hopen⟩, fun _ => rfl⟩
  listed_found_iff := by
    rw [ofFound_found, ofFound_path]
    exact ⟨fun _ => ⟨archive, hopen, (Jar.exists_entries_iff hopen).mp ⟨listed, hlisted⟩⟩,
      fun _ => rfl⟩
  counted_blank hfound := by
    rw [ofFound_found] at hfound
    cases hfound
  listed_blank hfound := by
    rw [ofFound_found] at hfound
    cases hfound
  file _ := ofFound_file ..
  entryCount other hother := by
    rw [ofFound_path, hopen] at hother
    obtain rfl := Except.ok.inj hother
    refine ⟨ofFound_entryCount .., fun _ => ?_⟩
    rw [ofFound_entryCount, ofFound_entryCount, ((Jar.entries_eq_ok hopen).mp hlisted).2,
      List.length_map, Jar.length_records]

theorem isCountOf_openDependency (tree : Tree) (dependency : String) :
    IsCountOf tree (openDependency tree false dependency).1
      (openDependency tree true dependency).1 := by
  by_cases hopen : ∃ archive, Jar.openAt tree dependency = .ok archive
  · obtain ⟨archive, hopen⟩ := hopen
    rw [openDependency_counted hopen]
    by_cases hlist : ∃ listed, Jar.entries tree dependency = .ok listed
    · obtain ⟨listed, hlisted⟩ := hlist
      rw [openDependency_of_entries hlisted]
      exact isCountOf_of_listed hopen hlisted
    · rw [openDependency_of_absent (not_exists.mp hlist)]
      rw [Jar.exists_entries_iff hopen] at hlist
      exact isCountOf_of_unlisted hopen hlist
  · have hnone := not_exists.mp hopen
    rw [openDependency_unopened hnone, openDependency_unopened hnone]
    exact isCountOf_of_unopened hnone

/-- The two statuses of an archive are the same when it cannot be read, and when all its records are
there and none is a directory's. -/
theorem IsCountOf.eq_iff {counted listed : ArchiveStatus} (h : IsCountOf tree counted listed) :
    counted = listed ↔ ∀ archive, Jar.openAt tree counted.path = .ok archive →
      Jar.IsListable archive ∧ ∀ record ∈ archive.records, Jar.isFile record = true := by
  constructor
  · intro heq archive hopen
    have hfound : listed.found = true := heq ▸ h.counted_found_iff.mpr ⟨archive, hopen⟩
    obtain ⟨other, hother, hlistable⟩ := h.listed_found_iff.mp hfound
    rw [hopen] at hother
    obtain rfl := Except.ok.inj hother
    refine ⟨hlistable, ?_⟩
    -- Both count the same, so there is no directory to be counted besides.
    have hcount := (h.entryCount archive hopen).2 hfound
    rwa [heq, Nat.left_eq_add, Jar.countP_directories_eq_zero_iff] at hcount
  · intro hplain
    cases hcounted : counted.found with
    | false =>
      -- What cannot be counted cannot be listed.
      have hlisted : listed.found = false := by
        rw [← Bool.not_eq_true, h.listed_found_iff]
        rintro ⟨archive, hopen, -⟩
        rw [h.counted_found_iff.mpr ⟨archive, hopen⟩] at hcounted
        cases hcounted
      rw [h.counted_blank hcounted, h.listed_blank hlisted, h.path]
    | true =>
      obtain ⟨archive, hopen⟩ := h.counted_found_iff.mp hcounted
      obtain ⟨hlistable, hfiles⟩ := hplain archive hopen
      have hlisted := h.listed_found_iff.mpr ⟨archive, hopen, hlistable⟩
      obtain ⟨hsize, htime⟩ := h.file hlisted
      have hcount := (h.entryCount archive hopen).2 hlisted
      rw [Jar.countP_directories_eq_zero_iff.mpr hfiles, Nat.add_zero] at hcount
      have hpath := h.path
      cases counted
      cases listed
      simp only [ArchiveStatus.mk.injEq]
      exact ⟨hpath, hcounted.trans hlisted.symm, hcount, hsize, htime⟩

/-! ### All archives -/

theorem isCountOf_eq_iff {counted listed : List ArchiveStatus}
    (h : List.Forall₂ (IsCountOf tree) counted listed) :
    counted = listed ↔ ∀ status ∈ counted, ∀ archive, Jar.openAt tree status.path = .ok archive →
      Jar.IsListable archive ∧ ∀ record ∈ archive.records, Jar.isFile record = true := by
  induction h with
  | nil => exact iff_of_true rfl nofun
  | cons hfirst _ ih => rw [List.cons.injEq, List.forall_mem_cons, hfirst.eq_iff, ih]

/-- Opening fails for the archive itself, whose entries are listed in any case. -/
theorem openArchive_eq_error {path : String} {recurse : Bool} {failure : Failure} :
    openArchive tree path recurse = .error failure ↔
      inContext (.invalidRoot path) (Jar.entries tree path) = .error failure := by
  rw [openArchive, bind_eq_error]
  refine or_iff_left ?_
  rintro ⟨own, -, ⟨⟩⟩

/-- With and without `recurse` an archive is opened in the same cases, and its own status is the
same. The statuses of the archives that the manifest names go together one by one. They are all the
same when no archive among them that can be read has a directory, or a record that is not there. -/
theorem archives_recurse (tree : Tree) (path : String) :
    (∀ failure, openArchive tree path false = .error failure ↔
      openArchive tree path true = .error failure) ∧
    ∀ counted listed, openArchive tree path false = .ok counted →
      openArchive tree path true = .ok listed →
      ∃ root counts lists, counted.archives = root :: counts ∧ listed.archives = root :: lists ∧
        List.Forall₂ (IsCountOf tree) counts lists ∧
        (counted.archives = listed.archives ↔
          ∀ status ∈ counts, ∀ archive, Jar.openAt tree status.path = .ok archive →
            Jar.IsListable archive ∧ ∀ record ∈ archive.records, Jar.isFile record = true) := by
  refine ⟨fun failure => by rw [openArchive_eq_error, openArchive_eq_error], ?_⟩
  intro counted listed hcounted hlisted
  obtain ⟨own, hown, rfl⟩ := openArchive_eq_ok.mp hcounted
  obtain ⟨other, hother, rfl⟩ := openArchive_eq_ok.mp hlisted
  rw [hown] at hother
  obtain rfl := Except.ok.inj hother
  have hcounts : List.Forall₂ (IsCountOf tree)
      (((dependencies path (Jar.manifest tree path).toOption.join).map
        (openDependency tree false)).map (·.1))
      (((dependencies path (Jar.manifest tree path).toOption.join).map
        (openDependency tree true)).map (·.1)) := by
    simp only [List.map_map, List.forall₂_map_left_iff, List.forall₂_map_right_iff,
      List.forall₂_same]
    exact fun dependency _ => isCountOf_openDependency tree dependency
  refine ⟨_, _, _, rfl, rfl, hcounts, ?_⟩
  rw [← isCountOf_eq_iff hcounts]
  exact List.cons_inj_right _

/-- The archives of the bundle with and without `recurse`. -/
theorem archives_recurse_bundle :
    openArchive bundleTree "app.jar" false = .ok (bundleSession false) ∧
      openArchive bundleTree "app.jar" true = .ok (bundleSession true) ∧
      ∃ root counts lists, (bundleSession false).archives = root :: counts ∧
        (bundleSession true).archives = root :: lists ∧
        List.Forall₂ (IsCountOf bundleTree) counts lists ∧
        ((bundleSession false).archives = (bundleSession true).archives ↔
          ∀ status ∈ counts, ∀ archive, Jar.openAt bundleTree status.path = .ok archive →
            Jar.IsListable archive ∧ ∀ record ∈ archive.records, Jar.isFile record = true) :=
  ⟨bundleSession_opened false, bundleSession_opened true,
    (archives_recurse bundleTree "app.jar").2 _ _ (bundleSession_opened false)
      (bundleSession_opened true)⟩

/-- An archive with a directory is counted with it and listed without it, and an archive with a
record that is not there is only found to be counted. -/
theorem bundle_archives_ne :
    openArchive bundleTree "app.jar" false = .ok (bundleSession false) ∧
      openArchive bundleTree "app.jar" true = .ok (bundleSession true) ∧
      (bundleSession false).archives.map (fun status => (status.found, status.entryCount)) =
        [(true, 2), (true, 2), (true, 2), (true, 1), (false, 0)] ∧
      (bundleSession true).archives.map (fun status => (status.found, status.entryCount)) =
        [(true, 2), (true, 1), (true, 1), (false, 0), (false, 0)] ∧
      (bundleSession false).archives ≠ (bundleSession true).archives := by
  obtain ⟨hcounted, hlisted⟩ : (bundleSession false).archives.map
        (fun status => (status.found, status.entryCount)) =
          [(true, 2), (true, 2), (true, 2), (true, 1), (false, 0)] ∧
      (bundleSession true).archives.map (fun status => (status.found, status.entryCount)) =
        [(true, 2), (true, 1), (true, 1), (false, 0), (false, 0)] := by
    decide +kernel
  refine ⟨bundleSession_opened false, bundleSession_opened true, hcounted, hlisted, fun heq => ?_⟩
  rw [heq, hlisted] at hcounted
  exact absurd hcounted (by decide)

end Session

end JarAudit
