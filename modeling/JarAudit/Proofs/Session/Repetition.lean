import Mathlib.Data.List.Count
import JarAudit.Proofs.Session.Accounting
import JarAudit.Proofs.Session.Assembly

/-!
# Archives that a session has more than once

A session has an archive once for each path under which it was found: a manifest can name an archive
repeatedly, by several paths, and name its own archive too. Nothing tells such archives apart, so an
entry is a duplicate of itself when its archive is there twice, and its class is scanned twice.
`IsListing.isNameMatch_iff` says when an entry is flagged, and `verify_scanned_eq` what verifying
counts. `IsRepetitionOf` compares a session with one in which some repetitions were left out.
-/

namespace JarAudit

open JarAudit.Files

/-! ### Sums -/

section Sums

variable {α : Type} {f : α → Nat} {p : α → Bool} {items : List α}

theorem sum_map_pos_iff : 0 < (items.map f).sum ↔ 0 < items.countP (0 < f ·) := by
  induction items with
  | nil => exact Iff.rfl
  | cons first rest ih =>
    rw [List.map_cons, List.sum_cons, List.countP_cons]
    split_ifs with hfirst <;> simp only [decide_eq_true_eq] at hfirst <;> omega

/-- Numbers add up to more than one when one of them is, or when two are not zero. -/
theorem one_lt_sum_map_iff : 1 < (items.map f).sum ↔
    (∃ a ∈ items, 1 < f a) ∨ 1 < items.countP (0 < f ·) := by
  induction items with
  | nil => exact iff_of_false (Nat.not_lt_zero 1) (by simp)
  | cons first rest ih =>
    have hpos : 0 < (rest.map f).sum ↔ 0 < rest.countP (0 < f ·) := sum_map_pos_iff
    rw [List.map_cons, List.sum_cons, List.countP_cons, List.exists_mem_cons_iff, or_assoc]
    by_cases hrest : ∃ a ∈ rest, 1 < f a
    · have hlt := ih.mpr (.inl hrest)
      exact iff_of_true (by omega) (.inr (.inl hrest))
    · rw [iff_false_intro hrest, false_or] at ih ⊢
      split_ifs with hfirst <;> simp only [decide_eq_true_eq] at hfirst <;> omega

theorem one_lt_countP_iff_exists : 1 < items.countP p ↔ ∃ (i j : Nat) (a b : α), i ≠ j ∧
    items[i]? = some a ∧ items[j]? = some b ∧ p a = true ∧ p b = true := by
  constructor
  · intro h
    obtain ⟨a, ha, hpa⟩ := List.countP_pos_iff.mp (Nat.zero_lt_of_lt h)
    obtain ⟨i, hi⟩ := List.mem_iff_getElem?.mp ha
    obtain ⟨j, b, hj, hb, hpb⟩ := (one_lt_countP_iff hi hpa).mp h
    exact ⟨i, j, a, b, hj.symm, hi, hb, hpa, hpb⟩
  · rintro ⟨i, j, a, b, hij, ha, hb, hpa, hpb⟩
    exact (one_lt_countP_iff ha hpa).mpr ⟨j, b, hij.symm, hb, hpb⟩

end Sums

/-! ### Paths that lead to one archive -/

/-- Two paths lead to the same place. -/
def Files.Tree.SamePlace (tree : Tree) (path other : String) : Prop :=
  tree.locate path = tree.locate other

instance (tree : Tree) (path other : String) : Decidable (tree.SamePlace path other) :=
  inferInstanceAs (Decidable (_ = _))

namespace Jar

variable {tree : Tree} {path other name : String} {archive : Zip.Archive}

/-- An archive is the same by each path that leads to it. -/
theorem openAt_congr (hplace : tree.SamePlace path other) :
    openAt tree path = .ok archive ↔ openAt tree other = .ok archive := by
  have hnode : tree.node path = tree.node other := by
    rw [Files.Tree.node, Files.Tree.node, hplace]
  rw [openAt_eq_ok, openAt_eq_ok, hnode]

theorem classFiles_congr (hplace : tree.SamePlace path other) {files : List (String × List UInt8)} :
    classFiles tree path = .ok files ↔ classFiles tree other = .ok files := by
  constructor
  · intro hfiles
    obtain ⟨archive, hopen, -⟩ := bind_eq_ok.mp hfiles
    have hother : openAt tree other = .ok archive := (openAt_congr hplace).mp hopen
    rwa [classFiles_eq_ok hother, ← classFiles_eq_ok hopen]
  · intro hfiles
    obtain ⟨archive, hother, -⟩ := bind_eq_ok.mp hfiles
    have hopen : openAt tree path = .ok archive := (openAt_congr hplace).mpr hother
    rwa [classFiles_eq_ok hopen, ← classFiles_eq_ok hother]

/-- The archive at a path has a record of the name at an index. -/
def HasNameAt (tree : Tree) (path name : String) (index : Nat) : Prop :=
  ∃ archive record, openAt tree path = .ok archive ∧ archive.records[index]? = some record ∧
    record.name = name

theorem hasNameAt_congr (hplace : tree.SamePlace path other) {index : Nat} :
    HasNameAt tree path name index ↔ HasNameAt tree other name index := by
  simp only [HasNameAt, openAt_congr hplace]

theorem HasNameAt.exists_locate {index : Nat} (h : HasNameAt tree path name index) :
    ∃ place, tree.locate path = .ok place := by
  obtain ⟨archive, -, hopen, -⟩ := h
  cases hlocate : tree.locate path with
  | ok place => exact ⟨place, rfl⟩
  | error fault =>
    have hnode : tree.node path = .error fault := by
      rw [Files.Tree.node, hlocate]
      rfl
    rw [openAt, hnode] at hopen
    cases hopen

/-- How many records of the archive at a path have a name. -/
def countNamed (tree : Tree) (path name : String) : Nat :=
  match openAt tree path with
  | .ok archive => archive.records.countP (·.name == name)
  | .error _ => 0

theorem countNamed_eq (hopen : openAt tree path = .ok archive) :
    countNamed tree path name = archive.records.countP (·.name == name) := by
  rw [countNamed, hopen]

theorem hasNameAt_iff (hopen : openAt tree path = .ok archive) {index : Nat} :
    HasNameAt tree path name index ↔
      ∃ record, archive.records[index]? = some record ∧ record.name = name := by
  simp only [HasNameAt, hopen, Except.ok.injEq, exists_and_left, exists_eq_left']

theorem countNamed_pos_iff :
    0 < countNamed tree path name ↔ ∃ index, HasNameAt tree path name index := by
  cases hopen : openAt tree path with
  | error failure =>
    rw [countNamed, hopen]
    refine ⟨nofun, fun ⟨index, archive, record, hother, _⟩ => ?_⟩
    rw [hopen] at hother
    cases hother
  | ok archive =>
    simp only [countNamed_eq hopen, hasNameAt_iff hopen, List.countP_pos_iff, beq_iff_eq,
      List.mem_iff_getElem?]
    exact ⟨fun ⟨record, ⟨index, hindex⟩, hname⟩ => ⟨index, record, hindex, hname⟩,
      fun ⟨index, record, hindex, hname⟩ => ⟨record, ⟨index, hindex⟩, hname⟩⟩

theorem countNamed_pos_congr (hplace : tree.SamePlace path other) :
    0 < countNamed tree path name ↔ 0 < countNamed tree other name := by
  simp only [countNamed_pos_iff, hasNameAt_congr hplace]

theorem one_lt_countNamed_iff : 1 < countNamed tree path name ↔
    ∃ i j, i ≠ j ∧ HasNameAt tree path name i ∧ HasNameAt tree path name j := by
  cases hopen : openAt tree path with
  | error failure =>
    rw [countNamed, hopen]
    refine ⟨nofun, fun ⟨_, _, _, ⟨archive, record, hother, _⟩, _⟩ => ?_⟩
    rw [hopen] at hother
    cases hother
  | ok archive =>
    simp only [countNamed_eq hopen, hasNameAt_iff hopen, one_lt_countP_iff_exists, beq_iff_eq]
    constructor
    · rintro ⟨i, j, a, b, hij, ha, hb, hna, hnb⟩
      exact ⟨i, j, hij, ⟨a, ha, hna⟩, ⟨b, hb, hnb⟩⟩
    · rintro ⟨i, j, hij, ⟨a, ha, hna⟩, ⟨b, hb, hnb⟩⟩
      exact ⟨i, j, a, b, hij, ha, hb, hna, hnb⟩

theorem countP_fullPath_entries {listed : List Entry} (hlisted : entries tree path = .ok listed)
    (hfile : Zip.Record.isDirectoryName name = false) :
    listed.countP (·.fullPath == name) = countNamed tree path name := by
  obtain ⟨archive, hopen, -⟩ := bind_eq_ok.mp hlisted
  rw [countNamed_eq hopen, ((entries_eq_ok hopen).mp hlisted).2, List.countP_map,
    List.countP_filter]
  refine List.countP_congr fun record _ => ?_
  rw [Bool.and_eq_true, isFile, Bool.not_eq_true']
  refine and_iff_left_of_imp fun hname => ?_
  have hrecord : record.name = name := eq_of_beq hname
  rw [hrecord, hfile]

end Jar

namespace Session

variable {tree : Tree} {session : Session} {owner name : String}

/-- A session has a record of the name: in an archive that was found and that lies at the place, the
record at the index. -/
def HasRecord (session : Session) (tree : Tree) (name : String) (place : List String)
    (index : Nat) : Prop :=
  ∃ status ∈ session.archives, status.found = true ∧ tree.locate status.path = .ok place ∧
    Jar.HasNameAt tree status.path name index

/-- Two records of a session have the name: in archives at two places, or in one archive. -/
def OccursTwice (session : Session) (tree : Tree) (name : String) : Prop :=
  ∃ place index otherPlace otherIndex, session.HasRecord tree name place index ∧
    session.HasRecord tree name otherPlace otherIndex ∧ (place, index) ≠ (otherPlace, otherIndex)

/-- How many records of the name a session has, counted in each archive that was found. -/
def countNamed (session : Session) (tree : Tree) (name : String) : Nat :=
  ((session.archives.filter (·.found)).map fun status => Jar.countNamed tree status.path name).sum

/-- How often a session has found the archive to which a path leads. -/
def timesFound (session : Session) (tree : Tree) (owner : String) : Nat :=
  (session.archives.filter (·.found)).countP fun status => tree.SamePlace status.path owner

/-! ### Which entries are flagged -/

/-- The entries of a path are counted archive by archive. -/
theorem IsListing.countP_fullPath (h : IsListing tree session)
    (hfile : Zip.Record.isDirectoryName name = false) :
    session.entries.countP (·.fullPath == name) = session.countNamed tree name := by
  obtain ⟨listings, hlistings, -, hentries⟩ := h.exists_listings
  rw [hentries, DuplicateReport.countP_flagged fun _ _ => rfl, List.countP_flatten, countNamed]
  congr 1
  clear hentries
  generalize session.archives.filter (·.found) = found at hlistings ⊢
  induction hlistings with
  | nil => rfl
  | cons hlisted _ ih =>
    rw [List.map_cons, List.map_cons, ih, Jar.countP_fullPath_entries hlisted hfile]

section Counting

variable {status other : ArchiveStatus}

theorem occursTwice_of_one_lt (hstatus : status ∈ session.archives) (hfound : status.found = true)
    (htwice : 1 < Jar.countNamed tree status.path name) : session.OccursTwice tree name := by
  obtain ⟨j, k, hjk, hj, hk⟩ := Jar.one_lt_countNamed_iff.mp htwice
  obtain ⟨place, hplace⟩ := hj.exists_locate
  exact ⟨place, j, place, k, ⟨status, hstatus, hfound, hplace, hj⟩,
    ⟨status, hstatus, hfound, hplace, hk⟩, fun heq => hjk (Prod.mk.inj heq).2⟩

theorem occursTwice_of_not_samePlace (hstatus : status ∈ session.archives)
    (hfound : status.found = true) (hother : other ∈ session.archives)
    (hotherfound : other.found = true) (hpos : 0 < Jar.countNamed tree status.path name)
    (hotherpos : 0 < Jar.countNamed tree other.path name)
    (hplaces : ¬ tree.SamePlace other.path status.path) : session.OccursTwice tree name := by
  obtain ⟨k, hk⟩ := Jar.countNamed_pos_iff.mp hpos
  obtain ⟨l, hl⟩ := Jar.countNamed_pos_iff.mp hotherpos
  obtain ⟨place, hplace⟩ := hk.exists_locate
  obtain ⟨otherPlace, hotherPlace⟩ := hl.exists_locate
  refine ⟨place, k, otherPlace, l, ⟨status, hstatus, hfound, hplace, hk⟩,
    ⟨other, hother, hotherfound, hotherPlace, hl⟩, fun heq => hplaces ?_⟩
  rw [Tree.SamePlace, hotherPlace, hplace, (Prod.mk.inj heq).1]

theorem OccursTwice.one_lt_countNamed (h : session.OccursTwice tree name) :
    1 < session.countNamed tree name := by
  obtain ⟨place, k, otherPlace, l, ⟨a, ha, hafound, haplace, hk⟩, ⟨b, hb, hbfound, hbplace, hl⟩,
    hne⟩ := h
  have ha := List.mem_filter.mpr ⟨ha, hafound⟩
  have hb := List.mem_filter.mpr ⟨hb, hbfound⟩
  rw [countNamed, one_lt_sum_map_iff]
  by_cases hplaces : place = otherPlace
  · -- Both records are in one archive, which may be there under two paths.
    subst hplaces
    have hsame : tree.SamePlace b.path a.path := hbplace.trans haplace.symm
    have hl : Jar.HasNameAt tree a.path name l := (Jar.hasNameAt_congr hsame).mp hl
    have hkl : k ≠ l := fun heq => hne (congrArg _ heq)
    exact .inl ⟨a, ha, Jar.one_lt_countNamed_iff.mpr ⟨k, l, hkl, hk, hl⟩⟩
  · obtain ⟨m, hm⟩ := List.mem_iff_getElem?.mp ha
    obtain ⟨n, hn⟩ := List.mem_iff_getElem?.mp hb
    have hapos : 0 < Jar.countNamed tree a.path name := Jar.countNamed_pos_iff.mpr ⟨k, hk⟩
    have hbpos : 0 < Jar.countNamed tree b.path name := Jar.countNamed_pos_iff.mpr ⟨l, hl⟩
    have hmn : m ≠ n := by
      rintro rfl
      obtain rfl := Option.some.inj (hm.symm.trans hn)
      exact hplaces (Except.ok.inj (haplace.symm.trans hbplace))
    exact .inr (one_lt_countP_iff_exists.mpr ⟨m, n, a, b, hmn, hm, hn, decide_eq_true hapos,
      decide_eq_true hbpos⟩)

/-- A name that one archive of a session has is counted more than once when two records have it, or
when that archive was found more than once. -/
theorem one_lt_countNamed_iff (hstatus : status ∈ session.archives) (hfound : status.found = true)
    (hpos : 0 < Jar.countNamed tree status.path name) :
    1 < session.countNamed tree name ↔
      session.OccursTwice tree name ∨ 1 < session.timesFound tree status.path := by
  have hmem : status ∈ session.archives.filter (·.found) := List.mem_filter.mpr ⟨hstatus, hfound⟩
  obtain ⟨i, hi⟩ := List.mem_iff_getElem?.mp hmem
  constructor
  · intro hcount
    rcases one_lt_sum_map_iff.mp hcount with ⟨other, hother, htwice⟩ | htwice
    · obtain ⟨hother, hotherfound⟩ := List.mem_filter.mp hother
      exact .inl (occursTwice_of_one_lt hother hotherfound htwice)
    · -- Another archive that was found has the name: the same one again, or one elsewhere.
      obtain ⟨j, other, hij, hother, hotherpos⟩ :=
        (one_lt_countP_iff hi (decide_eq_true hpos)).mp htwice
      obtain ⟨hothermem, hotherfound⟩ := List.mem_filter.mp (List.mem_of_getElem? hother)
      by_cases hsame : tree.SamePlace other.path status.path
      · exact .inr ((one_lt_countP_iff hi (decide_eq_true rfl)).mpr
          ⟨j, other, hij, hother, decide_eq_true hsame⟩)
      · exact .inl (occursTwice_of_not_samePlace hstatus hfound hothermem hotherfound hpos
          (of_decide_eq_true hotherpos) hsame)
  · rintro (hoccurs | htimes)
    · exact hoccurs.one_lt_countNamed
    · obtain ⟨j, other, hij, hother, hsame⟩ :=
        (one_lt_countP_iff hi (decide_eq_true rfl)).mp htimes
      have hotherpos : 0 < Jar.countNamed tree other.path name :=
        (Jar.countNamed_pos_congr (of_decide_eq_true hsame)).mpr hpos
      exact one_lt_sum_map_iff.mpr (.inr ((one_lt_countP_iff hi (decide_eq_true hpos)).mpr
        ⟨j, other, hij, hother, decide_eq_true hotherpos⟩))

end Counting

/-- An entry is flagged when two records have its path, and when its archive was found more than
once. -/
theorem IsListing.isNameMatch_iff (h : IsListing tree session) {entry : Entry}
    (hentry : entry ∈ session.entries) :
    entry.isNameMatch = true ↔ session.OccursTwice tree entry.fullPath ∨
      1 < session.timesFound tree entry.owningArchive := by
  obtain ⟨status, hstatus, hfound, hpath, archive, hopen, record, hrecord, hplain, hname⟩ :=
    h.exists_entry_iff.mp ⟨entry, hentry, rfl⟩
  have hfile : Zip.Record.isDirectoryName entry.fullPath = false := hname ▸ hplain
  have hpos : 0 < Jar.countNamed tree entry.owningArchive entry.fullPath := by
    rw [Jar.countNamed_eq hopen, List.countP_pos_iff]
    exact ⟨record, hrecord, beq_iff_eq.mpr hname⟩
  obtain ⟨listings, -, hplain, hflagged⟩ := h.exists_listings
  rw [(DuplicateReport.flags_of_mem_flagged hplain (hflagged ▸ hentry)).1, ← hflagged,
    h.countP_fullPath hfile, ← hpath]
  exact one_lt_countNamed_iff hstatus hfound (hpath ▸ hpos)

/-- The file in an archive is flagged as having the name of another. -/
def IsFlagged (session : Session) (owner name : String) : Prop :=
  ∃ entry ∈ session.entries, entry.place = (owner, name) ∧ entry.isNameMatch = true

instance (session : Session) (owner name : String) : Decidable (session.IsFlagged owner name) :=
  inferInstanceAs (Decidable (∃ entry ∈ _, _))

theorem IsListing.isFlagged_iff (h : IsListing tree session) : session.IsFlagged owner name ↔
    (∃ entry ∈ session.entries, entry.place = (owner, name)) ∧
      (session.OccursTwice tree name ∨ 1 < session.timesFound tree owner) := by
  constructor
  · rintro ⟨entry, hentry, hplace, hflag⟩
    rw [h.isNameMatch_iff hentry] at hflag
    obtain ⟨rfl, rfl⟩ := Prod.mk.inj hplace
    exact ⟨⟨entry, hentry, rfl⟩, hflag⟩
  · rintro ⟨⟨entry, hentry, hplace⟩, hflag⟩
    refine ⟨entry, hentry, hplace, ?_⟩
    obtain ⟨rfl, rfl⟩ := Prod.mk.inj hplace
    exact (h.isNameMatch_iff hentry).mpr hflag

/-! ### How many classes are scanned -/

/-- How many class files of the archive at a path are scanned. -/
def scannedIn (tree : Tree) (path : String) : Nat :=
  match Jar.classFiles tree path with
  | .ok files => files.countP fun file => (Reference.references file.2).isOk
  | .error _ => 0

theorem scannedIn_congr {path other : String} (hplace : tree.SamePlace path other) :
    scannedIn tree path = scannedIn tree other := by
  rw [scannedIn, scannedIn]
  cases hfiles : Jar.classFiles tree path with
  | ok files => rw [(Jar.classFiles_congr hplace).mp hfiles]
  | error failure =>
    cases hother : Jar.classFiles tree other with
    | error _ => rfl
    | ok files =>
      rw [(Jar.classFiles_congr hplace).mpr hother] at hfiles
      cases hfiles

theorem length_of_scans {images : List ClassImage} {scanned : List (ClassImage × List String)}
    {failures : List EntryFailure} (h : Scans images scanned failures) :
    scanned.length = images.countP fun image => (Reference.references image.image).isOk := by
  induction h with
  | done => rfl
  | scanned hscan _ ih =>
    rw [List.length_cons, ih, List.countP_cons_of_pos]
    rw [hscan]
    rfl
  | failed hscan _ ih =>
    rw [ih, List.countP_cons_of_neg]
    rw [hscan]
    exact Bool.false_ne_true

theorem countP_of_gathers {paths : List String} {images : List ClassImage}
    {failures : List EntryFailure} (h : Gathers tree (paths.map .archive) images failures) :
    images.countP (fun image => (Reference.references image.image).isOk) =
      (paths.map (scannedIn tree)).sum := by
  induction paths generalizing images failures with
  | nil =>
    cases h
    rfl
  | cons path rest ih =>
    rw [List.map_cons] at h
    rw [List.map_cons, List.sum_cons, scannedIn]
    cases h with
    | archive hread hrest =>
      rw [hread, List.countP_append, List.countP_map, ih hrest]
      rfl
    | unreadArchive hread hrest => rw [hread, ih hrest, Nat.zero_add]

/-- Verifying counts the class files that it scans archive by archive. -/
theorem verify_scanned_eq (hkind : session.kind = .archive) (tree : Tree) (system : NameSet) :
    (session.verify tree system).scanned =
      ((session.archives.filter (·.found)).map fun status => scannedIn tree status.path).sum := by
  obtain ⟨unscanned, hscans, -⟩ := scans_scanned session tree
  have hgathers := gathers_images session tree
  have hsources : session.sources =
      ((session.archives.filter (·.found)).map (·.path)).map .archive := by
    rw [sources, hkind, List.map_map]
    rfl
  rw [hsources] at hgathers
  have hscanned : (session.verify tree system).scanned = (session.scanned tree).1.length := rfl
  rw [hscanned, length_of_scans hscans, countP_of_gathers hgathers, List.map_map]
  rfl

/-! ### Leaving out repetitions -/

section Fewer

variable {fewer : Session}

theorem timesFound_pos_iff : 0 < session.timesFound tree owner ↔
    ∃ status ∈ session.archives, status.found = true ∧ tree.SamePlace status.path owner := by
  simp only [timesFound, List.countP_pos_iff, List.mem_filter, decide_eq_true_eq, and_assoc]

/-- A session has some archives of another, and each that was found there at least by one path. -/
structure IsThinned (tree : Tree) (fewer session : Session) : Prop where
  sublist : fewer.archives.Sublist session.archives
  kept : ∀ status ∈ session.archives, status.found = true → 0 < fewer.timesFound tree status.path

theorem IsThinned.hasRecord_iff (h : IsThinned tree fewer session) {place : List String}
    {index : Nat} :
    fewer.HasRecord tree name place index ↔ session.HasRecord tree name place index := by
  constructor
  · rintro ⟨status, hstatus, hrecord⟩
    exact ⟨status, h.sublist.subset hstatus, hrecord⟩
  · rintro ⟨status, hstatus, hfound, hplace, hname⟩
    obtain ⟨other, hother, hotherfound, hsame⟩ :=
      timesFound_pos_iff.mp (h.kept status hstatus hfound)
    exact ⟨other, hother, hotherfound, hsame.trans hplace, (Jar.hasNameAt_congr hsame).mpr hname⟩

theorem IsThinned.occursTwice_iff (h : IsThinned tree fewer session) :
    fewer.OccursTwice tree name ↔ session.OccursTwice tree name := by
  simp only [OccursTwice, h.hasRecord_iff]

theorem IsThinned.timesFound_le (h : IsThinned tree fewer session) (owner : String) :
    fewer.timesFound tree owner ≤ session.timesFound tree owner :=
  (h.sublist.filter _).countP_le

/-- Where an archive was not left out, it is there under each of its paths. -/
theorem IsThinned.mem_archives (h : IsThinned tree fewer session) {status : ArchiveStatus}
    (hstatus : status ∈ session.archives) (hfound : status.found = true)
    (htimes : fewer.timesFound tree status.path = session.timesFound tree status.path) :
    status ∈ fewer.archives := by
  rw [timesFound, timesFound, List.countP_eq_length_filter, List.countP_eq_length_filter] at htimes
  -- A sublist of the same length is the whole list.
  have heq := ((h.sublist.filter _).filter _).eq_of_length htimes
  have hmem : status ∈ (session.archives.filter (·.found)).filter
      fun other => tree.SamePlace other.path status.path :=
    List.mem_filter.mpr ⟨List.mem_filter.mpr ⟨hstatus, hfound⟩, decide_eq_true rfl⟩
  rw [← heq] at hmem
  exact List.mem_of_mem_filter (List.mem_of_mem_filter hmem)

/-- Flags are lost only with repetitions of the archive that the file is in. -/
theorem IsThinned.isFlagged (h : IsThinned tree fewer session) (hlisting : IsListing tree session)
    (hfewer : IsListing tree fewer) (owner name : String) :
    (fewer.IsFlagged owner name → session.IsFlagged owner name) ∧
      (session.IsFlagged owner name →
        fewer.timesFound tree owner = session.timesFound tree owner →
        fewer.IsFlagged owner name) := by
  rw [hlisting.isFlagged_iff, hfewer.isFlagged_iff, hlisting.exists_entry_iff,
    hfewer.exists_entry_iff, h.occursTwice_iff]
  constructor
  · rintro ⟨⟨status, hstatus, hplace⟩, htwice⟩
    have hle := h.timesFound_le owner
    exact ⟨⟨status, h.sublist.subset hstatus, hplace⟩, htwice.imp_right (by omega)⟩
  · rintro ⟨⟨status, hstatus, hfound, rfl, hrecord⟩, htwice⟩ htimes
    have hmem := h.mem_archives hstatus hfound htimes
    exact ⟨⟨status, hmem, hfound, rfl, hrecord⟩, htimes ▸ htwice⟩

/-- What repetitions of archives do to a session, compared with one that has fewer of them. -/
structure IsRepetitionOf (tree : Tree) (system : NameSet) (fewer session : Session) : Prop where
  isFlagged : ∀ owner name, fewer.IsFlagged owner name → session.IsFlagged owner name
  /-- Only entries of archives that are there more often are flagged besides. -/
  isFlagged_of_timesFound_eq : ∀ owner name, session.IsFlagged owner name →
    fewer.timesFound tree owner = session.timesFound tree owner → fewer.IsFlagged owner name
  /-- Archives that are there again are scanned again. -/
  scanned : ∃ repeated,
    (session.archives.filter (·.found)).Perm (fewer.archives.filter (·.found) ++ repeated) ∧
    (∀ status ∈ repeated, ∃ same ∈ fewer.archives, same.found = true ∧
      tree.SamePlace same.path status.path ∧
      scannedIn tree same.path = scannedIn tree status.path) ∧
    (session.verify tree system).scanned = (fewer.verify tree system).scanned +
      (repeated.map fun status => scannedIn tree status.path).sum

theorem IsThinned.isRepetitionOf (h : IsThinned tree fewer session)
    (hlisting : IsListing tree session) (hfewer : IsListing tree fewer)
    (hkind : session.kind = .archive) (hfewerkind : fewer.kind = .archive) (system : NameSet) :
    IsRepetitionOf tree system fewer session where
  isFlagged owner name := (h.isFlagged hlisting hfewer owner name).1
  isFlagged_of_timesFound_eq owner name := (h.isFlagged hlisting hfewer owner name).2
  scanned := by
    obtain ⟨repeated, hperm⟩ := (h.sublist.filter (·.found)).exists_perm_append
    refine ⟨repeated, hperm, ?_, ?_⟩
    · intro status hstatus
      obtain ⟨hmem, hfound⟩ :=
        List.mem_filter.mp (hperm.mem_iff.mpr (List.mem_append_right _ hstatus))
      obtain ⟨same, hsame, hsamefound, hplace⟩ := timesFound_pos_iff.mp (h.kept status hmem hfound)
      exact ⟨same, hsame, hsamefound, hplace, scannedIn_congr hplace⟩
    · rw [verify_scanned_eq hkind, verify_scanned_eq hfewerkind, (hperm.map _).sum_nat,
        List.map_append, List.sum_append]

end Fewer

theorem sublist_archives_assemble (tree : Tree) (path : String) (own : List Entry)
    (manifest : Option Manifest) {kept paths : List String} (hsublist : kept.Sublist paths) :
    (assemble tree true path own manifest kept).archives.Sublist
      (assemble tree true path own manifest paths).archives :=
  ((hsublist.map _).map _).cons_cons _

/-- An entry is flagged when two records of the session have its path, and also when its own archive
was found more than once. So the manifest can leave out paths, if each archive that was found is
still there by some path, and nothing is lost but repetitions. -/
theorem openArchive_repetition {tree : Tree} {path : String} {session : Session} (system : NameSet)
    (h : openArchive tree path true = .ok session) :
    (∀ entry ∈ session.entries, entry.isNameMatch = true ↔
      session.OccursTwice tree entry.fullPath ∨
        1 < session.timesFound tree entry.owningArchive) ∧
    ∀ own kept fewer, Jar.entries tree path = .ok own →
      kept.Sublist (dependencies path session.manifest) →
      fewer = assemble tree true path own session.manifest kept →
      (∀ status ∈ session.archives, status.found = true →
        0 < fewer.timesFound tree status.path) →
      IsRepetitionOf tree system fewer session := by
  obtain ⟨own, hown, rfl⟩ := openArchive_eq_ok.mp h
  have hlisting := isListing_assemble hown (Jar.manifest tree path).toOption.join
    (dependencies path (Jar.manifest tree path).toOption.join)
  refine ⟨fun entry hentry => hlisting.isNameMatch_iff hentry, ?_⟩
  rintro other kept _ hother hsublist rfl hkept
  rw [hown] at hother
  obtain rfl := Except.ok.inj hother
  have hthinned : IsThinned tree _ _ :=
    ⟨sublist_archives_assemble tree path own (Jar.manifest tree path).toOption.join hsublist, hkept⟩
  exact hthinned.isRepetitionOf hlisting (isListing_assemble hown _ kept) rfl rfl system

/-! ### An archive by two paths -/

/-- The entries of the first archive of the bundle. -/
def bundleOwn : List Entry := (Jar.entries bundleTree "app.jar").toOption.getD []

theorem bundleOwn_listed : Jar.entries bundleTree "app.jar" = .ok bundleOwn :=
  eq_ok_getD (by decide +kernel)

/-- The session over the first archive of the bundle as it would be if the manifest named nothing
but `lib.jar`. -/
def slimSession : Session :=
  assemble bundleTree true "app.jar" bundleOwn (bundleSession true).manifest ["lib.jar"]

theorem isListing_slimSession : IsListing bundleTree slimSession :=
  isListing_assemble bundleOwn_listed _ _

/-- Of what the session over the bundle has found, the slim session leaves out nothing. The class
file of `lib.jar` is listed in both, flagged in the first only, and scanned there once more. -/
theorem slimSession_beside_bundleSession :
    (["lib.jar"].Sublist (dependencies "app.jar" (bundleSession true).manifest) ∧
      slimSession.archives.Sublist (bundleSession true).archives ∧
      ∀ status ∈ (bundleSession true).archives, status.found = true →
        0 < slimSession.timesFound bundleTree status.path) ∧
    ((∃ entry ∈ slimSession.entries, entry.place = ("lib.jar", "com/Util.class")) ∧
      ¬ slimSession.IsFlagged "lib.jar" "com/Util.class" ∧
      (bundleSession true).IsFlagged "lib.jar" "com/Util.class") ∧
    ((bundleSession true).verify bundleTree ∅).scanned = 3 ∧
      (slimSession.verify bundleTree ∅).scanned = 2 := by
  decide +kernel

/-- The session over the bundle has more than the slim one just what the second path to `lib.jar`
repeats. -/
theorem openArchive_repetition_bundle :
    openArchive bundleTree "app.jar" true = .ok (bundleSession true) ∧
      (∀ entry ∈ (bundleSession true).entries, entry.isNameMatch = true ↔
        (bundleSession true).OccursTwice bundleTree entry.fullPath ∨
          1 < (bundleSession true).timesFound bundleTree entry.owningArchive) ∧
      IsRepetitionOf bundleTree ∅ slimSession (bundleSession true) := by
  obtain ⟨hflags, hrepetition⟩ := openArchive_repetition ∅ (bundleSession_opened true)
  obtain ⟨⟨hpaths, -, hkept⟩, -⟩ := slimSession_beside_bundleSession
  exact ⟨bundleSession_opened true, hflags,
    hrepetition bundleOwn ["lib.jar"] slimSession bundleOwn_listed hpaths rfl hkept⟩

/-- The class file of `lib.jar` is flagged though no other record has its path, and it is scanned
twice. -/
theorem bundle_repeated_class :
    openArchive bundleTree "app.jar" true = .ok (bundleSession true) ∧
      (bundleSession true).IsFlagged "lib.jar" "com/Util.class" ∧
      ¬ (bundleSession true).OccursTwice bundleTree "com/Util.class" ∧
      ¬ slimSession.IsFlagged "lib.jar" "com/Util.class" ∧
      ((bundleSession true).verify bundleTree ∅).scanned = 3 ∧
      (slimSession.verify bundleTree ∅).scanned = 2 := by
  obtain ⟨⟨-, hsublist, hkept⟩, ⟨hplace, hunflagged, hflagged⟩, hscanned, hslim⟩ :=
    slimSession_beside_bundleSession
  refine ⟨bundleSession_opened true, hflagged, fun htwice => hunflagged ?_, hunflagged, hscanned,
    hslim⟩
  rw [isListing_slimSession.isFlagged_iff]
  refine ⟨hplace, .inl ?_⟩
  have hthinned : IsThinned bundleTree slimSession (bundleSession true) := ⟨hsublist, hkept⟩
  exact hthinned.occursTwice_iff.mpr htwice

end Session

end JarAudit
