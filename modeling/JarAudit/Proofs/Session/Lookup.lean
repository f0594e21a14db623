import JarAudit.Proofs.Entry.ClassNames
import JarAudit.Proofs.Session.Verify

/-!
# Looking up the entries of a session

A session finds the first entry that goes by a name. In an archive these are the entries at two
paths: the name itself, and the path that is expected of a class with the name. `exists_find?_iff`
says which of the two is found, by their order, and `findsClass_iff` whether it is one that has the
class. A class with dots in its name is found neither by this name nor by the one with more dots, and
a class file with backslashes in its path only by its path, unless another entry has slashes.
-/

namespace JarAudit.Session

open JarAudit.Files Entry

variable {tree : Tree} {session : Session} {entry : Entry} {path other name query : String}

/-! ### Opened sessions -/

/-- A session as it is opened over a file tree: over a class file, or over an archive, with the
archives that its manifest names listed or only counted. -/
def IsOpenedEitherWay (tree : Tree) (session : Session) : Prop :=
  (∃ path, openClassFile tree path = .ok session) ∨
    ∃ path recurse, openArchive tree path recurse = .ok session

/-- Whatever is listed in a session over an archive comes from an archive that can be opened. -/
theorem isStandalone_of_openArchive {recurse : Bool}
    (hopen : openArchive tree path recurse = .ok session) (hentry : entry ∈ session.entries) :
    entry.isStandalone = false := by
  obtain ⟨listed, hlisted, -⟩ := exists_listing_of_mem hopen hentry
  obtain ⟨archive, harchive, -⟩ := bind_eq_ok.mp hlisted
  exact isStandalone_eq_false harchive

/-! ### The first entry that goes by a name -/

/-- There is an entry with a path, and the first such entry comes before all entries with another
path. -/
def LeadsOver (session : Session) (path other : String) : Prop :=
  ∃ earlier entry later, session.entries = earlier ++ entry :: later ∧ entry.fullPath = path ∧
    ∀ item ∈ earlier, item.fullPath ≠ other

/-- When nothing has the other path, what matters is whether there is an entry at all. -/
theorem leadsOver_iff_of_forall_ne (hother : ∀ item ∈ session.entries, item.fullPath ≠ other) :
    session.LeadsOver path other ↔ ∃ item ∈ session.entries, item.fullPath = path := by
  constructor
  · rintro ⟨earlier, entry, later, hentries, hpath, -⟩
    have hmem : entry ∈ session.entries := by
      rw [hentries]
      exact List.mem_append_right _ List.mem_cons_self
    exact ⟨entry, hmem, hpath⟩
  · rintro ⟨entry, hentry, hpath⟩
    obtain ⟨earlier, later, hentries⟩ := List.append_of_mem hentry
    refine ⟨earlier, entry, later, hentries, hpath, fun item hitem => hother item ?_⟩
    rw [hentries]
    exact List.mem_append_left _ hitem

/-- Of two paths that are looked for at once, the one is found that comes first. -/
theorem exists_find?_iff {p : Entry → Bool}
    (hp : ∀ item ∈ session.entries,
      p item = true ↔ item.fullPath = path ∨ item.fullPath = other) :
    (∃ found, session.entries.find? p = some found ∧ found.fullPath = path) ↔
      session.LeadsOver path other := by
  constructor
  · rintro ⟨found, hfound, hpath⟩
    obtain ⟨-, earlier, later, hentries, hnone⟩ := List.find?_eq_some_iff_append.mp hfound
    refine ⟨earlier, found, later, hentries, hpath, fun item hitem hother => ?_⟩
    have hmem : item ∈ session.entries := hentries ▸ List.mem_append_left _ hitem
    have hyes : p item = true := (hp item hmem).mpr (.inr hother)
    have hno := hnone item hitem
    rw [hyes] at hno
    cases hno
  · rintro ⟨earlier, entry, later, hentries, hpath, hbefore⟩
    have hentry : p entry = true := (hp entry (by simp [hentries])).mpr (.inl hpath)
    rw [hentries, List.find?_append, List.find?_cons_of_pos hentry]
    cases hfirst : earlier.find? p with
    | none => exact ⟨entry, rfl, hpath⟩
    | some found =>
      have hmem := List.mem_of_find?_eq_some hfirst
      have hfound := (hp found (hentries ▸ List.mem_append_left _ hmem)).mp
        (List.find?_some hfirst)
      exact ⟨found, rfl, hfound.resolve_right (hbefore found hmem)⟩

/-! ### Lookups -/

/-- Looking up a path gives an entry with this path. -/
def FindsPath (session : Session) (path : String) : Prop :=
  ∃ found, session.find? path = some found ∧ found.fullPath = path

/-- Looking up some name gives an entry that has a class. -/
def FindsClass (session : Session) (query name : String) : Prop :=
  ∃ found, session.find? query = some found ∧ found.className? = some name

section Archive

variable (hlisted : ∀ item ∈ session.entries, item.isStandalone = false)
include hlisted

/-- In an archive the entries at two paths go by a name. -/
theorem goesBy_iff (hentry : entry ∈ session.entries) :
    goesBy query entry = true ↔ entry.fullPath = query ∨ entry.fullPath = pathOfClass query := by
  simp only [goesBy, hlisted entry hentry, Bool.false_and, Bool.or_false, Bool.or_eq_true,
    beq_iff_eq]

theorem className?_of_listed (hentry : entry ∈ session.entries) :
    entry.className? = classNameOf? entry.fullPath := by
  rw [className?, hlisted entry hentry]
  rfl

theorem findsPath_iff : session.FindsPath path ↔ session.LeadsOver path (pathOfClass path) :=
  exists_find?_iff fun _ hitem => goesBy_iff hlisted hitem

/-- A class is found by a query of the same length if and only if the query reads as the name of
the class, does not look like a path itself, and the class file comes before any entry that has the
query for its path. -/
theorem findsClass_iff (hlength : query.length = name.length) (hslashes : '\\' ∉ query.toList) :
    session.FindsClass query name ↔
      exchange '.' '/' query = name ∧ ¬classSuffix.toList <:+ query.toList ∧
        session.LeadsOver (name ++ classSuffix) query := by
  have hpaths : ∀ item ∈ session.entries, goesBy query item = true ↔
      item.fullPath = pathOfClass query ∨ item.fullPath = query :=
    fun item hitem => (goesBy_iff hlisted hitem).trans or_comm
  have hpath := classNameOf?_pathOfClass hlength hslashes
  constructor
  · rintro ⟨found, hfound, hclass⟩
    have hmem := List.mem_of_find?_eq_some hfound
    rw [className?_of_listed hlisted hmem] at hclass
    rcases (hpaths found hmem).mp (List.find?_some hfound) with hplace | hplace
    · rw [hplace] at hclass
      obtain ⟨hsuffix, hname⟩ := hpath.mp hclass
      have hleads := (exists_find?_iff hpaths).mp ⟨found, hfound, hplace⟩
      rw [pathOfClass_of_not_suffix hsuffix, hname] at hleads
      exact ⟨hname, hsuffix, hleads⟩
    · -- What is at the query itself has a class with a shorter name.
      have hlonger := length_of_classNameOf? hclass
      rw [hplace] at hlonger
      omega
  · rintro ⟨hname, hsuffix, hleads⟩
    rw [← hname, ← pathOfClass_of_not_suffix hsuffix] at hleads
    obtain ⟨found, hfound, hplace⟩ := (exists_find?_iff hpaths).mpr hleads
    have hmem := List.mem_of_find?_eq_some hfound
    refine ⟨found, hfound, ?_⟩
    rw [className?_of_listed hlisted hmem, hplace, hpath.mpr ⟨hsuffix, hname⟩]

theorem findsClass_self_iff (hslashes : '\\' ∉ name.toList) :
    session.FindsClass name name ↔
      '.' ∉ name.toList ∧ session.LeadsOver (name ++ classSuffix) name := by
  rw [findsClass_iff hlisted rfl hslashes, exchange_eq_self_iff (by decide)]
  exact and_congr_right fun hdots => and_iff_right (not_classSuffix_suffix hdots)

theorem findsClass_dotted_iff (hslashes : '\\' ∉ name.toList) :
    session.FindsClass (dotted name) name ↔
      '.' ∉ name.toList ∧ ¬"/class".toList <:+ name.toList ∧
        session.LeadsOver (name ++ classSuffix) (dotted name) := by
  have hlength : (dotted name).length = name.length := length_exchange ..
  have hplain : '\\' ∉ (dotted name).toList :=
    not_mem_exchange_of_not_mem (by decide) hslashes
  rw [findsClass_iff hlisted hlength hplain, exchange_dotted, exchange_eq_self_iff (by decide)]
  refine and_congr_right fun hdots => ?_
  rw [classSuffix_suffix_dotted hdots]

theorem isSome_find?_iff : (session.find? query).isSome = true ↔
    ∃ item ∈ session.entries, item.fullPath = query ∨ item.fullPath = pathOfClass query := by
  rw [find?, List.find?_isSome]
  exact exists_congr fun item => and_congr_right fun hitem => goesBy_iff hlisted hitem

end Archive

/-! ### The names of an entry -/

/-- Which lookups succeed in a session. A path gives an entry with the path unless there is an entry
before it where a class of this name would be. The name of a class gives an entry with the class if
and only if the name has no dots and the first entry with this very name in its path comes before any
entry that has the name for its path; and the same holds for the name with dots for slashes, unless
its last part is `class`. What is provided is found if and only if there is an entry at one of the
two paths. -/
theorem lookups_iff {tree : Tree} {session : Session} (hopen : IsOpenedEitherWay tree session) :
    (∀ entry ∈ session.entries,
      (session.FindsPath entry.fullPath ↔
        session.LeadsOver entry.fullPath (pathOfClass entry.fullPath)) ∧
      ∀ name, entry.className? = some name →
        (session.FindsClass name name ↔
          '.' ∉ name.toList ∧ session.LeadsOver (name ++ classSuffix) name) ∧
        (session.FindsClass (dotted name) name ↔
          '.' ∉ name.toList ∧ ¬"/class".toList <:+ name.toList ∧
            session.LeadsOver (name ++ classSuffix) (dotted name))) ∧
    ∀ name ∈ session.provided, (session.find? name).isSome = true ↔
      ∃ item ∈ session.entries, item.fullPath = name ∨ item.fullPath = pathOfClass name := by
  rcases hopen with ⟨path, hopen⟩ | ⟨path, recurse, hopen⟩
  · obtain ⟨-, only, hentries, halone⟩ := openClassFile_entries hopen
    have hprovided : session.provided = ∅ := by
      obtain ⟨_, -, hsession⟩ := bind_eq_ok.mp hopen
      obtain rfl := Except.ok.inj hsession
      rfl
    constructor
    · intro entry hentry
      obtain rfl := List.mem_singleton.mp (hentries ▸ hentry)
      have hfound : session.find? entry.fullPath = some entry := by
        rw [find?, hentries, List.find?_cons_of_pos (by simp [goesBy])]
      refine ⟨iff_of_true ⟨entry, hfound, rfl⟩ ⟨[], entry, [], hentries, rfl, nofun⟩, ?_⟩
      intro name hname
      rw [className?, if_pos halone] at hname
      cases hname
    · intro name hname
      rw [hprovided] at hname
      exact absurd hname Std.TreeSet.not_mem_emptyc
  · have hlisted : ∀ item ∈ session.entries, item.isStandalone = false :=
      fun item hitem => isStandalone_of_openArchive hopen hitem
    constructor
    · intro entry hentry
      refine ⟨findsPath_iff hlisted, fun name hname => ?_⟩
      rw [className?_of_listed hlisted hentry] at hname
      have hslashes := not_mem_backslash_of_classNameOf? hname
      exact ⟨findsClass_self_iff hlisted hslashes, findsClass_dotted_iff hlisted hslashes⟩
    · exact fun name _ => isSome_find?_iff hlisted

/-! ### A class file with a backslash -/

/-- An archive with the class files `a\B.class` and `c/D.class`. -/
def mixedArchive : ByteArray := ⟨#[
    80, 75, 3, 4, 10, 0, 0, 0, 0, 0, 0, 0, 33, 0, 94, 109, 58, 177, 10, 0, 0, 0, 10, 0, 0, 0,
    9, 0, 0, 0, 97, 92, 66, 46, 99, 108, 97, 115, 115, 202, 254, 186, 190, 0, 0, 0, 52, 0, 1,
    80, 75, 3, 4, 10, 0, 0, 0, 0, 0, 0, 0, 33, 0, 94, 109, 58, 177, 10, 0, 0, 0, 10, 0, 0, 0,
    9, 0, 0, 0, 99, 47, 68, 46, 99, 108, 97, 115, 115, 202, 254, 186, 190, 0, 0, 0, 52, 0, 1,
    80, 75, 1, 2, 10, 0, 10, 0, 0, 0, 0, 0, 0, 0, 33, 0, 94, 109, 58, 177, 10, 0, 0, 0, 10, 0,
    0, 0, 9, 0, 0, 0, 0, 0, 0, 0, 0, 0, 0, 0, 0, 0, 0, 0, 0, 0, 97, 92, 66, 46, 99, 108, 97,
    115, 115, 80, 75, 1, 2, 10, 0, 10, 0, 0, 0, 0, 0, 0, 0, 33, 0, 94, 109, 58, 177, 10, 0, 0,
    0, 10, 0, 0, 0, 9, 0, 0, 0, 0, 0, 0, 0, 0, 0, 0, 0, 0, 0, 49, 0, 0, 0, 99, 47, 68, 46, 99,
    108, 97, 115, 115, 80, 75, 5, 6, 0, 0, 0, 0, 2, 0, 2, 0, 110, 0, 0, 0, 98, 0, 0, 0, 0, 0]⟩

/-- A directory with the archive in it. -/
def mixedTree : Tree := { root := .directory [("app.jar", .file mixedArchive 0)] }

/-- The session over the archive. -/
def mixedSession : Session :=
  (openArchive mixedTree "app.jar" true).toOption.getD { root := "app.jar", kind := .archive }

theorem mixedSession_opened : openArchive mixedTree "app.jar" true = .ok mixedSession :=
  eq_ok_getD (by decide +kernel)

/-- The entries of the two class files. -/
def mixedEntries : List Entry :=
  [.ofRecord "app.jar" "a\\B.class" 2973396318 10 315532800,
    .ofRecord "app.jar" "c/D.class" 2973396318 10 315532800]

theorem mixedSession_entries : mixedSession.entries = mixedEntries := by decide +kernel

theorem mixedSession_provides : "a/B" ∈ mixedSession.provided := by
  rw [openArchive_provided mixedSession_opened, mixedSession_entries, Entry.provided,
    NameSet.mem_ofList]
  decide +kernel

/-- The class file with a slash in its path is found by the name with a dot. That with a backslash
is not found by the name that the session provides. -/
theorem lookups_iff_mixed :
    IsOpenedEitherWay mixedTree mixedSession ∧ mixedSession.FindsClass "c.D" "c/D" ∧
      "a/B" ∈ mixedSession.provided ∧ ¬mixedSession.FindsClass "a/B" "a/B" := by
  have hopen : IsOpenedEitherWay mixedTree mixedSession := .inr ⟨_, _, mixedSession_opened⟩
  obtain ⟨hlookups, -⟩ := lookups_iff hopen
  obtain ⟨slash, hslash, hd⟩ : ∃ entry ∈ mixedSession.entries, entry.className? = some "c/D" := by
    rw [mixedSession_entries]
    decide +kernel
  obtain ⟨back, hback, hb⟩ : ∃ entry ∈ mixedSession.entries, entry.className? = some "a/B" := by
    rw [mixedSession_entries]
    decide +kernel
  have hleads : ∀ query ∈ ["a/B", "c.D"], ∀ path, mixedSession.LeadsOver path query ↔
      ∃ item ∈ mixedEntries, item.fullPath = path := by
    intro query hquery path
    have hother : ∀ item ∈ mixedEntries, item.fullPath ≠ query := by
      revert query
      decide +kernel
    rw [← mixedSession_entries] at hother ⊢
    exact leadsOver_iff_of_forall_ne hother
  refine ⟨hopen, ?_, mixedSession_provides, fun hfinds => ?_⟩
  · have hfirst : mixedSession.LeadsOver ("c/D" ++ classSuffix) "c.D" :=
      (hleads "c.D" (by decide) _).mpr (by decide +kernel)
    show mixedSession.FindsClass (dotted "c/D") "c/D"
    exact ((hlookups slash hslash).2 "c/D" hd).2.mpr ⟨by decide +kernel, by decide +kernel, hfirst⟩
  · obtain ⟨-, hfirst⟩ := ((hlookups back hback).2 "a/B" hb).1.mp hfinds
    rw [hleads "a/B" (by decide)] at hfirst
    exact absurd hfirst (by decide +kernel)

/-- What a session provides is not always found, not even by the dotted name. -/
theorem class_of_backslash_not_found :
    openArchive mixedTree "app.jar" true = .ok mixedSession ∧
      (∃ entry ∈ mixedSession.entries, entry.className? = some "a/B") ∧
      "a/B" ∈ mixedSession.provided ∧ mixedSession.find? "a/B" = none ∧
      mixedSession.find? "a.B" = none := by
  refine ⟨mixedSession_opened, ?_, mixedSession_provides, ?_, ?_⟩
  · rw [mixedSession_entries]
    decide +kernel
  · rw [find?, mixedSession_entries]
    decide +kernel
  · rw [find?, mixedSession_entries]
    decide +kernel

end JarAudit.Session
