import Mathlib.Data.List.Forall2
import Mathlib.Data.List.Nodup
import JarAudit.Jar

/-!
# What the questions to an archive answer

The answers of `Jar.entries`, `Jar.classFiles`, `Jar.classNames` and `Jar.contents` in terms of the
archive's records. The first three go through all records, and one that does not pass keeps back the
answer for all of them. Class files are read in two ways, all of an archive at once by `classFiles`
and one by its name by `contents`; `mem_classFiles_iff_contents` says that both give the same as
long as names are not repeated.
-/

namespace JarAudit

open JarAudit.Files JarAudit.Zip

/-! ### Results -/

section Results

variable {ε ε' α β : Type}

theorem bind_eq_ok {result : Except ε α} {next : α → Except ε β} {b : β} :
    result >>= next = .ok b ↔ ∃ a, result = .ok a ∧ next a = .ok b := by
  cases result with
  | error e =>
    constructor
    · intro h; cases h
    · rintro ⟨a, h, -⟩; cases h
  | ok a =>
    constructor
    · intro h; exact ⟨a, rfl, h⟩
    · rintro ⟨_, h, hnext⟩; cases h; exact hnext

theorem bind_eq_error {result : Except ε α} {next : α → Except ε β} {e : ε} :
    result >>= next = .error e ↔ result = .error e ∨ ∃ a, result = .ok a ∧ next a = .error e := by
  cases result with
  | error other =>
    change Except.error other = Except.error e ↔ _
    simp only [Except.error.injEq, reduceCtorEq, false_and, exists_false, or_false]
  | ok a =>
    change next a = .error e ↔ _
    simp only [Except.ok.injEq, reduceCtorEq, exists_eq_left', false_or]

/-- What comes behind a check that throws. -/
theorem unless_eq_ok {condition : Prop} [Decidable condition] {e : ε} {next : PUnit → Except ε β}
    {b : β} :
    (if condition then throw e >>= next else next ()) = .ok b ↔ ¬ condition ∧ next () = .ok b := by
  by_cases h : condition
  · rw [if_pos h]
    exact ⟨nofun, fun h' => absurd h h'.1⟩
  · rw [if_neg h]
    exact ⟨fun h' => ⟨h, h'⟩, And.right⟩

theorem pure_eq_ok {a b : α} : (pure a : Except ε α) = .ok b ↔ b = a := by
  constructor
  · intro h; exact (Except.ok.inj h).symm
  · rintro rfl; rfl

theorem mapError_eq_ok {f : ε → ε'} {result : Except ε α} {a : α} :
    result.mapError f = .ok a ↔ result = .ok a := by
  cases result with
  | error e => exact ⟨nofun, nofun⟩
  | ok b => rw [Except.mapError, Except.ok.injEq, Except.ok.injEq]

/-- A result is the one that would do without a default. -/
theorem eq_ok_getD {result : Except ε α} {default : α} (h : result.toOption.isSome = true) :
    result = .ok (result.toOption.getD default) := by
  cases result with
  | error e => cases h
  | ok a => rfl

theorem inContext_eq_ok {cause : Cause} {result : Except Failure α} {a : α} :
    inContext cause result = .ok a ↔ result = .ok a :=
  mapError_eq_ok

/-- A list is gone through without an error when each item is. -/
theorem mapM_eq_ok {f : α → Except ε β} {items : List α} {results : List β} :
    items.mapM f = .ok results ↔ List.Forall₂ (fun a b => f a = .ok b) items results := by
  induction items generalizing results with
  | nil =>
    change Except.ok [] = Except.ok results ↔ _
    rw [List.forall₂_nil_left_iff, Except.ok.injEq, eq_comm]
  | cons item rest ih =>
    rw [List.mapM_cons, bind_eq_ok, List.forall₂_cons_left_iff]
    constructor
    · rintro ⟨b, hitem, hrest⟩
      obtain ⟨others, hothers, hpure⟩ := bind_eq_ok.mp hrest
      cases hpure
      exact ⟨b, others, hitem, ih.mp hothers, rfl⟩
    · rintro ⟨b, others, hitem, hrest, rfl⟩
      exact ⟨b, hitem, bind_eq_ok.mpr ⟨others, ih.mpr hrest, rfl⟩⟩

/-- Something is picked out of a list that is gone through: from the items to `keep`, and from no
others. Every item has to pass, whether anything is picked from it or not. -/
theorem filterMap_mapM_eq_ok {f : α → Except ε (Option β)} (keep : α → Bool) (Passes : α → Prop)
    (R : α → β → Prop)
    (hskip : ∀ a, keep a = false → ∀ picked, f a = .ok picked ↔ Passes a ∧ picked = none)
    (hkeep : ∀ a, keep a = true → ∀ picked,
      f a = .ok picked ↔ Passes a ∧ ∃ b, R a b ∧ picked = some b)
    {items : List α} {chosen : List β} :
    items.mapM f >>= (fun results => .ok (results.filterMap id)) = .ok chosen ↔
      (∀ a ∈ items, Passes a) ∧ List.Forall₂ R (items.filter keep) chosen := by
  simp only [bind_eq_ok, mapM_eq_ok, Except.ok.injEq]
  -- An item that is not kept gives `none`, which drops out of what is chosen and leaves `Passes`.
  induction items generalizing chosen with
  | nil =>
    simp only [List.forall₂_nil_left_iff, exists_eq_left, List.filterMap_nil, List.not_mem_nil,
      false_implies, implies_true, List.filter_nil, true_and, eq_comm]
  | cons a rest ih =>
    simp only [List.forall₂_cons_left_iff, List.forall_mem_cons]
    cases hk : keep a with
    | false =>
      rw [List.filter_cons_of_neg (by simp [hk]), and_assoc, ← ih]
      constructor
      · rintro ⟨_, ⟨picked, others, hpicked, hothers, rfl⟩, rfl⟩
        obtain ⟨hpasses, rfl⟩ := (hskip a hk picked).mp hpicked
        exact ⟨hpasses, others, hothers, rfl⟩
      · rintro ⟨hpasses, others, hothers, rfl⟩
        exact ⟨_, ⟨none, others, (hskip a hk none).mpr ⟨hpasses, rfl⟩, hothers, rfl⟩, rfl⟩
    | true =>
      rw [List.filter_cons_of_pos hk, List.forall₂_cons_left_iff]
      constructor
      · rintro ⟨_, ⟨picked, others, hpicked, hothers, rfl⟩, rfl⟩
        obtain ⟨hpasses, b, hb, rfl⟩ := (hkeep a hk picked).mp hpicked
        obtain ⟨hall, hrest⟩ := ih.mp ⟨others, hothers, rfl⟩
        exact ⟨⟨hpasses, hall⟩, b, _, hb, hrest, rfl⟩
      · rintro ⟨⟨hpasses, hall⟩, b, _, hb, hrest, rfl⟩
        obtain ⟨others, hothers, rfl⟩ := ih.mpr ⟨hall, hrest⟩
        exact ⟨_, ⟨some b, others, (hkeep a hk _).mpr ⟨hpasses, b, hb, rfl⟩, hothers, rfl⟩, rfl⟩

/-- What one list holds answers to something in the other. -/
theorem exists_of_forall₂ {R : α → β → Prop} {as : List α} {bs : List β}
    (h : List.Forall₂ R as bs) : (∀ a ∈ as, ∃ b ∈ bs, R a b) ∧ ∀ b ∈ bs, ∃ a ∈ as, R a b := by
  induction h with
  | nil => exact ⟨nofun, nofun⟩
  | cons hfirst _ ih =>
    simp only [List.forall_mem_cons, List.exists_mem_cons_iff]
    exact ⟨⟨.inl hfirst, fun a ha => .inr (ih.1 a ha)⟩, .inl hfirst, fun b hb => .inr (ih.2 b hb)⟩

/-- A list has another that answers to it when each of its items has something that does. -/
theorem exists_forall₂_iff {R : α → β → Prop} {as : List α} :
    (∃ bs, List.Forall₂ R as bs) ↔ ∀ a ∈ as, ∃ b, R a b := by
  constructor
  · rintro ⟨bs, h⟩ a ha
    obtain ⟨b, -, hb⟩ := (exists_of_forall₂ h).1 a ha
    exact ⟨b, hb⟩
  · intro h
    induction as with
    | nil => exact ⟨[], .nil⟩
    | cons a rest ih =>
      obtain ⟨b, hb⟩ := h a List.mem_cons_self
      obtain ⟨bs, hbs⟩ := ih fun other hother => h other (List.mem_cons_of_mem a hother)
      exact ⟨b :: bs, .cons hb hbs⟩

/-- Lists whose items answer to one another are the same in what these have in common. -/
theorem map_eq_map_of_forall₂ {γ : Type} {f : α → γ} {g : β → γ} {as : List α} {bs : List β}
    (h : List.Forall₂ (fun a b => f a = g b) as bs) : as.map f = bs.map g := by
  rw [← List.forall₂_eq_eq_eq, List.forall₂_map_left_iff, List.forall₂_map_right_iff]
  exact h

end Results

/-! ### Archives -/

/-- When no name is repeated, a name finds each record that has it. -/
theorem Zip.Archive.find?_eq_some {archive : Archive} {name : String} {record : Record}
    (hnames : (archive.records.map (·.name)).Nodup) :
    archive.find? name = some record ↔ record ∈ archive.records ∧ record.name = name := by
  rw [Archive.find?]
  constructor
  · intro h
    exact ⟨List.mem_reverse.mp (List.mem_of_find?_eq_some h), by simpa using List.find?_some h⟩
  · rintro ⟨hmem, rfl⟩
    obtain ⟨found, hfound⟩ : ∃ found, archive.records.reverse.find? (·.name == record.name) =
        some found := by
      rw [← Option.isSome_iff_exists, List.find?_isSome]
      exact ⟨record, List.mem_reverse.mpr hmem, beq_self_eq_true _⟩
    have hname : found.name = record.name := by simpa using List.find?_some hfound
    have hsame : found = record :=
      List.inj_on_of_nodup_map hnames (List.mem_reverse.mp (List.mem_of_find?_eq_some hfound))
        hmem hname
    rw [hfound, hsame]

theorem Zip.Archive.find_eq_ok {archive : Archive} {name : String} {record : Record} :
    archive.find name = .ok record ↔ archive.find? name = some record := by
  rw [Archive.find]
  cases archive.find? name with
  | none => exact ⟨nofun, nofun⟩
  | some found => rw [Except.ok.injEq, Option.some.injEq]

/-- The data of a record, if it can be read: the record can be opened, what is stored of it
decompresses, and the result has the record's checksum. -/
def Zip.Archive.data? (archive : Archive) (record : Record) : Option (List UInt8) :=
  (archive.stored record).toOption.bind fun stored => (record.contents stored).toOption

theorem toOption_eq_some {ε α : Type} {result : Except ε α} {a : α} :
    result.toOption = some a ↔ result = .ok a := by
  cases result with
  | error e => exact ⟨nofun, nofun⟩
  | ok b => rw [Except.toOption, Option.some.injEq, Except.ok.injEq]

theorem Zip.Archive.data?_eq_some {archive : Archive} {record : Record} {bytes : List UInt8} :
    archive.data? record = some bytes ↔
      ∃ stored, archive.stored record = .ok stored ∧ record.contents stored = .ok bytes := by
  simp only [Archive.data?, Option.bind_eq_some_iff, toOption_eq_some]

namespace Jar

variable {tree : Tree} {path name : String} {archive : Archive}

/-- Nothing has the empty path. -/
theorem openAt_empty (tree : Tree) : openAt tree "" ≠ .ok archive := by
  intro h
  have hnode : tree.node "" = .error .notFound := rfl
  rw [openAt, hnode] at h
  cases h

/-- What is opened is a file. -/
theorem openAt_eq_ok : openAt tree path = .ok archive ↔ ∃ contents modified,
    tree.node path = .ok (.file contents modified) ∧ Archive.ofFile contents = .ok archive := by
  rw [openAt]
  split
  · rename_i fault hnode
    simp only [hnode, reduceCtorEq, false_and, exists_false]
  · rename_i children hnode
    simp only [hnode, reduceCtorEq, Except.ok.injEq, false_and, exists_false]
  · rename_i contents modified hnode
    simp only [hnode, inContext_eq_ok, liftFault, mapError_eq_ok, Except.ok.injEq, Node.file.injEq,
      and_assoc, exists_and_left, exists_eq_left']

theorem isFile_of_openAt (h : openAt tree path = .ok archive) : tree.isFile path = true := by
  obtain ⟨contents, modified, hnode, -⟩ := openAt_eq_ok.mp h
  rw [Tree.isFile, hnode]

/-- A name with the ending of class files is not that of a directory. -/
theorem isDirectoryName_eq_false (h : (Entry.dropClassSuffix? name).isSome = true) :
    Record.isDirectoryName name = false := by
  rw [Entry.dropClassSuffix?, Option.isSome_map, List.isSome_isSuffixOf?_eq_isSuffixOf,
    List.isSuffixOf_iff_suffix] at h
  obtain ⟨front, hfront⟩ := h
  have hlast : name.toList.getLast? = some 's' := by
    rw [← hfront, List.getLast?_append]
    rfl
  rw [Record.isDirectoryName, hlast]
  rfl

/-- The entry that stands for a record of an archive. -/
def entryOf (path : String) (record : Record) : Entry :=
  Entry.ofRecord path record.name record.checksum record.size record.stamp.unixSeconds

/-- The record is that of a file. -/
def isFile (record : Record) : Bool := !Record.isDirectoryName record.name

/-- The record is named like a class file. -/
def isClassFile (record : Record) : Bool := (Entry.dropClassSuffix? record.name).isSome

/-- The entries of an archive stand for its records but for directories. Every record has to be
found. -/
theorem entries_eq_ok {listed : List Entry} (hopen : openAt tree path = .ok archive) :
    entries tree path = .ok listed ↔
      (∀ record ∈ archive.records, ∃ offset, archive.dataOffset record = .ok offset) ∧
        listed = (archive.records.filter isFile).map (entryOf path) := by
  rw [entries, hopen]
  refine (filterMap_mapM_eq_ok isFile
    (fun record => ∃ offset, archive.dataOffset record = .ok offset)
    (fun record entry => entryOf path record = entry) ?_ ?_).trans ?_
  · intro record hfile picked
    rw [isFile, Bool.not_eq_false'] at hfile
    simp only [bind_eq_ok, liftFault, mapError_eq_ok, hfile, if_true, exists_and_right, pure_eq_ok]
  · intro record hfile picked
    rw [isFile, Bool.not_eq_true'] at hfile
    simp only [bind_eq_ok, liftFault, mapError_eq_ok, hfile, Bool.false_eq_true, if_false,
      exists_and_right, pure_eq_ok, exists_eq_left', entryOf]
  · rw [← List.forall₂_map_left_iff, List.forall₂_eq_eq_eq, eq_comm]

/-- The entries of an archive are its records but for directories. -/
theorem mem_entries {listed : List Entry} (hopen : openAt tree path = .ok archive)
    (h : entries tree path = .ok listed) {entry : Entry} :
    entry ∈ listed ↔ ∃ record ∈ archive.records, Record.isDirectoryName record.name = false ∧
      Entry.ofRecord path record.name record.checksum record.size record.stamp.unixSeconds =
        entry := by
  rw [((entries_eq_ok hopen).mp h).2, List.mem_map]
  simp only [List.mem_filter, isFile, Bool.not_eq_true', and_assoc, entryOf]

/-- The class files of an archive are its records that are named like one, each with its own data.
Every record has to be one that can be opened. -/
theorem classFiles_eq_ok {files : List (String × List UInt8)}
    (hopen : openAt tree path = .ok archive) :
    classFiles tree path = .ok files ↔
      (∀ record ∈ archive.records, ∃ stored, archive.stored record = .ok stored) ∧
        List.Forall₂ (fun record file => file.1 = record.name ∧
          archive.data? record = some file.2) (archive.records.filter isClassFile) files := by
  rw [classFiles, hopen]
  refine filterMap_mapM_eq_ok isClassFile
    (fun record => ∃ stored, archive.stored record = .ok stored)
    (fun record (file : String × List UInt8) => file.1 = record.name ∧
      archive.data? record = some file.2) ?_ ?_
  · intro record hclass picked
    rw [isClassFile, Option.isSome_eq_false_iff] at hclass
    simp only [bind_eq_ok, liftFault, mapError_eq_ok, hclass, Bool.or_true, if_true,
      exists_and_right, pure_eq_ok]
  · intro record hclass picked
    have hfile := isDirectoryName_eq_false hclass
    have hsome : (Entry.dropClassSuffix? record.name).isNone = false := by
      rw [Option.isNone_eq_false_iff]
      exact hclass
    simp only [bind_eq_ok, liftFault, liftData, mapError_eq_ok, inContext_eq_ok, hfile, hsome,
      Bool.or_false, Bool.false_eq_true, if_false, Zip.Archive.data?_eq_some]
    constructor
    · rintro ⟨stored, hstored, bytes, hbytes, hpair⟩
      exact ⟨⟨stored, hstored⟩, (record.name, bytes), ⟨rfl, stored, hstored, hbytes⟩,
        pure_eq_ok.mp hpair⟩
    · rintro ⟨-, ⟨_, bytes⟩, ⟨rfl, stored, hstored, hbytes⟩, rfl⟩
      exact ⟨stored, hstored, bytes, hbytes, rfl⟩

/-- All records of an archive can be opened, and the data of each class file can be read. -/
def IsReadable (archive : Archive) : Prop :=
  ∀ record ∈ archive.records, (∃ stored, archive.stored record = .ok stored) ∧
    (isClassFile record = true → (archive.data? record).isSome = true)

/-- The class files of an archive can be read at once if and only if nothing in it is unreadable. -/
theorem exists_classFiles_iff (hopen : openAt tree path = .ok archive) :
    (∃ files, classFiles tree path = .ok files) ↔ IsReadable archive := by
  simp only [IsReadable, classFiles_eq_ok hopen, exists_and_left, exists_forall₂_iff,
    List.mem_filter, and_imp, Prod.exists, exists_eq_left, Option.isSome_iff_exists]
  exact ⟨fun h record hrecord => ⟨h.1 record hrecord, h.2 record hrecord⟩,
    fun h => ⟨fun record hrecord => (h record hrecord).1, fun record hrecord =>
      (h record hrecord).2⟩⟩

/-- The class files of an archive are its records that are named like one, each with its own
data. -/
theorem mem_classFiles {files : List (String × List UInt8)} {bytes : List UInt8}
    (hopen : openAt tree path = .ok archive) (h : classFiles tree path = .ok files) :
    (name, bytes) ∈ files ↔ ∃ record ∈ archive.records, record.name = name ∧
      Record.isDirectoryName name = false ∧ (Entry.dropClassSuffix? name).isSome ∧
      archive.data? record = some bytes := by
  obtain ⟨hfiles, hrecords⟩ := (exists_of_forall₂ ((classFiles_eq_ok hopen).mp h).2).symm
  constructor
  · intro hfile
    obtain ⟨record, hrecord, rfl, hdata⟩ := hfiles _ hfile
    obtain ⟨hmem, hclass⟩ := List.mem_filter.mp hrecord
    exact ⟨record, hmem, rfl, isDirectoryName_eq_false hclass, hclass, hdata⟩
  · rintro ⟨record, hmem, rfl, -, hclass, hdata⟩
    obtain ⟨⟨_, found⟩, hfile, rfl, hfound⟩ := hrecords record (List.mem_filter.mpr ⟨hmem, hclass⟩)
    rwa [Option.some.inj (hdata.symm.trans hfound)]

/-- The classes of an archive go by the names of its records that are named like class files. Every
record has to be found. -/
theorem classNames_eq_ok {names : List String} (hopen : openAt tree path = .ok archive) :
    classNames tree path = .ok names ↔
      (∀ record ∈ archive.records, ∃ offset, archive.dataOffset record = .ok offset) ∧
        List.Forall₂ (fun record name => Entry.classNameOf? record.name = some name)
          (archive.records.filter isClassFile) names := by
  rw [classNames, hopen]
  refine filterMap_mapM_eq_ok isClassFile
    (fun record => ∃ offset, archive.dataOffset record = .ok offset)
    (fun record name => Entry.classNameOf? record.name = some name) ?_ ?_
  · intro record hclass picked
    rw [isClassFile, Option.isSome_eq_false_iff, Option.isNone_iff_eq_none] at hclass
    simp only [bind_eq_ok, liftFault, mapError_eq_ok, exists_and_right, Entry.classNameOf?, hclass,
      Option.map_none, pure_eq_ok]
  · intro record hclass picked
    obtain ⟨stem, hstem⟩ := Option.isSome_iff_exists.mp hclass
    simp only [bind_eq_ok, liftFault, mapError_eq_ok, exists_and_right, Entry.classNameOf?, hstem,
      Option.map_some, Option.some.injEq, pure_eq_ok, exists_eq_left']

/-- The contents under a name are the data of the last record with the name. -/
theorem contents_eq_ok {bytes : List UInt8} (hopen : openAt tree path = .ok archive) :
    contents tree path name = .ok bytes ↔
      ∃ record, archive.find? name = some record ∧ archive.data? record = some bytes := by
  simp only [contents, hopen, bind_eq_ok, Except.ok.injEq, exists_eq_left', inContext_eq_ok,
    liftFault, liftData, mapError_eq_ok, pure_eq_ok, Archive.find_eq_ok, Archive.data?_eq_some]
  constructor
  · rintro ⟨_, ⟨record, hfind, stored, hstored, rfl⟩, hcontents⟩
    exact ⟨record, hfind, stored, hstored, hcontents⟩
  · rintro ⟨record, hfind, stored, hstored, hcontents⟩
    exact ⟨(record, stored), ⟨record, hfind, stored, hstored, rfl⟩, hcontents⟩

/-- Reading the class files of an archive at once and reading each by its name give the same, when
no name is repeated. -/
theorem mem_classFiles_iff_contents {files : List (String × List UInt8)} {bytes : List UInt8}
    (hopen : openAt tree path = .ok archive) (h : classFiles tree path = .ok files)
    (hnames : (archive.records.map (·.name)).Nodup) :
    (name, bytes) ∈ files ↔ contents tree path name = .ok bytes ∧
      Record.isDirectoryName name = false ∧ (Entry.dropClassSuffix? name).isSome := by
  rw [mem_classFiles hopen h, contents_eq_ok hopen]
  constructor
  · rintro ⟨record, hrecord, hname, hfile, hclass, hdata⟩
    exact ⟨⟨record, (Archive.find?_eq_some hnames).mpr ⟨hrecord, hname⟩, hdata⟩, hfile, hclass⟩
  · rintro ⟨⟨record, hfind, hdata⟩, hfile, hclass⟩
    obtain ⟨hrecord, hname⟩ := (Archive.find?_eq_some hnames).mp hfind
    exact ⟨record, hrecord, hname, hfile, hclass, hdata⟩

end Jar

end JarAudit
