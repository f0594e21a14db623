import Mathlib.Data.Finset.Card
import JarAudit.Proofs.Session.Enumerations

/-!
# The classes of a class path, once and for all

Loading a class path sorts its archives into those that can be read and those that cannot, and takes
the classes of the former together (`SystemClasses.load_archives`, `SystemClasses.load_failures`,
`SystemClasses.mem_load_names`). Which classes there are depends on no more than the set of the
archives that can be read (`SystemClasses.load_names_congr`).

A library loads when it is first asked, so the files count as they are at that moment
(`SystemLibrary.answers_first`), and whatever becomes of them later, it answers the same
(`SystemLibrary.answers_of_loaded`).
-/

namespace JarAudit

open JarAudit.Files

/-- A set has as many names as any finite set with the same names. -/
theorem NameSet.size_eq_card {set : NameSet} {names : Finset String}
    (h : ∀ name, name ∈ set ↔ name ∈ names) : set.size = names.card := by
  have hnodup : set.toList.Nodup := by
    refine Std.TreeSet.distinct_toList.imp fun hne => ?_
    rwa [Std.compare_eq_iff_eq] at hne
  have hnames : set.toList.toFinset = names := by
    ext name
    rw [List.mem_toFinset, Std.TreeSet.mem_toList, h]
  rw [← hnames, List.toFinset_card_of_nodup hnodup, Std.TreeSet.length_toList]

/-! ### Loading -/

namespace SystemClasses

variable {tree : Tree} {classPath other : List String} {archive name : String}

/-- The classes of an archive can be counted up. -/
def isReadable (tree : Tree) (archive : String) : Bool := (Jar.classNames tree archive).isOk

/-- What is said of an archive whose classes cannot be counted up. -/
def failure? (tree : Tree) (archive : String) : Option ArchiveFailure :=
  match Jar.classNames tree archive with
  | .ok _ => none
  | .error error => some ⟨archive, error⟩

/-- The classes of an archive, none if it cannot be read. -/
def namesIn (tree : Tree) (archive : String) : List String :=
  (Jar.classNames tree archive).toOption.getD []

theorem mem_namesIn : name ∈ namesIn tree archive ↔ Jar.HasClass tree archive name := by
  rw [namesIn, Jar.HasClass]
  cases Jar.classNames tree archive with
  | error failure => simp [Except.toOption]
  | ok names => simp [Except.toOption]

theorem isReadable_of_hasClass (h : Jar.HasClass tree archive name) :
    isReadable tree archive = true := by
  obtain ⟨names, hnames, -⟩ := h
  rw [isReadable, hnames]
  rfl

/-- Along a class path each archive is put behind those of its own kind. -/
theorem foldl_add (classes : SystemClasses) :
    (classPath.foldl (fun classes archive =>
        classes.add archive (Jar.classNames tree archive)) classes).archives =
      classes.archives ++ classPath.filter (isReadable tree) ∧
    (classPath.foldl (fun classes archive =>
        classes.add archive (Jar.classNames tree archive)) classes).failures =
      classes.failures ++ classPath.filterMap (failure? tree) := by
  induction classPath generalizing classes with
  | nil => exact ⟨(List.append_nil _).symm, (List.append_nil _).symm⟩
  | cons archive rest ih =>
    obtain ⟨harchives, hfailures⟩ := ih (classes.add archive (Jar.classNames tree archive))
    rw [List.foldl_cons, harchives, hfailures]
    cases hnames : Jar.classNames tree archive with
    | ok names =>
      have hreadable : isReadable tree archive = true := by rw [isReadable, hnames]; rfl
      have hfailure : failure? tree archive = none := by rw [failure?, hnames]
      rw [List.filter_cons_of_pos hreadable, List.filterMap_cons_none hfailure]
      exact ⟨List.append_assoc .., rfl⟩
    | error error =>
      have hreadable : ¬ isReadable tree archive = true := by rw [isReadable, hnames]; nofun
      have hfailure : failure? tree archive = some ⟨archive, error⟩ := by rw [failure?, hnames]
      rw [List.filter_cons_of_neg hreadable, List.filterMap_cons_some hfailure]
      exact ⟨rfl, List.append_assoc ..⟩

theorem load_archives (tree : Tree) (classPath : List String) :
    (load tree classPath).archives = classPath.filter (isReadable tree) :=
  (foldl_add {}).1

theorem load_failures (tree : Tree) (classPath : List String) :
    (load tree classPath).failures = classPath.filterMap (failure? tree) :=
  (foldl_add {}).2

/-- An archive that has a failure is one that cannot be read. -/
theorem map_archive_filterMap_failure? (tree : Tree) (classPath : List String) :
    (classPath.filterMap (failure? tree)).map (·.archive) =
      classPath.filter fun archive => !isReadable tree archive := by
  rw [List.map_filterMap, ← List.filterMap_eq_filter]
  refine List.filterMap_congr fun archive _ => ?_
  rw [failure?, Option.guard, isReadable]
  cases Jar.classNames tree archive <;> rfl

/-- Every place of a class path is that of an archive that could be read, or of one that could not. -/
theorem load_perm (tree : Tree) (classPath : List String) :
    ((load tree classPath).archives ++ (load tree classPath).failures.map (·.archive)).Perm
      classPath := by
  rw [load_archives, load_failures, map_archive_filterMap_failure?]
  exact List.filter_append_perm (isReadable tree) classPath

/-- However many archives have a class, it counts once. -/
theorem size_load_names (tree : Tree) (classPath : List String) :
    (load tree classPath).names.size = (classPath.flatMap (namesIn tree)).toFinset.card := by
  refine NameSet.size_eq_card fun name => ?_
  rw [mem_load_names, List.mem_toFinset, List.mem_flatMap]
  simp only [mem_namesIn]

/-- The classes are a matter of which archives can be read, not of their order or number. -/
theorem load_names_congr
    (h : ∀ archive, isReadable tree archive = true → (archive ∈ other ↔ archive ∈ classPath)) :
    (∀ name, name ∈ (load tree other).names ↔ name ∈ (load tree classPath).names) ∧
      (load tree other).names.size = (load tree classPath).names.size := by
  have hmem : ∀ name, name ∈ (load tree other).names ↔ name ∈ (load tree classPath).names := by
    intro name
    rw [mem_load_names, mem_load_names]
    refine exists_congr fun archive => and_congr_left fun hclass => ?_
    exact h archive (isReadable_of_hasClass hclass)
  refine ⟨hmem, ?_⟩
  rw [size_load_names tree classPath]
  refine NameSet.size_eq_card fun name => ?_
  rw [hmem, mem_load_names, List.mem_toFinset, List.mem_flatMap]
  simp only [mem_namesIn]

end SystemClasses

/-! ### Asking a library -/

namespace SystemLibrary

/-- What may happen around a library. -/
inductive Event where
  /-- The files become those of another tree. -/
  | change (tree : Tree)
  /-- The classes are asked for. -/
  | get

/-- The classes are asked for. -/
def Event.isGet : Event → Bool
  | change _ => false
  | get => true

/-- What a library answers, time after time, when it starts with these files. -/
def answers : SystemLibrary → Tree → List Event → List SystemClasses
  | _, _, [] => []
  | library, _, .change tree :: rest => answers library tree rest
  | library, tree, .get :: rest => (library.get tree).1 :: answers (library.get tree).2 tree rest

/-- Once loaded, a library answers what it loaded, whatever happens. -/
theorem answers_of_loaded {library : SystemLibrary} {classes : SystemClasses}
    (h : library.loaded = some classes) (tree : Tree) (events : List Event) :
    library.answers tree events = List.replicate (events.countP Event.isGet) classes := by
  induction events generalizing tree with
  | nil => rfl
  | cons event rest ih =>
    cases event with
    | change next => exact ih next
    | get =>
      have hget : library.get tree = (classes, library) := by rw [SystemLibrary.get, h]
      rw [answers, hget, ih, List.countP_cons_of_pos rfl, List.replicate_succ]

/-- A library that is not loaded yet loads at the first question, from the files as they are then. -/
theorem answers_first {library : SystemLibrary} (h : library.loaded = none) (tree : Tree)
    (changes : List Tree) (later : List Event) :
    library.answers tree (changes.map .change ++ .get :: later) =
      List.replicate (later.countP Event.isGet + 1)
        (SystemClasses.load (changes.getLastD tree) library.classPath) := by
  induction changes generalizing tree with
  | nil =>
    have hget : library.get tree =
        (SystemClasses.load tree library.classPath,
          { library with loaded := some (SystemClasses.load tree library.classPath) }) := by
      rw [SystemLibrary.get, h]
    rw [List.map_nil, List.nil_append, answers, hget, answers_of_loaded rfl, List.replicate_succ]
    rfl
  | cons next changes ih =>
    rw [List.map_cons, List.cons_append, answers, ih, List.getLastD_cons]

/-- A library is the union of the archives of its class path that can be read when it is first asked.
Those that can be read and those that cannot are told apart, each kind in the order of the class path
and each failure with its own error, and no place of the class path is lost. A class is in the
library if such an archive has it, and counts once. Every class path with the same readable archives
gives the same classes, so that neither its order, nor repeats, nor what cannot be read matters. The
files count as they are at the first question, and every later answer is that of the first,
whatever the files have become. -/
theorem loaded_once (classPath : List String) (tree : Tree) (changes : List Tree)
    (later : List Event) :
    let current := changes.getLastD tree
    ∃ classes : SystemClasses,
      answers { classPath } tree (changes.map .change ++ .get :: later) =
        List.replicate (later.countP Event.isGet + 1) classes ∧
      classes.archives = classPath.filter (SystemClasses.isReadable current) ∧
      classes.failures = classPath.filterMap (SystemClasses.failure? current) ∧
      (classes.archives ++ classes.failures.map (·.archive)).Perm classPath ∧
      (∀ name, name ∈ classes.names ↔
        ∃ archive ∈ classPath, Jar.HasClass current archive name) ∧
      classes.names.size =
        (classPath.flatMap (SystemClasses.namesIn current)).toFinset.card ∧
      ∀ other : List String,
        (∀ archive, SystemClasses.isReadable current archive = true →
          (archive ∈ other ↔ archive ∈ classPath)) →
        (∀ name, name ∈ (SystemClasses.load current other).names ↔ name ∈ classes.names) ∧
          (SystemClasses.load current other).names.size = classes.names.size := by
  intro current
  refine ⟨SystemClasses.load current classPath, answers_first rfl tree changes later, ?_⟩
  refine ⟨SystemClasses.load_archives current classPath,
    SystemClasses.load_failures current classPath, SystemClasses.load_perm current classPath,
    fun name => SystemClasses.mem_load_names, SystemClasses.size_load_names current classPath, ?_⟩
  intro other hother
  exact SystemClasses.load_names_congr hother

end SystemLibrary

end JarAudit
