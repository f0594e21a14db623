import Mathlib.Data.List.Infix
import JarAudit.Entry.Basic

/-!
# Names of classes and of class files

The class of a file is named by the path of the file without its ending and with `/` for each `\`,
and a file is looked for by the name of a class with `/` for each dot and with the ending. The two
do not go together for all names: `classNameOf?_pathOfClass` says which names come back.
-/

namespace JarAudit.Entry

/-! ### Characters in place of others -/

/-- A name with the new character wherever it has the old one. -/
def exchange (old new : Char) (name : String) : String :=
  String.ofList (name.toList.map fun char => if char = old then new else char)

/-- A class name with dots between the packages. -/
def dotted (name : String) : String := exchange '/' '.' name

theorem toList_exchange (old new : Char) (name : String) :
    (exchange old new name).toList =
      name.toList.map fun char => if char = old then new else char := by
  rw [exchange, String.toList_ofList]

theorem length_exchange (old new : Char) (name : String) :
    (exchange old new name).length = name.length := by
  rw [← String.length_toList, toList_exchange, List.length_map, String.length_toList]

/-- No character comes in but the new one. -/
theorem not_mem_exchange_of_not_mem {old new char : Char} {name : String} (hnew : new ≠ char)
    (h : char ∉ name.toList) : char ∉ (exchange old new name).toList := by
  rw [toList_exchange, List.mem_map]
  rintro ⟨other, hother, hchar⟩
  split at hchar
  · exact hnew hchar
  · exact h (hchar ▸ hother)

theorem exchange_eq_self_iff {old new : Char} (h : new ≠ old) {name : String} :
    exchange old new name = name ↔ old ∉ name.toList := by
  rw [← String.toList_inj, toList_exchange]
  induction name.toList with
  | nil => simp
  | cons first rest ih =>
    rw [List.map_cons, List.cons.injEq, ih, List.mem_cons, not_or]
    refine and_congr_left' ?_
    by_cases hfirst : first = old
    · simp [hfirst, h]
    · simp [hfirst, Ne.symm hfirst]

theorem not_mem_exchange {old new : Char} (h : new ≠ old) (name : String) :
    old ∉ (exchange old new name).toList := by
  rw [toList_exchange, List.mem_map]
  rintro ⟨char, -, hchar⟩
  split at hchar
  · exact h hchar
  · contradiction

/-- Dots are read as slashes again. -/
theorem exchange_dotted (name : String) :
    exchange '.' '/' (dotted name) = exchange '.' '/' name := by
  rw [← String.toList_inj, dotted, toList_exchange, toList_exchange, toList_exchange, List.map_map]
  refine List.map_congr_left fun char _ => ?_
  by_cases hslash : char = '/'
  · simp [hslash]
  · simp [hslash]

theorem exchange_suffix {ending name : String} (old new : Char)
    (h : ending.toList <:+ name.toList) :
    (exchange old new ending).toList <:+ (exchange old new name).toList := by
  rw [toList_exchange, toList_exchange]
  exact h.map _

theorem not_classSuffix_suffix {name : String} (h : '.' ∉ name.toList) :
    ¬classSuffix.toList <:+ name.toList := by
  intro hsuffix
  have hdot : '.' ∈ classSuffix.toList := by decide +kernel
  exact h (hsuffix.subset hdot)

/-- Without dots of its own, a name with dots for slashes ends like that of a class file when its
last part is `class`. -/
theorem classSuffix_suffix_dotted {name : String} (h : '.' ∉ name.toList) :
    classSuffix.toList <:+ (dotted name).toList ↔ "/class".toList <:+ name.toList := by
  constructor
  · intro hsuffix
    have hending : exchange '.' '/' classSuffix = "/class" := by decide +kernel
    have hback := exchange_suffix '.' '/' hsuffix
    rwa [exchange_dotted, (exchange_eq_self_iff (by decide)).mpr h, hending] at hback
  · intro hsuffix
    have hending : exchange '/' '.' "/class" = classSuffix := by decide +kernel
    have hdots := exchange_suffix '/' '.' hsuffix
    rwa [hending] at hdots

/-! ### Class files -/

variable {file name query : String}

theorem dropClassSuffix?_eq_some {stem : String} :
    dropClassSuffix? file = some stem ↔ file = stem ++ classSuffix := by
  rw [dropClassSuffix?, Option.map_eq_some_iff]
  simp only [List.isSuffixOf?_eq_some_iff_append_eq]
  constructor
  · rintro ⟨front, hfront, rfl⟩
    rw [← String.toList_inj, String.toList_append, String.toList_ofList, hfront]
  · rintro rfl
    exact ⟨stem.toList, String.toList_append.symm, String.ofList_toList⟩

theorem classNameOf?_eq_some :
    classNameOf? file = some name ↔
      ∃ stem, file = stem ++ classSuffix ∧ exchange '\\' '/' stem = name := by
  rw [classNameOf?, Option.map_eq_some_iff]
  simp only [dropClassSuffix?_eq_some]
  rfl

theorem classNameOf?_append (stem : String) :
    classNameOf? (stem ++ classSuffix) = some (exchange '\\' '/' stem) :=
  classNameOf?_eq_some.mpr ⟨stem, rfl, rfl⟩

/-- A class name is shorter than the path by the ending. -/
theorem length_of_classNameOf? (h : classNameOf? file = some name) :
    file.length = name.length + 6 := by
  obtain ⟨stem, rfl, rfl⟩ := classNameOf?_eq_some.mp h
  rw [String.length_append, length_exchange]
  rfl

theorem not_mem_backslash_of_classNameOf? (h : classNameOf? file = some name) :
    '\\' ∉ name.toList := by
  obtain ⟨stem, -, rfl⟩ := classNameOf?_eq_some.mp h
  exact not_mem_exchange (by decide) stem

theorem pathOfClass_of_suffix (h : classSuffix.toList <:+ query.toList) :
    pathOfClass query = query := by
  rw [pathOfClass, if_pos (List.isSuffixOf_iff_suffix.mpr h)]

theorem pathOfClass_of_not_suffix (h : ¬classSuffix.toList <:+ query.toList) :
    pathOfClass query = exchange '.' '/' query ++ classSuffix := by
  rw [pathOfClass, if_neg (mt List.isSuffixOf_iff_suffix.mp h)]
  rfl

/-- The path that is looked for gives a class of a name as long as what was asked for, if the query
does not have the ending of class files itself and is the name with some dots for slashes. -/
theorem classNameOf?_pathOfClass (hlength : query.length = name.length)
    (hslashes : '\\' ∉ query.toList) :
    classNameOf? (pathOfClass query) = some name ↔
      ¬classSuffix.toList <:+ query.toList ∧ exchange '.' '/' query = name := by
  by_cases hsuffix : classSuffix.toList <:+ query.toList
  · rw [pathOfClass_of_suffix hsuffix]
    refine iff_of_false (fun h => ?_) fun h => h.1 hsuffix
    have hlonger := length_of_classNameOf? h
    omega
  · rw [pathOfClass_of_not_suffix hsuffix]
    have hplain : '\\' ∉ (exchange '.' '/' query).toList :=
      not_mem_exchange_of_not_mem (by decide) hslashes
    rw [classNameOf?_append, (exchange_eq_self_iff (by decide)).mpr hplain, Option.some.injEq]
    exact (and_iff_right hsuffix).symm

end JarAudit.Entry
