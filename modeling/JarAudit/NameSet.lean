import Std.Data.TreeSet

/-!
# Sets of names

Sets of class names, held and listed in the order of their characters.
-/

namespace JarAudit

/-- A set of class names. -/
abbrev NameSet := Std.TreeSet String compare

namespace NameSet

/-- The set of the names in a list. -/
def ofList (names : List String) : NameSet := names.foldl (fun set name => set.insert name) ∅

/-- A set with the names of a list added. -/
def addAll (set : NameSet) (names : List String) : NameSet :=
  names.foldl (fun set name => set.insert name) set

/-- Adding the names of a list to a set adds them all. -/
theorem mem_addAll {set : NameSet} {names : List String} {name : String} :
    name ∈ set.addAll names ↔ name ∈ set ∨ name ∈ names := by
  induction names generalizing set with
  | nil => simp [addAll]
  | cons first rest ih =>
    have hstep : set.addAll (first :: rest) = addAll (set.insert first) rest := rfl
    rw [hstep, ih, Std.TreeSet.mem_insert, Std.compare_eq_iff_eq, List.mem_cons, eq_comm, or_assoc,
      or_left_comm]

/-- Adding the names that come with each of some items adds them all. -/
theorem mem_foldl_addAll {items : List α} {names : α → List String} {set : NameSet}
    {name : String} :
    name ∈ items.foldl (fun set item => set.addAll (names item)) set ↔
      name ∈ set ∨ ∃ item ∈ items, name ∈ names item := by
  induction items generalizing set with
  | nil => simp only [List.foldl_nil, List.not_mem_nil, false_and, exists_false, or_false]
  | cons first rest ih =>
    simp only [List.foldl_cons, ih, mem_addAll, List.mem_cons, exists_eq_or_imp, or_assoc]

/-- The set of a list has the names of the list. -/
theorem mem_ofList {names : List String} {name : String} : name ∈ ofList names ↔ name ∈ names := by
  have hempty : ofList names = addAll ∅ names := rfl
  rw [hempty, mem_addAll]
  simp only [Std.TreeSet.not_mem_emptyc, false_or]

end NameSet

end JarAudit
