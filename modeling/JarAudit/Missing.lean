import JarAudit.NameSet

/-!
# Missing classes

A class that is referred to is missing when nothing at hand provides it. A class never misses
itself.
-/

namespace JarAudit

/-- A name is at hand: it is the class's own, one of the provided ones or one of the platform's. -/
def isAtHand (provided system : NameSet) (self : Option String) (name : String) : Bool :=
  self == some name || provided.contains name || system.contains name

/-- The names referred to that are not at hand. -/
def missing (references : List String) (provided system : NameSet) (self : Option String) :
    NameSet :=
  NameSet.ofList (references.filter fun name => !isAtHand provided system self name)

theorem mem_missing {references : List String} {provided system : NameSet} {self : Option String}
    {name : String} :
    name ∈ missing references provided system self ↔
      name ∈ references ∧ self ≠ some name ∧ name ∉ provided ∧ name ∉ system := by
  rw [missing, NameSet.mem_ofList, List.mem_filter, isAtHand]
  simp only [Bool.not_or, Bool.and_eq_true, Bool.not_eq_true', beq_eq_false_iff_ne, and_assoc,
    Std.TreeSet.mem_iff_contains, Bool.not_eq_true, ne_eq]

end JarAudit
