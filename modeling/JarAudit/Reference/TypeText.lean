import JarAudit.Text.Pieces

/-!
# Class names in type texts

A class constant names a class plainly or, for an array, by its type text: brackets, then a
primitive code or `L`, a name and `;`. A descriptor is a run of such type texts. `cleanName` finds
the class that a class constant is about, `descriptorNames` the classes that a descriptor mentions.
-/

namespace JarAudit.Reference

/-- What follows the last `[`, if there is one. -/
def afterLastBracket (name : List Char) : Option (List Char) :=
  if '[' ∈ name then some (name.reverse.takeWhile (· != '[')).reverse else none

/-- The class that the name of a class constant is about. An array is about the class of its
elements; an array of primitives and a malformed array name are about none. -/
def cleanName (name : List Char) : Option (List Char) :=
  match name, afterLastBracket name with
  | [], _ => none
  | name, none => some name
  | _, some ('L' :: element) => do
    let (own, _) ← Text.splitAtFirst ';' element
    if own.isEmpty then none else some own
  | _, some _ => none

/-- The characters after which an `L` opens a class name: the signs of descriptors and the codes of
the primitive types. -/
def opensName (previous : Char) : Bool := "()[;BCDFIJSZ".toList.contains previous

/-- Where a walk through a descriptor is. -/
inductive Place where
  /-- Between names; an `L` here may open a name that counts. -/
  | between (opens : Bool)
  /-- Inside a name, with what was read of it in reverse. -/
  | inside (counts : Bool) (name : List Char)
  deriving DecidableEq, Repr

/-- Walks through the rest of a descriptor. A name counts when its `;` is there; `found` holds the
names so far in reverse. -/
def namesFrom : Place → (found : List (List Char)) → List Char → List (List Char)
  | _, found, [] => found.reverse
  | .between opens, found, char :: rest =>
    if char = 'L' then namesFrom (.inside opens []) found rest
    else namesFrom (.between (opensName char)) found rest
  | .inside counts name, found, char :: rest =>
    if char = ';' then
      namesFrom (.between true) (if counts then name.reverse :: found else found) rest
    else namesFrom (.inside counts (char :: name)) found rest

/-- The class names in a descriptor, in order: every `L` name `;` whose `L` is the first character
or follows a sign or a primitive code. -/
def descriptorNames (descriptor : List Char) : List (List Char) :=
  namesFrom (.between true) [] descriptor

end JarAudit.Reference
