import JarAudit.Missing
import JarAudit.Reference.Scan
import JarAudit.Session.Basic

/-!
# Questions about one entry

The contents of an entry, and what they say as a class image: its outline, the classes it refers to,
and which of them are missing.
-/

namespace JarAudit.Session

open JarAudit.Files JarAudit.ClassFile

/-- The contents of an entry. -/
def read (tree : Tree) (entry : Entry) : Except Failure (List UInt8) :=
  if entry.isStandalone then
    match tree.read entry.fullPath with
    | .ok (contents, _) => .ok contents.data.toList
    | .error fault => .error ⟨.readClassFile entry.fullPath, [.systemFault fault]⟩
  else Jar.contents tree entry.owningArchive entry.fullPath

/-- A fault of a class image stops a question. -/
def liftImage (result : Except Fault α) : Except Failure α :=
  result.mapError fun fault => ⟨.imageFault fault, []⟩

/-- The outline of an entry, if it can be read to its end. -/
def describe (tree : Tree) (entry : Entry) : Except Failure Outline := do
  let image ← read tree entry
  inContext (.parseEntry entry.fullPath) (liftImage (parse image).toExcept)

/-- The contents of an entry and the classes that it refers to. -/
def references (tree : Tree) (entry : Entry) : Except Failure (List UInt8 × List String) := do
  let image ← read tree entry
  let names ← inContext (.scanEntry entry.fullPath) (liftImage (Reference.references image))
  return (image, names)

/-- The classes that an entry refers to, each once. -/
def included (tree : Tree) (entry : Entry) : Except Failure NameSet := do
  return NameSet.ofList (← references tree entry).2

/-- The classes that an entry refers to and that are not at hand. The entry's own class goes by the
name that its image gives, or else by that of the entry. -/
def missing (session : Session) (tree : Tree) (entry : Entry) (system : NameSet) :
    Except Failure NameSet := do
  let (image, names) ← references tree entry
  let self := (parse image).outline.className.or entry.className?
  return JarAudit.missing names session.provided system self

end JarAudit.Session
