import JarAudit.Text.Blank
import JarAudit.Text.Pieces

/-!
# Manifests

The manifest of an archive is a text of attributes, one a line: a key, a colon and a value. A line
that starts with a space continues the value before it. The main section ends at the first empty
line, and nothing behind it counts. Keys are compared without regard to the case of ASCII letters.
-/

namespace JarAudit

open JarAudit.Text

/-- The attributes of a main section, in order. -/
structure Manifest where
  attributes : List (String × String) := []
  deriving DecidableEq, Repr

namespace Manifest

/-- The record of an archive that holds its manifest. -/
def recordName : String := "META-INF/MANIFEST.MF"

/-! ### Attributes -/

/-- Cuts a line at its first colon into a key without blanks around it and a value without blanks
before it. -/
def attribute? (line : List Char) : Option (List Char × List Char) :=
  (splitAtFirst ':' line).map fun (key, value) => (trim key, trimStart value)

/-- Reads lines behind the attributes already `read`, which are held in reverse, as are their
values: an empty line ends the section, a space continues the last value if there is one, and a line
without colon is passed over. -/
def readLines (read : List (List Char × List Char)) :
    List (List Char) → List (List Char × List Char)
  | [] => read.reverse
  | [] :: _ => read.reverse
  | (' ' :: more) :: rest =>
    match read with
    | [] => readLines [] rest
    | (key, value) :: others => readLines ((key, more.reverse ++ value) :: others) rest
  | line :: rest =>
    match attribute? line with
    | some (key, value) => readLines ((key, value.reverse) :: read) rest
    | none => readLines read rest

/-- Reads the main section of a manifest. A second carriage return at the end of a line is dropped
with the line ending. -/
def parse (text : String) : Manifest :=
  ⟨(readLines [] ((lines text.toList).map dropReturn)).map fun (key, value) =>
    (String.ofList key, String.ofList value.reverse)⟩

/-! ### Look-up -/

/-- Two keys are the same but for the case of ASCII letters. -/
def sameKey (a b : String) : Bool := a.toList.map Char.toLower == b.toList.map Char.toLower

/-- The value of the first attribute with a key. -/
def get? (manifest : Manifest) (key : String) : Option String :=
  (manifest.attributes.find? fun (own, _) => sameKey own key).map (·.2)

/-- The class to start with. -/
def mainClass? (manifest : Manifest) : Option String := manifest.get? "Main-Class"

/-- The archives that belong to the archive, as paths relative to it. -/
def classPath (manifest : Manifest) : List String :=
  match manifest.get? "Class-Path" with
  | some value => (words value.toList).map String.ofList
  | none => []

end Manifest

end JarAudit
