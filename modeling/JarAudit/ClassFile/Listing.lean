import JarAudit.ClassFile.Summary
import JarAudit.Decimal.Layout

/-!
# The listing of a class

A class as lines of text: three lines of heading, then twelve sections. A section is a title with
its items below, or a line of its own when it has none.
-/

namespace JarAudit.ClassFile

/-- A titled list of items. -/
structure Section where
  title : String
  /-- The line that stands for the section when it has no items. -/
  absent : String
  items : List String
  deriving DecidableEq, Repr

/-- The lines of a section. -/
def Section.lines (part : Section) : List String :=
  if part.items.isEmpty then [part.absent]
  else (part.title ++ ":") :: part.items.map ("  " ++ ·)

namespace Listing

/-- Numbers are listed without exponents, and whole ones without a point; a tie goes up. -/
def numbers : Decimal.Layout := ⟨.up, none, none, false⟩

/-- A floating-point number in a listing. -/
def number (value : Decimal.Binary) : String :=
  match value with
  | .notANumber => "NaN"
  | .infinite negative => if negative then "-inf" else "inf"
  | value => (numbers.write? value).getD ""

/-- What stands for a name that cannot be resolved. -/
def unresolved : String := "<unresolved>"

/-- A member in a listing. -/
def member (summary : MemberSummary) : String :=
  summary.name.getD unresolved ++ " (" ++ summary.access ++ ")"

/-- The sections of a summary. -/
def sections (summary : Summary) : List Section :=
  [⟨"Integers", "No integers were found", summary.integers.map fun value => toString value.toInt⟩,
    ⟨"Floats", "No floats were found",
      summary.floats.map fun bits => number (Decimal.Binary.ofBits32 bits)⟩,
    ⟨"Longs", "No longs were found", summary.longs.map fun value => toString value.toInt⟩,
    ⟨"Doubles", "No doubles were found",
      summary.doubles.map fun bits => number (Decimal.Binary.ofBits64 bits)⟩,
    ⟨"Classes", "No class references were found", summary.classes⟩,
    ⟨"Strings", "No string references were found", summary.strings⟩,
    ⟨"Field data", "Field data not found", summary.fieldRefs⟩,
    ⟨"Method data", "Method data not found", summary.methodRefs⟩,
    ⟨"Interface Method data", "Interface Method data not found", summary.interfaceMethodRefs⟩,
    ⟨"Interfaces", "No interfaces were found", summary.interfaces⟩,
    ⟨"Fields", "No fields were found", summary.fields.map member⟩,
    ⟨"Methods", "No methods were found", summary.methods.map member⟩]

/-- The first line: the class and its parent. A parent that cannot be resolved is listed as the root
class. -/
def headline (summary : Summary) : String :=
  "Class " ++ summary.className.getD unresolved ++ " extending " ++
    summary.parentName.getD Outline.rootClass

end Listing

namespace Outline

/-- The lines of the listing of a class. -/
def listingLines (outline : Outline) : List String :=
  if outline.valid then
    let summary := outline.summary
    [Listing.headline summary,
      s!"Access Flag ({outline.accessFlags.toNat}): {summary.access}",
      s!"Version {outline.versionText}"] ++ (Listing.sections summary).flatMap Section.lines
  else ["Invalid class"]

/-- The listing of a class, every line ended. -/
def listing (outline : Outline) : String :=
  String.join (outline.listingLines.map (· ++ "\n"))

end Outline

end JarAudit.ClassFile
