import JarAudit.ClassFile.Summary
import JarAudit.Decimal.Layout
import JarAudit.Json

/-!
# The report of a class

A summary as JSON. Floating-point numbers keep their point, and very large and very small ones are
written with an exponent; JSON has no words for an infinity and for what is no number, so these are
null.
-/

namespace JarAudit.ClassFile.Report

/-- Numbers of 32 bits: a tie goes to the even digit, and from 0.000001 to below 10 to the power 13
there is no exponent. -/
def numbers32 : Decimal.Layout := ⟨.toEven, some (-6), some 12, true⟩

/-- Numbers of 64 bits: a tie goes to the even digit, and from 0.00001 to below 10 to the power 16
there is no exponent. -/
def numbers64 : Decimal.Layout := ⟨.toEven, some (-5), some 15, true⟩

/-- A floating-point number in a report. -/
def number (layout : Decimal.Layout) (value : Decimal.Binary) : Json :=
  match layout.write? value with
  | some text => .number text
  | none => .null

/-- A member in a report. -/
def ofMember (member : MemberSummary) : Json :=
  .object [("name", .ofOption .string member.name),
    ("descriptor", .ofOption .string member.descriptor),
    ("access_flags", .nat member.accessFlags.toNat), ("access", .string member.access)]

/-- A summary in a report. -/
def ofSummary (summary : Summary) : Json :=
  .object [("valid", .bool summary.valid),
    ("class_name", .ofOption .string summary.className),
    ("parent_name", .ofOption .string summary.parentName),
    ("access_flags", .nat summary.accessFlags.toNat),
    ("access", .string summary.access),
    ("major_version", .nat summary.majorVersion.toNat),
    ("minor_version", .nat summary.minorVersion.toNat),
    ("platform_version", .int summary.platformVersion),
    ("interfaces", .strings summary.interfaces),
    ("fields", .array (summary.fields.map ofMember)),
    ("methods", .array (summary.methods.map ofMember)),
    ("integers", .array (summary.integers.map fun value => .int value.toInt)),
    ("floats", .array (summary.floats.map fun bits => number numbers32 (.ofBits32 bits))),
    ("longs", .array (summary.longs.map fun value => .int value.toInt)),
    ("doubles", .array (summary.doubles.map fun bits => number numbers64 (.ofBits64 bits))),
    ("classes", .strings summary.classes),
    ("strings", .strings summary.strings),
    ("field_refs", .strings summary.fieldRefs),
    ("method_refs", .strings summary.methodRefs),
    ("interface_method_refs", .strings summary.interfaceMethodRefs)]

end JarAudit.ClassFile.Report
