/-!
# Numerals

Hexadecimal text in lower case, filled up with zeros to a width.
-/

namespace JarAudit.Text.Numeral

/-- The lower-case digits of `value` in base 16, at least `width` of them. -/
def hex (width value : Nat) : String :=
  let digits := Nat.toDigits 16 value
  String.ofList (List.replicate (width - digits.length) '0' ++ digits)

end JarAudit.Text.Numeral
