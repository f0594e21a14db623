import JarAudit.Decimal.Binary
import JarAudit.Decimal.Shortest

/-!
# Layouts of decimals

How a floating-point number is written: its shortest digits, either with the point in its place or
with an exponent. A `Layout` fixes which of the two is used and the details of both.
-/

namespace JarAudit.Decimal

/-- The decisions of a way to write numbers. -/
structure Layout where
  tie : Tie
  /-- The lowest exponent of the leading digit that is written without an exponent, if there is one.
  -/
  plainFrom : Option Int
  /-- The highest such exponent, if there is one. -/
  plainTo : Option Int
  /-- A whole number written without an exponent ends in `.0`. -/
  wholeWithPoint : Bool

namespace Layout

/-- Writes digits with the point in its place. -/
def plain (layout : Layout) (digits : List Char) (exponent : Int) : List Char :=
  if 0 ≤ exponent then
    digits ++ List.replicate exponent.toNat '0' ++
      (if layout.wholeWithPoint then ['.', '0'] else [])
  else
    let places := (-exponent).toNat
    if places < digits.length then
      digits.take (digits.length - places) ++ '.' :: digits.drop (digits.length - places)
    else '0' :: '.' :: List.replicate (places - digits.length) '0' ++ digits

/-- Writes digits with the point behind the first one and the exponent of that one, signed. -/
def withExponent (digits : List Char) (leading : Int) : List Char :=
  let fraction := digits.drop 1
  digits.take 1 ++ (if fraction.isEmpty then [] else '.' :: fraction) ++
    ['e', if leading < 0 then '-' else '+'] ++ Nat.toDigits 10 leading.natAbs

/-- Writes a number without its sign. -/
def magnitude (layout : Layout) (significand : Nat) (unit : Int) (narrowBelow : Bool) :
    List Char :=
  if significand = 0 then layout.plain ['0'] 0
  else
    let decimal := shortest layout.tie significand unit narrowBelow
    let digits := Nat.toDigits 10 decimal.value
    let leading := decimal.exponent + digits.length - 1
    if layout.plainFrom.all (· ≤ leading) && layout.plainTo.all (leading ≤ ·) then
      layout.plain digits decimal.exponent
    else withExponent digits leading

/-- Writes a number; an infinity and what is no number have no digits. -/
def write? (layout : Layout) : Binary → Option String
  | .finite negative significand unit narrowBelow =>
    some (String.ofList ((if negative then ['-'] else []) ++
      layout.magnitude significand unit narrowBelow))
  | .infinite _ | .notANumber => none

end Layout

end JarAudit.Decimal
