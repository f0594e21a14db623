/-!
# Binary floating-point numbers

A bit pattern is a sign, an exponent and a fraction. What it stands for is not a number, an
infinity, or a whole number of units, where the unit is a power of two.
-/

namespace JarAudit.Decimal

/-- What a bit pattern stands for. -/
inductive Binary where
  | notANumber
  | infinite (negative : Bool)
  /-- `significand` units of 2 to the power `unit`. The next lower number is only half as far away
  as the next higher one when `narrowBelow`. -/
  | finite (negative : Bool) (significand : Nat) (unit : Int) (narrowBelow : Bool)
  deriving DecidableEq, Repr

namespace Binary

/-- Splits a bit pattern with so many bits of fraction and of exponent. The significand has one bit
more than the fraction, except for the smallest numbers. -/
def ofBits (fractionBits exponentBits bits : Nat) : Binary :=
  let hidden := Nat.pow 2 fractionBits
  let fraction := bits % hidden
  let exponent := bits / hidden % Nat.pow 2 exponentBits
  let negative := bits / hidden / Nat.pow 2 exponentBits % 2 == 1
  let lowestUnit : Int := 2 - Nat.pow 2 (exponentBits - 1) - fractionBits
  if exponent + 1 = Nat.pow 2 exponentBits then
    if fraction = 0 then infinite negative else notANumber
  else if exponent = 0 then finite negative fraction lowestUnit false
  else
    finite negative (hidden + fraction) (lowestUnit + exponent - 1)
      (fraction == 0 && exponent != 1)

/-- The number of a pattern of 32 bits. -/
def ofBits32 (bits : UInt32) : Binary := ofBits 23 8 bits.toNat

/-- The number of a pattern of 64 bits. -/
def ofBits64 (bits : UInt64) : Binary := ofBits 52 11 bits.toNat

end Binary

end JarAudit.Decimal
