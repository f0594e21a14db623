/-!
# The shortest decimal that reads back

Around a binary number lies an interval of reals that are nearer to it than to its neighbours; the
ends belong to it when the significand is even, for then a tie is read as this number. Any decimal
in the interval reads back as the number. `shortest` looks at grids of decimals, each ten times
finer than the one before, and takes the nearest decimal of the first grid that meets the interval:
no decimal with fewer digits reads back. On each grid only the two neighbours of the number can be
nearest.
-/

namespace JarAudit.Decimal

/-- What happens to a number midway between two decimals of equal length. -/
inductive Tie where
  /-- The even one of the two is taken. -/
  | toEven
  /-- The greater one of the two is taken. -/
  | up
  deriving DecidableEq, Repr

/-- The number `value` times 10 to the power `exponent`. -/
structure Digits where
  value : Nat
  exponent : Int
  deriving DecidableEq, Repr

/-- A positive number and the interval of what reads back as it, as numerators over one `unit`,
which is the step of a decimal grid. -/
structure OnGrid where
  low : Nat
  value : Nat
  high : Nat
  unit : Nat
  /-- The ends of the interval read back too. -/
  closed : Bool

namespace OnGrid

/-- The interval of `significand` units of 2 to the power `power`, on the grid of 10 to the power
`exponent`. The ends lie midway to the neighbours, so quarters of a unit suffice to state them. -/
def place (significand : Nat) (power : Int) (narrowBelow : Bool) (exponent : Int) : OnGrid :=
  let scale := Nat.pow 2 (power - 2).toNat * Nat.pow 10 (-exponent).toNat
  { low := (4 * significand - if narrowBelow then 1 else 2) * scale
    value := 4 * significand * scale
    high := (4 * significand + 2) * scale
    unit := Nat.pow 2 (2 - power).toNat * Nat.pow 10 exponent.toNat
    closed := significand % 2 == 0 }

/-- A decimal of the grid reads back. -/
def contains (grid : OnGrid) (digits : Nat) : Bool :=
  let point := digits * grid.unit
  if grid.closed then grid.low ≤ point && point ≤ grid.high
  else grid.low < point && point < grid.high

/-- The decimal of the grid that is nearest to the number, if one reads back. -/
def nearest? (grid : OnGrid) (tie : Tie) : Option Nat :=
  let below := grid.value / grid.unit
  let above := below + 1
  match grid.contains below, grid.contains above with
  | false, false => none
  | true, false => some below
  | false, true => some above
  | true, true =>
    let toBelow := grid.value - below * grid.unit
    let toAbove := above * grid.unit - grid.value
    if toBelow < toAbove then some below
    else if toAbove < toBelow then some above
    else match tie with
      | .up => some above
      | .toEven => some (if below % 2 = 0 then below else above)

end OnGrid

/-- Tries the grids from 10 to the power `exponent` downwards, so many of them. -/
def firstHit (grid : Int → OnGrid) (tie : Tie) : (grids : Nat) → (exponent : Int) → Digits
  | 0, exponent => ⟨0, exponent⟩
  | grids + 1, exponent =>
    match (grid exponent).nearest? tie with
    | some digits => ⟨digits, exponent⟩
    | none => firstHit grid tie grids (exponent - 1)

/-- The shortest decimal that reads back as `significand` units of 2 to the power `power`. The first
grid is too coarse for any number below 2 to the power of its number of bits, for 30103 hundred-
thousandths is above the logarithm of two; twenty grids further, even a number of 53 bits is met. -/
def shortest (tie : Tie) (significand : Nat) (power : Int) (narrowBelow : Bool) : Digits :=
  let bits : Int := Nat.log2 significand + 1 + power
  firstHit (OnGrid.place significand power narrowBelow) tie 24 (bits * 30103 / 100000 + 2)

end JarAudit.Decimal
