import Treewalk.Numeral.Magnitude

/-!
# The shortest decimal of a double

The reals that round to a double form an interval, from halfway to its lower
neighbour to halfway to its upper one, ends included when the significand is
even.  The shortest decimal of a double is a point of the coarsest decimal
grid that meets this interval; on that grid the nearest point is taken, and
`Tie` decides between two points at one distance.

All comparisons are made between natural numbers, in quarters of the least
positive double, so nothing is rounded on the way.
-/

namespace Treewalk.Numeral

/-- The number `digits * 10 ^ exponent`. -/
structure Decimal where
  digits : Nat
  exponent : Int
deriving DecidableEq, Repr

/-- Which of two equally near decimals is taken. -/
inductive Tie where
  | up
  | toEven
deriving DecidableEq, Repr

namespace Decimal

/-- Compare a decimal with a number of quarters of the least positive double. -/
def compareQuarters (decimal : Decimal) (quarters : Nat) : Ordering :=
  compare (decimal.digits * Nat.pow 10 decimal.exponent.toNat * (4 * unitsPerOne))
    (quarters * Nat.pow 10 (-decimal.exponent).toNat)

/-- Move the trailing zeros of the digits into the exponent. -/
def trimZeros : Nat → Decimal → Decimal
  | 0, decimal => decimal
  | fuel + 1, decimal =>
    if decimal.digits ≠ 0 ∧ decimal.digits % 10 = 0 then
      trimZeros fuel ⟨decimal.digits / 10, decimal.exponent + 1⟩
    else
      decimal

end Decimal

/-- The reals that round to one double, in quarters of the least positive one. -/
structure RoundingInterval where
  lower : Nat
  upper : Nat
  /-- The ends belong to the interval. -/
  closed : Bool
deriving DecidableEq, Repr

/-- The decimal lies in the interval. -/
def RoundingInterval.contains (interval : RoundingInterval) (decimal : Decimal) : Bool :=
  let fromLower := decimal.compareQuarters interval.lower
  let fromUpper := decimal.compareQuarters interval.upper
  if interval.closed then
    fromLower != .lt && fromUpper != .gt
  else
    fromLower == .gt && fromUpper == .lt

namespace Magnitude

/-- The reals that round to the magnitude. -/
def interval (magnitude : Magnitude) : RoundingInterval :=
  let gap := Nat.pow 2 magnitude.shift
  let centre := 4 * magnitude.units
  { lower := centre - (if magnitude.narrowBelow then gap else 2 * gap)
    upper := centre + 2 * gap
    closed := magnitude.significand % 2 == 0 }

/--
How often one has to multiply by ten until `amount` reaches `target`, looked
for up to a bound.
-/
def tensToReach (target : Nat) : Nat → Nat → Nat
  | 0, _ => 0
  | bound + 1, amount =>
    if target ≤ amount then 0 else tensToReach target bound (amount * 10) + 1

/-- The decimal exponent of the leading digit of a positive magnitude. -/
def leadingExponent (magnitude : Magnitude) : Int :=
  if unitsPerOne ≤ magnitude.units then
    tensToReach (magnitude.whole + 1) 310 1 - 1
  else
    -(tensToReach unitsPerOne 325 magnitude.units : Int)

/--
The nearest point of the grid of multiples of `10 ^ exponent`, among the two
neighbours of the magnitude on it that lie in its interval.
-/
def onGrid (tie : Tie) (magnitude : Magnitude) (interval : RoundingInterval)
    (exponent : Int) : Option Decimal :=
  let amount := magnitude.units * Nat.pow 10 (-exponent).toNat
  let spacing := unitsPerOne * Nat.pow 10 exponent.toNat
  let below := amount / spacing
  let lower : Decimal := ⟨below, exponent⟩
  let upper : Decimal := ⟨below + 1, exponent⟩
  match interval.contains lower, interval.contains upper with
  | false, false => none
  | true, false => some lower
  | false, true => some upper
  | true, true =>
    match compare (2 * (amount % spacing)) spacing, tie with
    | .lt, _ => some lower
    | .gt, _ => some upper
    | .eq, .up => some upper
    | .eq, .toEven => some (if below % 2 = 0 then lower else upper)

/-- The magnitude itself as a decimal. -/
def exactDecimal (magnitude : Magnitude) : Decimal :=
  ⟨magnitude.units * Nat.pow 5 1074, -1074⟩

/--
The shortest decimal that rounds to a positive magnitude.  Seventeen digits
are always enough; the exact value stands behind them so that the answer
rounds to the magnitude in every case.
-/
def shortest (tie : Tie) (magnitude : Magnitude) : Decimal :=
  let leading := magnitude.leadingExponent
  let interval := magnitude.interval
  let found :=
    (List.range 17).findSome? fun (finer : Nat) =>
      magnitude.onGrid tie interval (leading - finer)
  (found.getD magnitude.exactDecimal).trimZeros 1100

end Magnitude

end Treewalk.Numeral
