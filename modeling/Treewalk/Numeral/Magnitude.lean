/-!
# Magnitudes of doubles

Every finite double is a whole number of copies of the least positive one,
`2 ^ -1074`.  A `Magnitude` keeps that number as a significand and a binary
shift, so questions about a double become questions about natural numbers.

The bits of a double are `shift * 2 ^ 52 + significand`, both for full and for
short significands: a significand that rounds up past its last bit carries
into the shift by ordinary addition.  `nearestBits` uses this to round any
quotient of naturals to the nearest double, ties to an even significand.
-/

namespace Treewalk.Numeral

/-- The least positive double is `1 / unitsPerOne`. -/
def unitsPerOne : Nat := Nat.pow 2 1074

/-- The weight of the leading bit of a full significand. -/
def leadingBit : Nat := Nat.pow 2 52

/-- The bits of positive infinity; all finite doubles without sign lie below. -/
def infinityBits : Nat := 2047 * leadingBit

/-- A finite double without its sign: `significand * 2 ^ shift` units. -/
structure Magnitude where
  significand : Nat
  shift : Nat
deriving DecidableEq, Repr

namespace Magnitude

/-- How many least positive doubles the magnitude amounts to. -/
def units (magnitude : Magnitude) : Nat :=
  magnitude.significand * Nat.pow 2 magnitude.shift

/-- The magnitude that an exponent and a fraction field describe. -/
def ofBits (bits : Nat) : Magnitude :=
  if bits / leadingBit = 0 then
    ⟨bits % leadingBit, 0⟩
  else
    ⟨leadingBit + bits % leadingBit, bits / leadingBit - 1⟩

/-- The exponent and fraction fields of a magnitude. -/
def toBits (magnitude : Magnitude) : Nat :=
  magnitude.shift * leadingBit + magnitude.significand

/-- The parts of a double give its bits back. -/
@[simp]
theorem toBits_ofBits (bits : Nat) : (ofBits bits).toBits = bits := by
  have parts := Nat.div_add_mod bits leadingBit
  unfold ofBits toBits
  split
  · rename_i noExponent
    rw [noExponent] at parts
    simpa using parts
  · rename_i exponent
    obtain ⟨lower, equality⟩ := Nat.exists_eq_succ_of_ne_zero exponent
    rw [equality, Nat.mul_comm, Nat.succ_mul] at parts
    simp only [equality, Nat.succ_eq_add_one, Nat.add_sub_cancel]
    omega

/--
A power of two has its lower neighbour at half the distance of its upper one,
unless the two share the least spacing.
-/
def narrowBelow (magnitude : Magnitude) : Bool :=
  magnitude.significand == leadingBit && magnitude.shift != 0

/-- The magnitude is a whole number. -/
def integral (magnitude : Magnitude) : Bool :=
  magnitude.units % unitsPerOne == 0

/-- The whole part of the magnitude. -/
def whole (magnitude : Magnitude) : Nat :=
  magnitude.units / unitsPerOne

end Magnitude

/-- What the bits of a double stand for. -/
inductive Parts where
  | notANumber
  | infinite (negative : Bool)
  | finite (negative : Bool) (magnitude : Magnitude)
deriving DecidableEq, Repr

/-- Take a double apart. -/
def parts (number : Float) : Parts :=
  let bits := number.toBits.toNat
  let negative := decide (Nat.pow 2 63 ≤ bits)
  let unsigned := bits % Nat.pow 2 63
  if unsigned < infinityBits then
    .finite negative (Magnitude.ofBits unsigned)
  else if unsigned = infinityBits then
    .infinite negative
  else
    .notANumber

/-- The quotient of two naturals rounded to a whole number, ties to even. -/
def roundQuotient (numerator denominator : Nat) : Nat :=
  let quotient := numerator / denominator
  let remainder := numerator % denominator
  if 2 * remainder < denominator then
    quotient
  else if denominator < 2 * remainder then
    quotient + 1
  else
    quotient + quotient % 2

/--
The bits of the double nearest to a non-negative quotient; what is too large
becomes infinity.
-/
def nearestBits (numerator denominator : Nat) : Nat :=
  let scaled := numerator * unitsPerOne
  let shift := (scaled / denominator).log2 - 52
  let significand := roundQuotient scaled (denominator * Nat.pow 2 shift)
  min (shift * leadingBit + significand) infinityBits

/-- The double nearest to `digits / 10 ^ places`. -/
def ofDecimal (digits places : Nat) : Float :=
  Float.ofBits (UInt64.ofNat (nearestBits digits (Nat.pow 10 places)))

end Treewalk.Numeral
