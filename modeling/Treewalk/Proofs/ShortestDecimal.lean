import Treewalk.Proofs.NearestDouble

/-!
# The shortest decimal rounds back

A decimal is a quotient of naturals, so it can be rounded to a double.  The
shortest decimal of a double is a point of a grid in its rounding interval, or
the double itself where seventeen digits should not be enough; so it is rounded
to the double it was made from.
-/

namespace Treewalk.Numeral

/-! ## Decimals as quotients -/

namespace Decimal

/-- The decimal is its numerator over its denominator. -/
def num (decimal : Decimal) : Nat :=
  decimal.digits * 10 ^ decimal.exponent.toNat

/-- The power of ten that a negative exponent stands for. -/
def den (decimal : Decimal) : Nat :=
  10 ^ (-decimal.exponent).toNat

theorem den_pos (decimal : Decimal) : 0 < decimal.den :=
  Nat.pow_pos (by decide)

theorem num_ne_zero_iff (decimal : Decimal) : decimal.num ≠ 0 ↔ decimal.digits ≠ 0 := by
  have power : 10 ^ decimal.exponent.toNat ≠ 0 :=
    Nat.pos_iff_ne_zero.mp (Nat.pow_pos (by decide))
  rw [num, Nat.mul_ne_zero_iff]
  exact and_iff_left power

theorem compareQuarters_eq (decimal : Decimal) (quarters : Nat) :
    decimal.compareQuarters quarters =
      compare (4 * (decimal.num * unitsPerOne)) (quarters * decimal.den) := by
  rw [Nat.mul_left_comm]
  rfl

/-- A trailing zero of the digits can be moved into the exponent. -/
theorem cross_trim (digits : Nat) (exponent : Int) :
    num ⟨10 * digits, exponent⟩ * den ⟨digits, exponent + 1⟩ =
      num ⟨digits, exponent + 1⟩ * den ⟨10 * digits, exponent⟩ := by
  simp only [num, den]
  by_cases negative : exponent < 0
  · obtain ⟨places, rfl⟩ : ∃ places : Nat, exponent = -(places + 1 : Int) :=
      ⟨(-exponent - 1).toNat, by omega⟩
    rw [show (-(places + 1 : Int)).toNat = 0 by omega,
      show (-(places + 1 : Int) + 1).toNat = 0 by omega,
      show (-(-(places + 1 : Int) + 1)).toNat = places by omega,
      show (- -(places + 1 : Int)).toNat = places + 1 by omega]
    ring
  · rw [show (-exponent).toNat = 0 by omega, show (-(exponent + 1)).toNat = 0 by omega,
      show (exponent + 1).toNat = exponent.toNat + 1 by omega]
    ring

end Decimal

variable {interval : RoundingInterval} {decimal : Decimal}

namespace RoundingInterval

/-- An interval contains the decimals it spans. -/
theorem contains_iff :
    interval.contains decimal = true ↔ interval.Spans decimal.num decimal.den := by
  simp only [contains, Decimal.compareQuarters_eq]
  cases closed : interval.closed with
  | true =>
    simp only [if_true, Bool.and_eq_true, bne_iff_ne, Nat.compare_ne_lt, Nat.compare_ne_gt]
    constructor
    · rintro ⟨lower, upper⟩
      exact ⟨lower, upper, fun opened => absurd (closed.symm.trans opened) (by decide)⟩
    · intro spans
      exact ⟨spans.lower, spans.upper⟩
  | false =>
    simp only [Bool.false_eq_true, if_false, Bool.and_eq_true, beq_iff_eq, Nat.compare_eq_gt,
      Nat.compare_eq_lt]
    constructor
    · rintro ⟨lower, upper⟩
      exact ⟨Nat.le_of_lt lower, Nat.le_of_lt upper,
        fun _ => ⟨Nat.ne_of_lt lower, Nat.ne_of_lt upper⟩⟩
    · intro spans
      have ends := spans.inside closed
      exact ⟨Nat.lt_of_le_of_ne spans.lower ends.1, Nat.lt_of_le_of_ne spans.upper ends.2⟩

/-- Equal quotients lie in the same intervals. -/
theorem Spans.congr {num den num' den' : Nat} (spans : interval.Spans num den)
    (positive : 0 < den) (positive' : 0 < den') (same : num * den' = num' * den) :
    interval.Spans num' den' := by
  have scaled : 4 * (num' * unitsPerOne) * den = 4 * (num * unitsPerOne) * den' := by
    calc 4 * (num' * unitsPerOne) * den
        = 4 * unitsPerOne * (num' * den) := by ring
      _ = 4 * unitsPerOne * (num * den') := by rw [same]
      _ = 4 * (num * unitsPerOne) * den' := by ring
  have swap (bound : Nat) : bound * den' * den = bound * den * den' := Nat.mul_right_comm _ _ _
  constructor
  · apply Nat.le_of_mul_le_mul_right _ positive
    rw [scaled, swap]
    exact Nat.mul_le_mul_right _ spans.lower
  · apply Nat.le_of_mul_le_mul_right _ positive
    rw [scaled, swap]
    exact Nat.mul_le_mul_right _ spans.upper
  · intro opened
    rcases spans.inside opened with ⟨lower, upper⟩
    refine ⟨fun equal => lower ?_, fun equal => upper ?_⟩
    · apply Nat.eq_of_mul_eq_mul_right positive'
      rw [← scaled, ← swap, equal]
    · apply Nat.eq_of_mul_eq_mul_right positive'
      rw [← scaled, ← swap, equal]

/-- Taking away trailing zeros keeps the value. -/
theorem Spans.trimZeros {decimal : Decimal}
    (spans : interval.Spans decimal.num decimal.den) (fuel : Nat) :
    interval.Spans (decimal.trimZeros fuel).num (decimal.trimZeros fuel).den := by
  induction fuel generalizing decimal with
  | zero => exact spans
  | succ fuel ih =>
    rw [Decimal.trimZeros]
    split
    · next trailing =>
      apply ih
      apply spans.congr (Decimal.den_pos _) (Decimal.den_pos _)
      have whole : 10 * (decimal.digits / 10) = decimal.digits :=
        Nat.mul_div_cancel' (Nat.dvd_of_mod_eq_zero trailing.2)
      have moved := Decimal.cross_trim (decimal.digits / 10) decimal.exponent
      rw [whole] at moved
      exact moved
    · exact spans

end RoundingInterval

/-! ## Shortest decimals -/

namespace Magnitude

variable {magnitude : Magnitude}

/-- What is taken from a grid lies in the interval. -/
theorem contains_of_onGrid {tie : Tie} {exponent : Int}
    (found : magnitude.onGrid tie interval exponent = some decimal) :
    interval.contains decimal = true := by
  unfold onGrid at found
  simp only at found
  split at found
  · cases found
  · next lower _ =>
    cases found
    exact lower
  · next _ upper =>
    cases found
    exact upper
  · next lower upper =>
    split at found
    · cases found
      exact lower
    · cases found
      exact upper
    · cases found
      exact upper
    · split at found
      · cases found
        exact lower
      · cases found
        exact upper

theorem lower_lt_units (nonzero : magnitude.units ≠ 0) :
    magnitude.interval.lower < 4 * magnitude.units := by
  have gap : 0 < Nat.pow 2 magnitude.shift := Nat.two_pow_pos _
  simp only [interval]
  split <;> omega

theorem units_lt_upper (magnitude : Magnitude) :
    4 * magnitude.units < magnitude.interval.upper := by
  have gap : 0 < Nat.pow 2 magnitude.shift := Nat.two_pow_pos _
  simp only [interval]
  omega

/-- A quotient that is the magnitude itself lies in its interval. -/
theorem spans_of_eq {num den : Nat} (nonzero : magnitude.units ≠ 0) (positive : 0 < den)
    (same : num * unitsPerOne = magnitude.units * den) :
    magnitude.interval.Spans num den := by
  have below := Nat.mul_lt_mul_of_pos_right (lower_lt_units nonzero) positive
  have above := Nat.mul_lt_mul_of_pos_right magnitude.units_lt_upper positive
  rw [Nat.mul_assoc, ← same] at below above
  exact ⟨Nat.le_of_lt below, Nat.le_of_lt above, fun _ => ⟨Nat.ne_of_lt below, Nat.ne_of_lt above⟩⟩

/-- A double lies in its own interval. -/
theorem spans_exactDecimal (nonzero : magnitude.units ≠ 0) :
    magnitude.interval.Spans magnitude.exactDecimal.num magnitude.exactDecimal.den := by
  apply spans_of_eq nonzero (Decimal.den_pos _)
  have same (units places : Nat) :
      units * 5 ^ places * 10 ^ 0 * 2 ^ places = units * 10 ^ places := by
    rw [show 10 ^ places = 5 ^ places * 2 ^ places from Nat.mul_pow 5 2 places]
    ring
  exact same magnitude.units 1074

/-- The shortest decimal lies in the interval of the magnitude. -/
theorem spans_shortest (tie : Tie) (nonzero : magnitude.units ≠ 0) :
    magnitude.interval.Spans (magnitude.shortest tie).num (magnitude.shortest tie).den := by
  unfold shortest
  apply RoundingInterval.Spans.trimZeros
  cases found : (List.range 17).findSome? fun (finer : Nat) =>
      magnitude.onGrid tie magnitude.interval (magnitude.leadingExponent - finer) with
  | none => exact spans_exactDecimal nonzero
  | some decimal =>
    rcases List.exists_of_findSome?_eq_some found with ⟨finer, _, onGrid⟩
    exact RoundingInterval.contains_iff.mp (contains_of_onGrid onGrid)

theorem lower_pos (nonzero : magnitude.units ≠ 0) : 0 < magnitude.interval.lower := by
  have gap : 0 < Nat.pow 2 magnitude.shift := Nat.two_pow_pos _
  have least : Nat.pow 2 magnitude.shift ≤ magnitude.units := by
    apply Nat.le_mul_of_pos_left
    apply Nat.pos_of_ne_zero
    intro nothing
    rw [units, nothing, Nat.zero_mul] at nonzero
    exact nonzero rfl
  simp only [interval]
  split <;> omega

/-- Only zero has the shortest decimal zero. -/
theorem digits_shortest_ne_zero (tie : Tie) (nonzero : magnitude.units ≠ 0) :
    (magnitude.shortest tie).digits ≠ 0 := by
  have lower := (spans_shortest tie nonzero).lower
  have positive := Nat.mul_pos (lower_pos nonzero) (magnitude.shortest tie).den_pos
  rw [← Decimal.num_ne_zero_iff]
  intro nothing
  rw [nothing, Nat.zero_mul] at lower
  omega

end Magnitude

end Treewalk.Numeral
