import Mathlib.Tactic.Linarith
import Mathlib.Tactic.Ring
import Treewalk.Numeral.Shortest

/-!
# The nearest double

A quotient of naturals is rounded to a double in two steps.  Its size decides
about the shift, and on the grid of that shift it is rounded to a whole number.
The grids meet at powers of two, where a significand that is rounded up past
its last bit gives the power all the same.
-/

namespace Treewalk.Numeral

variable {num den shift : Nat}

/-! ## Rounding to a whole number -/

/-- The whole number nearest to a quotient; in the middle of two it is even. -/
structure Rounds (num den result : Nat) : Prop where
  lower : 2 * (result * den) ≤ 2 * num + den
  upper : 2 * num ≤ 2 * (result * den) + den
  lower_even : 2 * (result * den) = 2 * num + den → result % 2 = 0
  upper_even : 2 * num = 2 * (result * den) + den → result % 2 = 0

/-- Quotients are rounded to nearest. -/
theorem rounds_roundQuotient (num : Nat) (positive : 0 < den) :
    Rounds num den (roundQuotient num den) := by
  have whole := Nat.div_add_mod' num den
  have less := Nat.mod_lt num positive
  unfold roundQuotient
  generalize num / den = quotient at *
  generalize num % den = remainder at *
  have next : (quotient + 1) * den = quotient * den + den := Nat.succ_mul _ _
  simp only
  split
  · constructor <;> omega
  · split
    · constructor <;> omega
    · rcases Nat.mod_two_eq_zero_or_one quotient with even | odd
      · rw [even, Nat.add_zero]
        constructor <;> omega
      · rw [odd]
        constructor <;> omega

variable {result : Nat}

theorem Rounds.le {other : Nat} (rounds : Rounds num den result) (rounds' : Rounds num den other)
    (positive : 0 < den) : result ≤ other := by
  by_contra beyond
  have lower := rounds.lower
  have upper := rounds'.upper
  have apart := Nat.mul_le_mul_right den (Nat.lt_of_not_le beyond)
  rw [Nat.succ_mul] at apart
  -- Neighbours that are equally near would both have to be even.
  have neighbours : result = other + 1 := by
    apply Nat.eq_of_mul_eq_mul_right positive
    rw [Nat.succ_mul]
    omega
  have even := rounds.lower_even (by omega)
  have even' := rounds'.upper_even (by omega)
  omega

/-- There is one way to round. -/
theorem roundQuotient_eq (positive : 0 < den) (rounds : Rounds num den result) :
    roundQuotient num den = result := by
  have rounded := rounds_roundQuotient num positive
  exact Nat.le_antisymm (rounded.le rounds positive) (rounds.le rounded positive)

/-! ## The shift of a quotient -/

theorem leadingBit_pos : 0 < leadingBit := by
  decide +kernel

theorem leadingBit_mul_pow (shift : Nat) : leadingBit * 2 ^ shift = 2 ^ (52 + shift) := by
  rw [Nat.pow_add]
  rfl

/--
The significand of an amount over a denominator, both in the least positive
double, has its leading bit in place after so many shifts.  Without a shift it
may be shorter.
-/
structure Scale (amount den shift : Nat) : Prop where
  full : shift = 0 ∨ leadingBit * 2 ^ shift * den ≤ amount
  bounded : amount < 2 * leadingBit * 2 ^ shift * den

/-- The size of an amount gives its shift. -/
theorem Scale.shift_eq {amount : Nat} (scale : Scale amount den shift) (positive : 0 < den) :
    (amount / den).log2 - 52 = shift := by
  have bounded : amount / den < 2 ^ (52 + shift + 1) := by
    rw [Nat.div_lt_iff_lt_mul positive, Nat.pow_succ, ← leadingBit_mul_pow, Nat.mul_comm _ 2,
      ← Nat.mul_assoc]
    exact scale.bounded
  rcases scale.full with rfl | full
  · by_cases nothing : amount / den = 0
    · rw [nothing]
      rfl
    · have small := (Nat.log2_lt nothing).mpr bounded
      omega
  · have reached : 2 ^ (52 + shift) ≤ amount / den := by
      rw [Nat.le_div_iff_mul_le positive, ← leadingBit_mul_pow]
      exact full
    have something : amount / den ≠ 0 := by
      have power : 0 < 2 ^ (52 + shift) := Nat.two_pow_pos _
      omega
    have exponent := (Nat.log2_eq_iff something).mpr ⟨reached, bounded⟩
    omega

/-- On the grid of the shift, the bits are those of the rounded amount. -/
theorem nearestBits_of_scale (scale : Scale (num * unitsPerOne) den shift) (positive : 0 < den)
    (rounds : Rounds (num * unitsPerOne) (den * 2 ^ shift) result) :
    nearestBits num den = min (shift * leadingBit + result) infinityBits := by
  have spacing : 0 < den * 2 ^ shift := Nat.mul_pos positive (Nat.two_pow_pos shift)
  simp [nearestBits, scale.shift_eq positive, roundQuotient_eq spacing rounds]

/-! ## Rounding intervals -/

/-- A quotient of naturals lies in the interval. -/
structure RoundingInterval.Spans (interval : RoundingInterval) (num den : Nat) : Prop where
  lower : interval.lower * den ≤ 4 * (num * unitsPerOne)
  upper : 4 * (num * unitsPerOne) ≤ interval.upper * den
  inside : interval.closed = false → interval.lower * den ≠ 4 * (num * unitsPerOne) ∧
    4 * (num * unitsPerOne) ≠ interval.upper * den

namespace Magnitude

/-- Only doubles without a shift have a short significand. -/
theorem ofBits_significand (bits : Nat) : (ofBits bits).significand < 2 * leadingBit ∧
    ((ofBits bits).shift = 0 ∨ leadingBit ≤ (ofBits bits).significand) := by
  have less := Nat.mod_lt bits leadingBit_pos
  unfold ofBits
  split
  · exact ⟨by simp only; omega, .inl rfl⟩
  · exact ⟨by simp only; omega, .inr (Nat.le_add_right _ _)⟩

variable {magnitude : Magnitude}

theorem lower_mul (magnitude : Magnitude) (den : Nat) :
    magnitude.interval.lower * den =
      4 * (magnitude.significand * (den * 2 ^ magnitude.shift)) -
        (if magnitude.narrowBelow then 1 else 2) * (den * 2 ^ magnitude.shift) := by
  have centre : 4 * (magnitude.significand * 2 ^ magnitude.shift) * den =
      4 * (magnitude.significand * (den * 2 ^ magnitude.shift)) := by ring
  cases narrow : magnitude.narrowBelow with
  | true =>
    simp only [interval, units, narrow, Nat.pow_eq, if_true, Nat.sub_mul, centre]
    rw [Nat.mul_comm den, Nat.one_mul]
  | false =>
    simp only [interval, units, narrow, Nat.pow_eq, Bool.false_eq_true, if_false, Nat.sub_mul,
      centre]
    rw [Nat.mul_comm den, Nat.mul_assoc 2]

theorem upper_mul (magnitude : Magnitude) (den : Nat) :
    magnitude.interval.upper * den =
      4 * (magnitude.significand * (den * 2 ^ magnitude.shift)) +
        2 * (den * 2 ^ magnitude.shift) := by
  simp only [interval, units, Nat.pow_eq]
  ring

/-- The interval of an odd significand reaches equally far on both sides, without its ends. -/
theorem interval_of_odd (odd : magnitude.significand % 2 ≠ 0) :
    magnitude.narrowBelow = false ∧ magnitude.interval.closed = false := by
  have differ : magnitude.significand ≠ leadingBit := by
    intro leading
    rw [leading] at odd
    exact odd rfl
  simp [narrowBelow, interval, differ, odd]

/-- On the grid of its shift a quotient of the interval is rounded to the significand. -/
theorem rounds_of_spans (spans : magnitude.interval.Spans num den) :
    Rounds (num * unitsPerOne) (den * 2 ^ magnitude.shift) magnitude.significand := by
  rcases spans with ⟨lower, upper, inside⟩
  rw [magnitude.lower_mul] at lower inside
  rw [magnitude.upper_mul] at upper inside
  constructor
  · split at lower <;> omega
  · omega
  · intro tie
    by_contra odd
    rcases interval_of_odd odd with ⟨wide, without⟩
    have ends := (inside without).1
    rw [wide, if_neg (by decide)] at ends
    omega
  · intro tie
    by_contra odd
    have ends := (inside (interval_of_odd odd).2).2
    omega

/-- Below a power of two the interval ends a quarter of a gap away from it. -/
theorem quarter_of_spans (spans : magnitude.interval.Spans num den)
    (narrow : magnitude.narrowBelow = true) :
    4 * (magnitude.significand * (den * 2 ^ magnitude.shift)) ≤
      4 * (num * unitsPerOne) + den * 2 ^ magnitude.shift := by
  have lower := spans.lower
  rw [magnitude.lower_mul, narrow, if_pos rfl] at lower
  omega

/-- The intervals of two doubles lie one after the other. -/
theorem upper_le_lower {bits bits' : Nat} (less : bits < bits') :
    (ofBits bits).interval.upper ≤ (ofBits bits').interval.lower := by
  rcases ofBits_significand bits with ⟨short, full⟩
  rcases ofBits_significand bits' with ⟨short', full'⟩
  rw [← toBits_ofBits bits, ← toBits_ofBits bits'] at less
  have upper := (ofBits bits).upper_mul 1
  have lower := (ofBits bits').lower_mul 1
  generalize ofBits bits = magnitude at *
  generalize ofBits bits' = magnitude' at *
  rcases magnitude with ⟨significand, shift⟩
  rcases magnitude' with ⟨significand', shift'⟩
  simp only [toBits, Nat.mul_one, Nat.one_mul] at *
  rw [upper, lower]
  rcases Nat.lt_trichotomy shift shift' with finer | rfl | coarser
  · have reached := Nat.mul_le_mul_right (2 ^ shift') (full'.resolve_left (by omega))
    have bounded := Nat.mul_le_mul_right (2 ^ shift) short
    obtain ⟨more, grown⟩ : ∃ more, 2 ^ shift' = 2 * 2 ^ shift + more := by
      apply Nat.exists_eq_add_of_le
      rw [← Nat.pow_succ']
      exact Nat.pow_le_pow_right (by decide) finer
    have scaled := Nat.le_mul_of_pos_left more leadingBit_pos
    rw [Nat.succ_mul, Nat.mul_assoc] at bounded
    rw [grown] at reached ⊢
    rw [Nat.mul_add, Nat.mul_left_comm] at reached
    split
    · omega
    · next wide =>
      have beyond : leadingBit + 1 ≤ significand' := by
        have differ : significand' ≠ leadingBit := by
          rintro rfl
          exact wide (by simp [narrowBelow, Nat.ne_zero_of_lt finer])
        have leading := full'.resolve_left (by omega)
        omega
      have past := Nat.mul_le_mul_right (2 * 2 ^ shift + more) beyond
      rw [Nat.succ_mul, Nat.mul_add, Nat.mul_left_comm] at past
      omega
  · have next : significand + 1 ≤ significand' := by omega
    have apart := Nat.mul_le_mul_right (2 ^ shift) next
    rw [Nat.succ_mul] at apart
    split <;> omega
  · have apart := Nat.mul_le_mul_right leadingBit coarser
    have reached := full.resolve_left (by omega)
    rw [Nat.succ_mul] at apart
    omega

end Magnitude

/--
Just below a power of two the finer grid applies, and its last significand is
rounded up to the power.
-/
theorem nearestBits_below {finer : Nat} (positive : 0 < den)
    (below : num * unitsPerOne < 2 * (leadingBit * (den * 2 ^ finer)))
    (near : 8 * (leadingBit * (den * 2 ^ finer)) ≤
      4 * (num * unitsPerOne) + 2 * (den * 2 ^ finer)) :
    nearestBits num den = min (finer * leadingBit + 2 * leadingBit) infinityBits := by
  have scaled : den * 2 ^ finer ≤ leadingBit * (den * 2 ^ finer) :=
    Nat.le_mul_of_pos_left _ leadingBit_pos
  have scale : Scale (num * unitsPerOne) den finer := by
    refine ⟨.inr ?_, ?_⟩
    · rw [Nat.mul_assoc, Nat.mul_comm _ den]
      omega
    · rw [Nat.mul_assoc, Nat.mul_comm _ den, Nat.mul_assoc]
      exact below
  apply nearestBits_of_scale scale positive
  constructor <;> rw [Nat.mul_assoc] <;> omega

/-- A quotient is rounded to the double whose interval it lies in. -/
theorem nearestBits_eq {bits : Nat} (finite : bits < infinityBits) (positive : 0 < den)
    (spans : (Magnitude.ofBits bits).interval.Spans num den) : nearestBits num den = bits := by
  rcases Magnitude.ofBits_significand bits with ⟨short, full⟩
  have same := Magnitude.toBits_ofBits bits
  have rounds := Magnitude.rounds_of_spans spans
  have narrow := Magnitude.quarter_of_spans spans
  clear spans
  generalize Magnitude.ofBits bits = magnitude at *
  rcases magnitude with ⟨significand, shift⟩
  simp only [Magnitude.toBits] at *
  have grid (factor : Nat) : factor * 2 ^ shift * den = factor * (den * 2 ^ shift) := by ring
  by_cases reached : shift = 0 ∨ leadingBit * 2 ^ shift * den ≤ num * unitsPerOne
  · have scale : Scale (num * unitsPerOne) den shift := by
      refine ⟨reached, ?_⟩
      have upper := rounds.upper
      have spacing : 0 < den * 2 ^ shift := Nat.mul_pos positive (Nat.two_pow_pos shift)
      have next := Nat.mul_le_mul_right (den * 2 ^ shift) short
      rw [Nat.succ_mul] at next
      rw [grid]
      omega
    rw [nearestBits_of_scale scale positive rounds, same]
    exact Nat.min_eq_left (Nat.le_of_lt finite)
  · rcases not_or.mp reached with ⟨shifted, below⟩
    rw [grid, Nat.not_le] at below
    -- Only the interval of a power of two reaches below the power.
    obtain rfl : significand = leadingBit := by
      by_contra differ
      have more : leadingBit + 1 ≤ significand := by omega
      have lower := rounds.lower
      have next := Nat.mul_le_mul_right (den * 2 ^ shift) more
      rw [Nat.succ_mul] at next
      omega
    have quarter := narrow (by simp [Magnitude.narrowBelow, shifted])
    obtain ⟨finer, rfl⟩ := Nat.exists_eq_add_one_of_ne_zero shifted
    have halved : den * 2 ^ (finer + 1) = 2 * (den * 2 ^ finer) := by ring
    rw [halved, Nat.mul_left_comm leadingBit] at quarter below
    have power : finer * leadingBit + 2 * leadingBit = bits := by
      rw [← same]
      ring
    rw [nearestBits_below positive below (by omega), power]
    exact Nat.min_eq_left (Nat.le_of_lt finite)

end Treewalk.Numeral
