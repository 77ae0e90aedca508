import Mathlib
import Treewalk.Proofs.DoubleBits
import Treewalk.Proofs.Separation
import Treewalk.Proofs.ShortestDecimal

/-!
# Printed numbers are read back

A program prints whole numbers in full and all others with the digits of their
shortest decimal, always positionally.  The digits of such a text, over the
power of ten for those behind the point, are the number that was printed, or
its shortest decimal; so they are rounded to the double they came from.
-/

namespace Treewalk

open Numeral Scan Magnitude List

/-! ## The value of digits -/

theorem digitsValue_eq (digits : List Char) :
    digitsValue digits = Nat.ofDigitChars 10 digits 0 := by
  rw [Nat.ofDigitChars_eq_foldl, digitsValue]
  simp only [Nat.mul_comm]

/-- Digits have the value they were written for. -/
theorem digitsValue_toDigits (number : Nat) : digitsValue (Nat.toDigits 10 number) = number := by
  rw [digitsValue_eq, Nat.ofDigitChars_ten_toDigits]

theorem digitsValue_zeros_append (zeros : Nat) (digits : List Char) :
    digitsValue (replicate zeros '0' ++ digits) = digitsValue digits := by
  rw [digitsValue_eq, digitsValue_eq, Nat.ofDigitChars_append, Nat.ofDigitChars_replicate_zero,
    Nat.mul_zero]

theorem digitsValue_append_zeros (digits : List Char) (zeros : Nat) :
    digitsValue (digits ++ replicate zeros '0') = digitsValue digits * 10 ^ zeros := by
  rw [digitsValue_eq, digitsValue_eq, Nat.ofDigitChars_append, Nat.ofDigitChars_replicate_zero,
    Nat.mul_comm]

theorem digit_of_mem_toDigits {number : Nat} {char : Char} (mem : char ∈ Nat.toDigits 10 number) :
    Digit char :=
  (isDigit_iff char).mp (Nat.isDigit_of_mem_toDigits (by decide) (by decide) mem)

theorem digit_of_mem_zeros {zeros : Nat} {char : Char} (mem : char ∈ replicate zeros '0') :
    Digit char := by
  rw [eq_of_mem_replicate mem]
  exact ⟨by decide, by decide⟩

/-! ## Texts of numbers -/

variable {number : Float}

/-- A decimal is read as the double nearest to it. -/
theorem ofDecimal_eq {value places : Nat}
    (nearest : nearestBits value (10 ^ places) = number.toBits.toNat) :
    ofDecimal value places = number := by
  rw [ofDecimal, Nat.pow_eq, nearest, UInt64.ofNat_toNat, Float.ofBits_toBits]

/-- Digits on both sides of a point, which is left out if there are none behind it. -/
def pointed (whole fraction : List Char) : List Char :=
  whole ++ if fraction = [] then [] else '.' :: fraction

theorem pointed_of_ne {whole fraction : List Char} (more : fraction ≠ []) :
    pointed whole fraction = whole ++ '.' :: fraction := by
  rw [pointed, if_neg more]

/-- Digits around a point are the lexeme of a number. -/
theorem lexeme_pointed {whole fraction : List Char} (nonempty : whole ≠ [])
    (digit : ∀ char ∈ whole ++ fraction, Digit char)
    (nearest : nearestBits (digitsValue (whole ++ fraction)) (10 ^ fraction.length) =
      number.toBits.toNat) : Lexeme (.number number) (pointed whole fraction) := by
  rcases forall_mem_append.mp digit with ⟨whole_digit, fraction_digit⟩
  rw [← ofDecimal_eq nearest]
  cases fraction with
  | nil =>
    rw [pointed, if_pos rfl, append_nil]
    exact .whole nonempty whole_digit
  | cons first others =>
    rw [pointed_of_ne (cons_ne_nil _ _)]
    exact .fraction nonempty whole_digit (cons_ne_nil _ _) fraction_digit

/-- The digits on both sides of a point are worth as much as a decimal. -/
structure Pointed (decimal : Decimal) (whole fraction : List Char) : Prop where
  nonempty : whole ≠ []
  digit : ∀ char ∈ whole ++ fraction, Digit char
  value : decimal.num * 10 ^ fraction.length = digitsValue (whole ++ fraction) * decimal.den

theorem Pointed.spans {decimal : Decimal} {whole fraction : List Char} {interval : RoundingInterval}
    (pointed : Pointed decimal whole fraction) (spans : interval.Spans decimal.num decimal.den) :
    interval.Spans (digitsValue (whole ++ fraction)) (10 ^ fraction.length) :=
  spans.congr decimal.den_pos (Nat.pow_pos (by decide)) pointed.value

/--
A positional text has a point unless all digits are in front of it and a whole
number needs none.  No zeros are put in front but the one that stands alone.
-/
theorem exists_pointed (layout : Layout) {digits : List Char} (exponent : Int)
    (nonempty : digits ≠ [])
    (digit : ∀ char ∈ digits, Digit char) : ∃ whole fraction,
    layout.positionalText digits (exponent + digits.length - 1) = pointed whole fraction ∧
    Pointed ⟨digitsValue digits, exponent⟩ whole fraction ∧
    (fraction = [] ↔ 0 ≤ exponent ∧ layout.keepsFraction = false) ∧
    (digits.head? ≠ some '0' → whole.head? = some '0' → whole = ['0']) := by
  have length := length_pos_iff.mpr nonempty
  rw [Layout.positionalText]
  split
  · next negative =>
    have more : replicate ((-(exponent + digits.length - 1)).toNat - 1) '0' ++ digits ≠ [] :=
      append_ne_nil_of_right_ne_nil _ nonempty
    refine ⟨['0'], _, (@pointed_of_ne ['0'] _ more).symm, ⟨cons_ne_nil _ _, ?_, ?_⟩,
      iff_of_false more (by omega), fun _ _ => rfl⟩
    · rw [← append_assoc, singleton_append, ← replicate_succ]
      exact fun char mem => (mem_append.mp mem).elim digit_of_mem_zeros (digit char)
    · rw [← append_assoc, singleton_append, ← replicate_succ,
        digitsValue_zeros_append, length_append, length_replicate]
      simp only [Decimal.num, Decimal.den]
      rw [show exponent.toNat = 0 by omega, pow_zero, Nat.mul_one]
      congr 2
      omega
  · next whole =>
    simp only
    split
    · next short =>
      refine ⟨digits ++ replicate
        ((exponent + digits.length - 1).toNat + 1 - digits.length) '0',
        replicate layout.keepsFraction.toNat '0', ?_,
        ⟨append_ne_nil_of_left_ne_nil nonempty _, ?_, ?_⟩, ?_, ?_⟩
      · cases layout.keepsFraction <;> rfl
      · rw [append_assoc, replicate_append_replicate]
        exact fun char mem => (mem_append.mp mem).elim (digit char) digit_of_mem_zeros
      · rw [append_assoc, replicate_append_replicate, digitsValue_append_zeros,
          length_replicate]
        simp only [Decimal.num, Decimal.den]
        rw [show (-exponent).toNat = 0 by omega, pow_zero, Nat.mul_one, Nat.mul_assoc, ← pow_add]
        congr 3
        omega
      · simp [show 0 ≤ exponent by omega]
      · intro nonzero
        rw [head?_append_of_ne_nil _ nonempty]
        exact fun zero => absurd zero nonzero
    · next long =>
      have more : digits.drop ((exponent + digits.length - 1).toNat + 1) ≠ [] := by
        rw [← length_pos_iff, length_drop]
        omega
      refine ⟨_, _, (pointed_of_ne more).symm, ⟨?_, ?_, ?_⟩, iff_of_false more (by omega), ?_⟩
      · rw [← length_pos_iff, length_take]
        omega
      · rwa [take_append_drop]
      · rw [take_append_drop, length_drop]
        simp only [Decimal.num, Decimal.den]
        rw [show exponent.toNat = 0 by omega, pow_zero, Nat.mul_one]
        congr 2
        omega
      · intro nonzero
        rw [head?_take, if_neg (Nat.succ_ne_zero _)]
        exact fun zero => absurd zero nonzero

/-! ## Numbers without a sign -/

/-- The number is finite and has no sign; its bits say which one it is. -/
structure Unsigned (number : Float) (bits : Nat) : Prop where
  bounded : bits < infinityBits
  parts_eq : parts number = .finite false (.ofBits bits)
  toBits_eq : number.toBits.toNat = bits

theorem exists_finite (finite : number.isFinite = true) : ∃ negative bits, bits < infinityBits ∧
    parts number = .finite negative (.ofBits bits) ∧
      number.toBits.toNat = (if negative then 2 ^ 63 else 0) + bits := by
  have finite : number.toModel.unpack.isFinite = true := finite
  rw [unpack_eq] at finite
  cases found : parts number with
  | notANumber | infinite negative =>
    rw [found] at finite
    cases finite
  | finite negative magnitude =>
    obtain ⟨bits, bounded, rfl, total⟩ := exists_bits found
    exact ⟨negative, bits, bounded, rfl, total⟩

/-- A finite number is negative, minus zero, or what its bits say without a sign. -/
theorem exists_unsigned (finite : number.isFinite = true) (least : 0 ≤ number)
    (unsigned : number ≠ -0) : ∃ bits, Unsigned number bits := by
  rw [le_iff_unpacked, show parts 0 = .finite false (.ofBits 0) from rfl, unpacked_zero] at least
  obtain ⟨negative, bits, bounded, found, total⟩ := exists_finite finite
  cases negative with
  | false => exact ⟨bits, bounded, found, total.trans (Nat.zero_add bits)⟩
  | true =>
    by_cases zero : bits = 0
    · rw [zero] at total
      exact absurd (Float.toBits_inj.mp (UInt64.toNat_inj.mp total)) unsigned
    · rw [found, unpacked_of_ne_zero _ zero] at least
      cases least

open Float.Model UnpackedFloat in
/-- Bits that stand for a number without a sign are the bits of a double. -/
theorem toBits_ofBits_of_le {bits : Nat} (bounded : bits ≤ infinityBits) :
    (Float.ofBits (UInt64.ofNat bits)).toBits.toNat = bits := by
  unfold infinityBits leadingBit at bounded
  rw [Nat.pow_eq] at bounded
  have same : (UInt64.ofNat bits).toBitVec.toNat = bits := by
    rw [UInt64.toNat_toBitVec, UInt64.toNat_ofNat']
    omega
  have valid : Format.binary64.Valid (UInt64.ofNat bits).toBitVec := by
    refine ⟨fun full unequal => absurd ?_ unequal⟩
    have exponent := congrArg BitVec.toNat full
    rw [toNat_unpackExponent, same] at exponent
    have exponent : bits / 2 ^ 52 % 2048 = 2047 := exponent
    refine BitVec.toNat_inj.mp ?_
    rw [toNat_unpackMantissa, same]
    show bits % 2 ^ 52 = 0
    omega
  exact (congrArg BitVec.toNat (pack_unpack_of_valid valid)).trans same

/-- A number that is read has no sign. -/
theorem Scan.Lexeme.unsigned {digits : List Char} (lexeme : Lexeme (.number number) digits)
    (finite : number.isFinite = true) : ∃ bits, Unsigned number bits := by
  have nearest (num den : Nat) : nearestBits num den ≤ infinityBits := Nat.min_le_right _ _
  have below : number.toBits.toNat ≤ infinityBits := by
    cases lexeme <;>
    · rw [ofDecimal, toBits_ofBits_of_le (nearest _ _)]
      exact nearest _ _
  obtain ⟨negative, bits, bounded, found, total⟩ := exists_finite finite
  cases negative with
  | false => exact ⟨bits, bounded, found, total.trans (Nat.zero_add bits)⟩
  | true =>
    rw [total] at below
    unfold infinityBits leadingBit at below
    rw [Nat.pow_eq] at below
    simp only [if_true] at below
    omega

/-! ## Printed numbers -/

theorem Numeral.Magnitude.whole_mul {magnitude : Magnitude} (integral : magnitude.integral = true) :
    magnitude.whole * unitsPerOne = magnitude.units :=
  Nat.div_mul_cancel (Nat.dvd_of_mod_eq_zero (beq_iff_eq.mp integral))

/-- The digits of a whole number, with zeros behind the point or not, are rounded to it. -/
theorem nearestBits_whole {bits : Nat} (finite : bits < infinityBits)
    (integral : (ofBits bits).integral = true) (places : Nat) :
    nearestBits ((ofBits bits).whole * 10 ^ places) (10 ^ places) = bits := by
  have positive : 0 < 10 ^ places := Nat.pow_pos (by decide)
  by_cases zero : bits = 0
  · subst zero
    rw [show (ofBits 0).whole = 0 by decide +kernel, Nat.zero_mul]
    simp [nearestBits, roundQuotient, infinityBits, positive]
  · apply nearestBits_eq finite positive
    apply spans_of_eq (units_ofBits_ne_zero zero) positive
    rw [← whole_mul integral, Nat.mul_right_comm]

/-- A whole number is read from its text. -/
theorem Unsigned.lexeme_whole {bits : Nat} (unsigned : Unsigned number bits)
    (integral : (ofBits bits).integral = true) (zeros : Nat) :
    Lexeme (.number number)
      (pointed (Nat.toDigits 10 (ofBits bits).whole) (replicate zeros '0')) := by
  apply lexeme_pointed Nat.toDigits_ne_nil
  · exact forall_mem_append.mpr ⟨fun _ => digit_of_mem_toDigits, fun _ => digit_of_mem_zeros⟩
  · rw [digitsValue_append_zeros, digitsValue_toDigits, length_replicate, unsigned.toBits_eq]
    exact nearestBits_whole unsigned.bounded integral zeros

theorem Numeral.Magnitude.units_ne_zero_of_fractional {magnitude : Magnitude}
    (fractional : magnitude.integral = false) : magnitude.units ≠ 0 := by
  intro nothing
  rw [integral, nothing, Nat.zero_mod] at fractional
  cases fractional

/--
All other numbers have the digits of their shortest decimal, with a point if
and only if they are not whole.
-/
theorem Unsigned.plain_text {bits : Nat} (unsigned : Unsigned number bits)
    (nonzero : (ofBits bits).units ≠ 0) : ∃ whole fraction,
    (plain.text number).toList = pointed whole fraction ∧
    Pointed ((ofBits bits).shortest .up) whole fraction ∧
    (fraction = [] ↔ 0 ≤ ((ofBits bits).shortest .up).exponent) := by
  rcases exists_pointed plain ((ofBits bits).shortest .up).exponent
    Nat.toDigits_ne_nil fun _ =>
      digit_of_mem_toDigits with ⟨whole, fraction, text, pointed, point, _⟩
  rw [digitsValue_toDigits] at pointed
  refine ⟨whole, fraction, text ▸ ?_, pointed, point.trans (and_iff_left rfl)⟩
  rw [Layout.text, unsigned.parts_eq]
  show (plain.magnitudeText _).toList = _
  rw [Layout.magnitudeText, if_neg nonzero, Layout.decimalText, String.toList_ofList,
    Nat.toList_repr]
  rfl

/-- A number with a fraction is read from its text. -/
theorem Unsigned.lexeme_plain {bits : Nat} (unsigned : Unsigned number bits)
    (fractional : (ofBits bits).integral = false) :
    Lexeme (.number number) (plain.text number).toList := by
  have nonzero := units_ne_zero_of_fractional fractional
  rcases unsigned.plain_text nonzero with ⟨whole, fraction, text, pointed, _⟩
  rw [text]
  apply lexeme_pointed pointed.nonempty pointed.digit
  rw [unsigned.toBits_eq]
  exact nearestBits_eq unsigned.bounded
    (Nat.pow_pos (by decide)) (pointed.spans (spans_shortest .up nonzero))

/--
The text that a finite number is printed as, unless it is negative or minus
zero, is read as one token: this number, bit for bit.
-/
theorem printed_numbers_are_read_back (number : Float) (finite : number.isFinite = true)
    (least : 0 ≤ number) (unsigned : number ≠ -0) :
    ∃ line last, scan (printed number) =
      ⟨[⟨.number number, printed number, line⟩, endToken last], []⟩ := by
  rcases exists_unsigned finite least unsigned with ⟨bits, unsigned⟩
  apply readAlone_iff.mpr
  rw [printed, unsigned.parts_eq]
  simp only
  split
  · next integral =>
    show Lexeme _ (Nat.repr _).toList
    have lexeme := unsigned.lexeme_whole integral 0
    rwa [replicate_zero, pointed, if_pos rfl, append_nil, ← Nat.toList_repr] at lexeme
  · next fractional => exact unsigned.lexeme_plain (Bool.eq_false_iff.mpr fractional)

/-- The least positive double is printed with hundreds of zeros. -/
theorem least_number_is_read_back :
    ∃ line last, scan (printed 5e-324) =
      ⟨[⟨.number 5e-324, printed 5e-324, line⟩, endToken last], []⟩ :=
  printed_numbers_are_read_back 5e-324 (by decide +kernel) (by decide +kernel) (by decide +kernel)

end Treewalk
