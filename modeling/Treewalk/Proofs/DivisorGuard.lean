import Treewalk.Machine.Evaluation
import Treewalk.Proofs.DoubleBits
import Treewalk.Proofs.ShortestDecimal

/-!
# Which divisors are refused

A divisor is refused when its canonical text starts with the digit zero: its
shortest decimal is less than one, but large enough to be written without an
exponent.  The shortest decimals pass a thousandth and one where the doubles
do.
-/

namespace Treewalk.Numeral

/-! ## The first digit -/

/-- The digits of a number start with no zero. -/
theorem head_toDigits {number : Nat} (nonzero : number ≠ 0) :
    (Nat.toDigits 10 number).head? ≠ some '0' := by
  induction number using Nat.strongRecOn with
  | ind number ih =>
    rw [Nat.toDigits_eq_if (by decide)]
    split
    · simpa [Nat.digitChar_eq_zero] using nonzero
    · next large =>
      rcases List.exists_cons_of_ne_nil (Nat.toDigits_ne_nil (n := number / 10) (b := 10)) with
        ⟨first, others, split⟩
      have nonzero := ih (number / 10) (by omega) (by omega)
      rw [split] at nonzero ⊢
      exact nonzero

variable {decimal : Decimal} {bits : Nat}

namespace Decimal

/-- The place of the leading digit tells how the decimal compares to powers of ten. -/
theorem leading_ge_iff (nonzero : decimal.digits ≠ 0) (places : Nat) :
    -(places : Int) ≤ decimal.exponent + (Nat.toDigits 10 decimal.digits).length - 1 ↔
      decimal.den ≤ decimal.num * 10 ^ places := by
  have digits := Nat.length_toDigits_pos (b := 10) (n := decimal.digits)
  by_cases whole : 0 ≤ decimal.exponent
  · have one : decimal.den = 1 := by rw [den, show (-decimal.exponent).toNat = 0 by omega, pow_zero]
    have positive := Nat.mul_pos (Nat.pos_of_ne_zero (decimal.num_ne_zero_iff.mpr nonzero))
      (Nat.pow_pos (n := places) (show 0 < 10 by decide))
    rw [one]
    omega
  · obtain ⟨point, negative⟩ : ∃ point : Nat, decimal.exponent = -(point : Int) :=
      ⟨(-decimal.exponent).toNat, by omega⟩
    have below : decimal.num = decimal.digits := by
      rw [num, show decimal.exponent.toNat = 0 by omega, pow_zero, Nat.mul_one]
    rw [below, den, show (-decimal.exponent).toNat = point by omega, negative]
    by_cases few : point ≤ places
    · have power : 10 ^ point ≤ 10 ^ places := Nat.pow_le_pow_right (by decide) few
      have enough := Nat.le_mul_of_pos_left (10 ^ places) (Nat.pos_of_ne_zero nonzero)
      omega
    · obtain ⟨more, rfl⟩ := Nat.exists_eq_add_of_le (Nat.le_of_not_le few)
      have length := Nat.length_toDigits_le_iff (b := 10) (n := decimal.digits) (k := more)
        (by decide) (by omega)
      rw [Nat.add_comm, Nat.pow_add, Nat.mul_le_mul_right_iff (Nat.pow_pos (by decide)),
        ← Nat.not_lt, ← length]
      omega

end Decimal

/-- Digits that do not start with zero are filled up with zeros in front. -/
theorem head_canonical {first : Char} (nonzero : first ≠ '0') (others : List Char) (leading : Int) :
    (if canonical.positional leading then canonical.positionalText (first :: others) leading
      else canonical.scientificText (first :: others) leading).head? = some '0' ↔
        -3 ≤ leading ∧ leading < 0 := by
  have differs : some first ≠ some '0' := fun same => nonzero (Option.some.inj same)
  split
  · next inside =>
    have inside : -3 ≤ leading ∧ leading < 7 := by simpa [canonical] using inside
    rw [Layout.positionalText]
    split
    · next negative => exact iff_of_true rfl ⟨inside.1, negative⟩
    · next whole =>
      refine iff_of_false ?_ (fun bounds => whole bounds.2)
      simp only
      split <;> exact differs
  · next outside =>
    have outside : ¬ (-3 ≤ leading ∧ leading < 7) := by simpa [canonical] using outside
    refine iff_of_false ?_ (by omega)
    unfold Layout.scientificText
    cases others <;> exact differs

theorem head_decimalText (significant : decimal.digits ≠ 0) :
    (canonical.decimalText decimal).toList.head? = some '0' ↔
      decimal.den ≤ decimal.num * 1000 ∧ decimal.num < decimal.den := by
  have nonzero := head_toDigits significant
  have thousandth := Decimal.leading_ge_iff significant 3
  have one := Decimal.leading_ge_iff significant 0
  rcases List.exists_cons_of_ne_nil (Nat.toDigits_ne_nil (n := decimal.digits) (b := 10)) with
    ⟨first, others, split⟩
  rw [Layout.decimalText, String.toList_ofList, Nat.toList_repr]
  rw [split] at nonzero thousandth one ⊢
  rw [head_canonical (fun same => nonzero (congrArg Option.some same))]
  omega

/-! ## Bounds -/

/--
If the shortest decimal of a double reaches a number inside its rounding
interval, then exactly those from this double on do.
-/
theorem shortest_ge_iff (least num den : Nat) (nonzero : bits ≠ 0)
    (lower : (Magnitude.ofBits least).interval.lower * den < 4 * (num * unitsPerOne))
    (upper : 4 * (num * unitsPerOne) < (Magnitude.ofBits least).interval.upper * den)
    (reaches : num * ((Magnitude.ofBits least).shortest .up).den ≤
      ((Magnitude.ofBits least).shortest .up).num * den) :
    num * ((Magnitude.ofBits bits).shortest .up).den ≤
      ((Magnitude.ofBits bits).shortest .up).num * den ↔ least ≤ bits := by
  have spans := Magnitude.spans_shortest .up (Magnitude.units_ofBits_ne_zero nonzero)
  have whole := ((Magnitude.ofBits bits).shortest .up).den_pos
  rcases Nat.lt_trichotomy bits least with less | rfl | more
  · refine iff_of_false (Nat.not_le_of_lt ?_) (Nat.not_le_of_lt less)
    generalize (Magnitude.ofBits bits).shortest .up = decimal at *
    apply Nat.lt_of_mul_lt_mul_left (a := 4 * unitsPerOne)
    calc 4 * unitsPerOne * (decimal.num * den)
        = 4 * (decimal.num * unitsPerOne) * den := by ring
      _ ≤ (Magnitude.ofBits bits).interval.upper * decimal.den * den :=
        Nat.mul_le_mul_right _ spans.upper
      _ ≤ (Magnitude.ofBits least).interval.lower * decimal.den * den :=
        Nat.mul_le_mul_right _ (Nat.mul_le_mul_right _ (Magnitude.upper_le_lower less))
      _ = (Magnitude.ofBits least).interval.lower * den * decimal.den := Nat.mul_right_comm _ _ _
      _ < 4 * (num * unitsPerOne) * decimal.den := Nat.mul_lt_mul_of_pos_right lower whole
      _ = 4 * unitsPerOne * (num * decimal.den) := by ring
  · exact iff_of_true reaches (Nat.le_refl _)
  · refine iff_of_true (Nat.le_of_lt ?_) (Nat.le_of_lt more)
    generalize (Magnitude.ofBits bits).shortest .up = decimal at *
    apply Nat.lt_of_mul_lt_mul_left (a := 4 * unitsPerOne)
    calc 4 * unitsPerOne * (num * decimal.den)
        = 4 * (num * unitsPerOne) * decimal.den := by ring
      _ < (Magnitude.ofBits least).interval.upper * den * decimal.den :=
        Nat.mul_lt_mul_of_pos_right upper whole
      _ ≤ (Magnitude.ofBits bits).interval.lower * den * decimal.den :=
        Nat.mul_le_mul_right _ (Nat.mul_le_mul_right _ (Magnitude.upper_le_lower more))
      _ = (Magnitude.ofBits bits).interval.lower * decimal.den * den := Nat.mul_right_comm _ _ _
      _ ≤ 4 * (decimal.num * unitsPerOne) * den := Nat.mul_le_mul_right _ spans.lower
      _ = 4 * unitsPerOne * (decimal.num * den) := by ring

/-- The shortest decimal of a double is at least a thousandth if the double is. -/
theorem shortest_ge_thousandth (nonzero : bits ≠ 0) :
    ((Magnitude.ofBits bits).shortest .up).den ≤
      ((Magnitude.ofBits bits).shortest .up).num * 1000 ↔ 0x3F50624DD2F1A9FC ≤ bits := by
  have bound := shortest_ge_iff 0x3F50624DD2F1A9FC 1 1000 nonzero (by decide +kernel)
    (by decide +kernel) (by decide +kernel)
  rwa [Nat.one_mul] at bound

theorem shortest_ge_one (nonzero : bits ≠ 0) :
    ((Magnitude.ofBits bits).shortest .up).den ≤
      ((Magnitude.ofBits bits).shortest .up).num ↔ 0x3FF0000000000000 ≤ bits := by
  have bound := shortest_ge_iff 0x3FF0000000000000 1 1 nonzero (by decide +kernel)
    (by decide +kernel) (by decide +kernel)
  rwa [Nat.one_mul, Nat.mul_one] at bound

/-! ## Refused divisors -/

/-- The divisor is zero without a sign, or at least a thousandth and less than one. -/
def RefusedDivisor (divisor : Float) : Prop :=
  divisor.toBits = 0 ∨ 0.001 ≤ divisor ∧ divisor < 1

instance (divisor : Float) : Decidable (RefusedDivisor divisor) :=
  inferInstanceAs (Decidable (_ ∨ _))

/-- The refused divisors, by their bits. -/
theorem refusedDivisor_iff (divisor : Float) :
    RefusedDivisor divisor ↔ ∃ bits, parts divisor = .finite false (.ofBits bits) ∧
      (bits = 0 ∨ 0x3F50624DD2F1A9FC ≤ bits ∧ bits < 0x3FF0000000000000) := by
  have between := between_iff 0.001 1 rfl rfl (by decide) (by decide) divisor
  rw [RefusedDivisor, between]
  constructor
  · rintro (zero | ⟨bits, found, bounds⟩)
    · refine ⟨0, ?_, .inl rfl⟩
      rw [parts, zero]
      rfl
    · exact ⟨bits, found, .inr bounds⟩
  · rintro ⟨bits, found, rfl | bounds⟩
    · rcases exists_bits found with ⟨bits, _, same, total⟩
      rw [← Magnitude.ofBits_injective same] at total
      exact .inl (UInt64.toNat_inj.mp total)
    · exact .inr ⟨bits, found, bounds⟩

/-- The texts that start with a zero are those of refused divisors. -/
theorem head_text_iff (divisor : Float) :
    (canonical.text divisor).toList.head? = some '0' ↔ RefusedDivisor divisor := by
  rw [refusedDivisor_iff, Layout.text]
  cases found : parts divisor with
  | notANumber => exact iff_of_false (by decide) nofun
  | infinite negative => cases negative <;> exact iff_of_false (by decide) nofun
  | finite negative magnitude =>
    obtain ⟨bits, _, rfl, _⟩ := exists_bits found
    cases negative with
    | true =>
      refine iff_of_false ?_ nofun
      show ("-" ++ canonical.magnitudeText (.ofBits bits)).toList.head? ≠ some '0'
      rw [String.toList_append]
      exact fun same => absurd (Option.some.inj same) (by decide)
    | false =>
      have only (other : Nat) : Parts.finite false (.ofBits bits) = .finite false (.ofBits other) ↔
          bits = other :=
        ⟨fun same => Magnitude.ofBits_injective (Parts.finite.inj same).2, fun same => same ▸ rfl⟩
      simp only [only, exists_eq_left', show ∀ text, signed false text = text from fun _ => rfl]
      rw [Layout.magnitudeText]
      by_cases zero : bits = 0
      · rw [zero]
        exact iff_of_true rfl (.inl rfl)
      · have nonzero := Magnitude.units_ofBits_ne_zero zero
        rw [if_neg nonzero, head_decimalText (Magnitude.digits_shortest_ne_zero _ nonzero)]
        have thousandth := shortest_ge_thousandth zero
        have one := shortest_ge_one zero
        rw [show canonical.tie = .up from rfl]
        omega

end Treewalk.Numeral

namespace Treewalk

open Run Numeral

/--
A divisor is refused exactly if its canonical text starts with the digit zero,
that is, if it is zero without a sign or lies between a thousandth and one.
All other quotients are those of binary floating-point arithmetic.
-/
theorem division_is_refused_below_one (left right : Float) :
    ((canonical.text right).toList.head? = some '0' ↔
      right.toBits = 0 ∨ 0.001 ≤ right ∧ right < 1) ∧
    ∀ (access : Access) (fuel : Nat) (first second : Expr) (slash : Token)
      (machine middle last : Machine), slash.kind = .punctuator .slash →
      evaluateWith access fuel first machine = .ok (.number left) middle →
      evaluateWith access fuel second middle = .ok (.number right) last →
      evaluateWith access (fuel + 1) (.binary first slash second) machine =
        if right.toBits = 0 ∨ 0.001 ≤ right ∧ right < 1 then
          .error (.fault .divisionByZero slash) last
        else .ok (.number (left / right)) last := by
  refine ⟨head_text_iff right, ?_⟩
  intro access fuel first second slash machine middle last divides dividend divisor
  have refused : Operator.refusesDivisor right = decide (RefusedDivisor right) := by
    rw [Operator.refusesDivisor, Bool.eq_iff_iff, decide_eq_true_iff, beq_iff_eq, head_text_iff]
  simp only [evaluateWith, Bind.bind, EStateM.bind, dividend, divisor, divides, Operator.binary,
    Operator.arithmetic, refused, decide_eq_true_eq]
  by_cases within : RefusedDivisor right
  · rw [if_pos within]
    exact (if_pos within).symm
  · rw [if_neg within]
    exact (if_neg within).symm

/-- One can be divided by two and by minus a half, but not by a half. -/
theorem division_by_half_is_refused :
    let slash : Token := ⟨.punctuator .slash, "/", 1⟩
    let machine := Machine.initial (fun _ => 0) .unlimited
    let quotient (divisor : Float) :=
      evaluateWith .recorded 2 (.binary (.literal (.number 1)) slash (.literal (.number divisor)))
        machine
    quotient 0.5 = .error (.fault .divisionByZero slash) machine ∧
      quotient 2 = .ok (.number 0.5) machine ∧ quotient (-0.5) = .ok (.number (-2)) machine := by
  intro slash machine quotient
  have divided (divisor : Float) := (division_is_refused_below_one 1 divisor).2 .recorded 1
    (.literal (.number 1)) (.literal (.number divisor)) slash machine machine machine rfl rfl rfl
  refine ⟨(divided 0.5).trans (if_pos (by decide)), (divided 2).trans ?_, (divided (-0.5)).trans ?_⟩
  · rw [if_neg (by decide), show (1 : Float) / 2 = 0.5 by decide +kernel]
  · rw [if_neg (by decide), show (1 : Float) / (-0.5) = -2 by decide +kernel]

end Treewalk
