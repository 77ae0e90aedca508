import Treewalk.Proofs.NearestDouble

/-!
# The bits of a double

The parts of a double are what its bits stand for in binary floating-point
arithmetic.  So the order of doubles without a sign is the order of their bits.
-/

namespace Treewalk.Numeral

open Float.Model UnpackedFloat

/-- The sign of a double. -/
def signOf (negative : Bool) : Sign :=
  if negative then .negative else .positive

/-- A double in binary floating-point arithmetic. -/
def Parts.unpacked : Parts → UnpackedFloat
  | .notANumber => .notANumber
  | .infinite negative => .infinity (signOf negative)
  | .finite negative magnitude =>
    if positive : 0 < magnitude.significand then
      .finite (signOf negative) magnitude.significand (magnitude.shift - 1074) positive
    else
      .zero (signOf negative)

section

variable (bits : BitVec 64)

theorem toNat_unpackMantissa :
    (@unpackMantissa Format.binary64 bits).toNat = bits.toNat % 2 ^ 52 := by
  simp only [unpackMantissa, BitVec.toNat_cast, BitVec.extractLsb_toNat]
  rfl

theorem toNat_unpackExponent :
    (@unpackExponent Format.binary64 bits).toNat = bits.toNat / 2 ^ 52 % 2048 := by
  simp only [unpackExponent, BitVec.toNat_cast, BitVec.extractLsb_toNat, Nat.shiftRight_eq_div_pow]

theorem toNat_implicit :
    (1#1 ++ @unpackMantissa Format.binary64 bits).toNat = 2 ^ 52 + bits.toNat % 2 ^ 52 := by
  have one := Nat.two_pow_add_eq_or_of_lt (@unpackMantissa Format.binary64 bits).isLt 1
  rw [BitVec.toNat_append, BitVec.toNat_ofNat, Nat.shiftLeft_eq, Nat.mul_comm]
  exact one.symm.trans (congrArg _ (toNat_unpackMantissa bits))

theorem ofBitVec_unpackSign :
    Sign.ofBitVec (@unpackSign Format.binary64 bits) =
      signOf (decide (2 ^ 63 ≤ bits.toNat)) := by
  have high : (@unpackSign Format.binary64 bits).toNat = bits.toNat / 2 ^ 63 % 2 := by
    show (BitVec.cast _ (bits.extractLsb 63 63)).toNat = _
    simp only [BitVec.toNat_cast, BitVec.extractLsb_toNat, Nat.shiftRight_eq_div_pow]
  have bounded := bits.isLt
  by_cases negative : 2 ^ 63 ≤ bits.toNat
  · have set : @unpackSign Format.binary64 bits ≠ 0#1 := by
      rw [ne_eq, ← BitVec.toNat_inj, high, BitVec.toNat_ofNat]
      omega
    rw [Sign.ofBitVec, if_neg set, decide_eq_true negative]
    rfl
  · have clear : @unpackSign Format.binary64 bits = 0#1 := by
      rw [← BitVec.toNat_inj, high, BitVec.toNat_ofNat]
      omega
    rw [Sign.ofBitVec, if_pos clear, decide_eq_false negative]
    rfl

end

/-- The parts of a double are those of binary floating-point arithmetic. -/
theorem unpack_eq (number : Float) : number.toModel.unpack = (parts number).unpacked := by
  have mantissa := toNat_unpackMantissa number.toBits.toBitVec
  have exponent := toNat_unpackExponent number.toBits.toBitVec
  rw [UInt64.toNat_toBitVec] at mantissa exponent
  have full_iff : @unpackExponent Format.binary64 number.toBits.toBitVec = -1#11 ↔
      number.toBits.toNat / 2 ^ 52 % 2048 = 2047 := by
    rw [← exponent]
    exact BitVec.toNat_inj.symm
  have short_iff : @unpackExponent Format.binary64 number.toBits.toBitVec = 0#11 ↔
      number.toBits.toNat / 2 ^ 52 % 2048 = 0 := by
    rw [← exponent]
    exact BitVec.toNat_inj.symm
  have empty_iff : @unpackMantissa Format.binary64 number.toBits.toBitVec = 0#52 ↔
      number.toBits.toNat % 2 ^ 52 = 0 := by
    rw [← mantissa]
    exact BitVec.toNat_inj.symm
  have power : number.toBits.toNat % 2 ^ 63 / 2 ^ 52 = number.toBits.toNat / 2 ^ 52 % 2048 := by
    omega
  have fraction : number.toBits.toNat % 2 ^ 63 % 2 ^ 52 = number.toBits.toNat % 2 ^ 52 := by omega
  show UnpackedFloat.unpack Format.binary64 number.toBits.toBitVec = _
  unfold UnpackedFloat.unpack parts Magnitude.ofBits infinityBits leadingBit
  dsimp only [Nat.pow_eq]
  rw [ofBitVec_unpackSign, UInt64.toNat_toBitVec]
  by_cases full : number.toBits.toNat / 2 ^ 52 % 2048 = 2047
  · rw [if_pos (full_iff.mpr full),
      if_neg (show ¬ number.toBits.toNat % 2 ^ 63 < 2047 * 2 ^ 52 by omega)]
    by_cases empty : number.toBits.toNat % 2 ^ 52 = 0
    · rw [if_pos (empty_iff.mpr empty), if_pos (by omega)]
      rfl
    · rw [if_neg (mt empty_iff.mp empty), if_neg (by omega)]
      rfl
  · rw [if_neg (mt full_iff.mp full),
      if_pos (show number.toBits.toNat % 2 ^ 63 < 2047 * 2 ^ 52 by omega)]
    by_cases short : number.toBits.toNat / 2 ^ 52 % 2048 = 0
    · rw [if_pos (short_iff.mpr short), if_pos (power.trans short), fraction]
      by_cases empty : number.toBits.toNat % 2 ^ 52 = 0
      · rw [dif_pos (empty_iff.mpr empty), Parts.unpacked, dif_neg (by simp only; omega)]
      · rw [dif_neg (mt empty_iff.mp empty), Parts.unpacked, dif_pos (by simp only; omega),
          UnpackedFloat.finite.injEq, exponent, short]
        exact ⟨rfl, mantissa, rfl⟩
    · rw [if_neg (mt short_iff.mp short), if_neg (power ▸ short), power, fraction, Parts.unpacked,
        dif_pos (by simp only; omega), UnpackedFloat.finite.injEq, exponent]
      have bias : Format.binary64.exponentBias = 1023 := rfl
      exact ⟨rfl, toNat_implicit _, by simp only; omega⟩

/-! ## The order of doubles -/

/-- Doubles are ordered as their unpacked parts. -/
theorem le_iff_unpacked (left right : Float) :
    left ≤ right ↔ (parts left).unpacked.le (parts right).unpacked = true := by
  rw [← unpack_eq, ← unpack_eq]
  exact decide_eq_true_iff

theorem lt_iff_unpacked (left right : Float) :
    left < right ↔ (parts left).unpacked.lt (parts right).unpacked = true := by
  rw [← unpack_eq, ← unpack_eq]
  exact decide_eq_true_iff

variable {bits : Nat}

theorem Magnitude.significand_pos (nonzero : bits ≠ 0) : 0 < (ofBits bits).significand := by
  have same := toBits_ofBits bits
  rcases (ofBits_significand bits).2 with short | full
  · rw [toBits, short, Nat.zero_mul, Nat.zero_add] at same
    omega
  · exact Nat.lt_of_lt_of_le leadingBit_pos full

theorem Magnitude.units_ofBits_ne_zero (nonzero : bits ≠ 0) : (ofBits bits).units ≠ 0 :=
  Nat.pos_iff_ne_zero.mp (Nat.mul_pos (significand_pos nonzero) (Nat.two_pow_pos _))

/-- Bits that are not zero unpack to a significand and a shift. -/
theorem unpacked_of_ne_zero (negative : Bool) (nonzero : bits ≠ 0) :
    (Parts.finite negative (.ofBits bits)).unpacked =
      .finite (signOf negative) (Magnitude.ofBits bits).significand
        ((Magnitude.ofBits bits).shift - 1074) (Magnitude.significand_pos nonzero) :=
  dif_pos _

theorem unpacked_zero (negative : Bool) :
    (Parts.finite negative (.ofBits 0)).unpacked = .zero (signOf negative) := by
  cases negative <;> rfl

section

variable {bits' : Nat} (nonzero : bits ≠ 0) (nonzero' : bits' ≠ 0)

include nonzero nonzero'

/-- Positive doubles are compared like their bits. -/
theorem compare_unpacked :
    (Parts.finite false (.ofBits bits)).unpacked.compare
      (Parts.finite false (.ofBits bits')).unpacked = some (compare bits bits') := by
  rcases Magnitude.ofBits_significand bits with ⟨short, full⟩
  rcases Magnitude.ofBits_significand bits' with ⟨short', full'⟩
  have same := Magnitude.toBits_ofBits bits
  have same' := Magnitude.toBits_ofBits bits'
  rw [unpacked_of_ne_zero _ nonzero, unpacked_of_ne_zero _ nonzero']
  show some (Ordering.then _ _) = _
  rw [Magnitude.toBits] at same same'
  congr 1
  rcases Nat.lt_trichotomy (Magnitude.ofBits bits).shift (Magnitude.ofBits bits').shift with
    less | equal | more
  · have apart := Nat.mul_le_mul_right leadingBit less
    rw [Nat.succ_mul] at apart
    rw [compare_lt_iff_lt.mpr (by omega), Nat.compare_eq_lt.mpr (show bits < bits' by omega)]
    rfl
  · rw [equal] at same ⊢
    rw [compare_eq_iff_eq.mpr rfl]
    show compare _ _ = _
    have less : (Magnitude.ofBits bits).significand < (Magnitude.ofBits bits').significand ↔
        bits < bits' := by omega
    have more : (Magnitude.ofBits bits').significand < (Magnitude.ofBits bits).significand ↔
        bits' < bits := by omega
    rw [Nat.compare_eq_ite_lt, Nat.compare_eq_ite_lt]
    simp only [less, more]
  · have apart := Nat.mul_le_mul_right leadingBit more
    rw [Nat.succ_mul] at apart
    rw [compare_gt_iff_gt.mpr (by omega), Nat.compare_eq_gt.mpr (show bits' < bits by omega)]
    rfl

/-- Doubles that are not negative are ordered by their bits. -/
theorem le_unpacked :
    (Parts.finite false (.ofBits bits)).unpacked.le (Parts.finite false (.ofBits bits')).unpacked =
      true ↔ bits ≤ bits' := by
  rw [UnpackedFloat.le, compare_unpacked nonzero nonzero']
  exact Nat.isLE_compare

theorem lt_unpacked :
    (Parts.finite false (.ofBits bits)).unpacked.lt (Parts.finite false (.ofBits bits')).unpacked =
      true ↔ bits < bits' := by
  rw [UnpackedFloat.lt, compare_unpacked nonzero nonzero', beq_iff_eq, Option.some.injEq]
  exact Nat.compare_eq_lt

end

theorem Magnitude.ofBits_injective : Function.Injective ofBits :=
  Function.LeftInverse.injective toBits_ofBits

/-- A finite double is a sign and bits below those of infinity. -/
theorem exists_bits {number : Float} {negative : Bool} {magnitude : Magnitude}
    (found : parts number = .finite negative magnitude) :
    ∃ bits, bits < infinityBits ∧ magnitude = .ofBits bits ∧
      number.toBits.toNat = (if negative then 2 ^ 63 else 0) + bits := by
  have bounded := number.toBits.toBitVec.isLt
  rw [UInt64.toNat_toBitVec] at bounded
  unfold parts at found
  simp only at found
  split at found
  · next finite =>
    cases found
    refine ⟨_, finite, rfl, ?_⟩
    rw [Nat.pow_eq]
    split <;> simp_all <;> omega
  · split at found <;> cases found

/-- The doubles between two positive ones are positive and have the bits between theirs. -/
theorem between_iff (low high : Float) {least limit : Nat}
    (low_bits : parts low = .finite false (.ofBits least))
    (high_bits : parts high = .finite false (.ofBits limit)) (nonzero : least ≠ 0)
    (nonzero' : limit ≠ 0)
    (number : Float) :
    low ≤ number ∧ number < high ↔
      ∃ bits, parts number = .finite false (.ofBits bits) ∧ least ≤ bits ∧ bits < limit := by
  rw [le_iff_unpacked, lt_iff_unpacked, low_bits, high_bits]
  constructor
  · rintro ⟨le, lt⟩
    cases found : parts number with
    | notANumber =>
      rw [found, unpacked_of_ne_zero _ nonzero] at le
      cases le
    | infinite negative =>
      rw [found, unpacked_of_ne_zero _ nonzero] at le
      rw [found, unpacked_of_ne_zero _ nonzero'] at lt
      cases negative with
      | true => cases le
      | false => cases lt
    | finite negative magnitude =>
      obtain ⟨bits, _, rfl, _⟩ := exists_bits found
      by_cases zero : bits = 0
      · rw [found, zero, unpacked_zero, unpacked_of_ne_zero _ nonzero] at le
        cases le
      · cases negative with
        | true =>
          rw [found, unpacked_of_ne_zero _ zero, unpacked_of_ne_zero _ nonzero] at le
          cases le
        | false =>
          rw [found, le_unpacked nonzero zero] at le
          rw [found, lt_unpacked zero nonzero'] at lt
          exact ⟨bits, rfl, le, lt⟩
  · rintro ⟨bits, found, lower, upper⟩
    have between : bits ≠ 0 := by omega
    rw [found, le_unpacked nonzero between, lt_unpacked between nonzero']
    exact ⟨lower, upper⟩

end Treewalk.Numeral
