import Treewalk.Proofs.Derivation
import Treewalk.Proofs.PrintedNumbers
import Treewalk.Tree.Form

/-!
# The two texts of a number

A number literal is shown twice: in the listing of its token and in the form of
its tree.  A whole number of sixteen digits or more has a fraction digit in the
tree only: there it is written in full, while the listing has the digits of its
shortest decimal, filled up with zeros and without a point.
-/

namespace Treewalk

open Numeral Scan

/-! ## Shortest decimals of whole numbers -/

namespace Numeral

/-- Trailing zeros are taken away as long as there are some. -/
theorem Decimal.le_exponent_trimZeros {decimal : Decimal} {zeros fuel : Nat}
    (nonzero : zeros ≠ 0 → decimal.digits ≠ 0) (multiple : 10 ^ zeros ∣ decimal.digits)
    (enough : zeros ≤ fuel) :
    decimal.exponent + zeros ≤ (decimal.trimZeros fuel).exponent := by
  induction fuel generalizing decimal zeros with
  | zero =>
    cases Nat.le_zero.mp enough
    simp [trimZeros]
  | succ fuel ih =>
    rw [trimZeros]
    split
    · next trailing =>
      have tens : 10 * (decimal.digits / 10) = decimal.digits :=
        Nat.mul_div_cancel' (Nat.dvd_of_mod_eq_zero trailing.2)
      have left : decimal.digits / 10 ≠ 0 := by omega
      cases zeros with
      | zero =>
        have later := @ih ⟨decimal.digits / 10, decimal.exponent + 1⟩ 0 (fun _ => left)
          (Nat.one_dvd _) (Nat.zero_le _)
        simp only at later
        omega
      | succ zeros =>
        rw [← tens, Nat.pow_succ'] at multiple
        have later := @ih ⟨decimal.digits / 10, decimal.exponent + 1⟩ zeros (fun _ => left)
          (Nat.dvd_of_mul_dvd_mul_left (by decide) multiple) (Nat.le_of_succ_le_succ enough)
        simp only at later
        omega
    · next last =>
      cases zeros with
      | zero => omega
      | succ zeros =>
        have trailing := Nat.mod_eq_zero_of_dvd (dvd_trans (Dvd.intro_left _ rfl) multiple)
        exact absurd ⟨nonzero (Nat.succ_ne_zero zeros), trailing⟩ last

namespace Magnitude

variable {magnitude : Magnitude}

theorem exists_places (magnitude : Magnitude) : ∃ places : Nat, places ≤ 1100 ∧
    unitsPerOne = 2 ^ places ∧ magnitude.exactDecimal =
      ⟨magnitude.units * 5 ^ places, -(places : Int)⟩ := by
  refine ⟨1074, by decide, ?_, ?_⟩
  · unfold unitsPerOne
    generalize 1074 = places
    rfl
  · unfold exactDecimal
    show Decimal.mk _ (-((1074 : Nat) : Int)) = _
    generalize 1074 = places
    rfl

/-- A whole number lies on the grid of the whole numbers. -/
theorem onGrid_zero (integral : magnitude.integral = true) (nonzero : magnitude.units ≠ 0)
    (tie : Tie) : magnitude.onGrid tie magnitude.interval 0 ≠ none := by
  have whole : magnitude.interval.contains ⟨magnitude.whole, 0⟩ = true := by
    refine RoundingInterval.contains_iff.mpr (spans_of_eq nonzero (Decimal.den_pos _) ?_)
    simp [Decimal.num, Decimal.den, whole_mul integral]
  have below : magnitude.units * Nat.pow 10 (-0 : Int).toNat / (unitsPerOne * Nat.pow 10
      (0 : Int).toNat) = magnitude.whole := by
    simp [Magnitude.whole]
  unfold onGrid
  simp only [below, whole]
  split
  · next impossible _ => cases impossible
  · exact Option.some_ne_none _
  · exact Option.some_ne_none _
  · split <;> exact Option.some_ne_none _

theorem leadingExponent_nonneg (integral : magnitude.integral = true)
    (nonzero : magnitude.units ≠ 0) :
    0 ≤ magnitude.leadingExponent := by
  have units := whole_mul integral
  have positive : magnitude.whole ≠ 0 := by
    intro nothing
    rw [nothing, Nat.zero_mul] at units
    exact nonzero units.symm
  have least : unitsPerOne ≤ magnitude.units := by
    rw [← units]
    exact Nat.le_mul_of_pos_left _ (Nat.pos_of_ne_zero positive)
  rw [leadingExponent, if_pos least, tensToReach, if_neg (by omega)]
  omega

theorem exponent_of_onGrid {tie : Tie} {interval : RoundingInterval} {exponent : Int}
    {decimal : Decimal} (found : magnitude.onGrid tie interval exponent = some decimal) :
    decimal.exponent = exponent := by
  unfold onGrid at found
  simp only at found
  split at found
  · cases found
  · cases found
    rfl
  · cases found
    rfl
  · split at found
    · cases found
      rfl
    · cases found
      rfl
    · cases found
      rfl
    · split at found <;>
      · cases found
        rfl

/-- No coarser grid than that of the whole numbers is passed over for a finer one. -/
theorem exponent_shortest_nonneg (integral : magnitude.integral = true)
    (nonzero : magnitude.units ≠ 0) (tie : Tie) : 0 ≤ (magnitude.shortest tie).exponent := by
  have leading := leadingExponent_nonneg integral nonzero
  have grows (decimal : Decimal) : decimal.exponent ≤ (decimal.trimZeros 1100).exponent := by
    have grows :=
      @Decimal.le_exponent_trimZeros decimal 0 1100 (absurd rfl)
        (Nat.one_dvd _) (by decide)
    omega
  unfold shortest
  simp only
  cases found : (List.range 17).findSome? fun (finer : Nat) =>
      magnitude.onGrid tie magnitude.interval (magnitude.leadingExponent - finer) with
  | none =>
    rcases magnitude.exists_places with ⟨places, enough, one, exact⟩
    have nothing : 5 ^ places ≠ 0 := Nat.pos_iff_ne_zero.mp (Nat.pow_pos (by decide))
    have same : magnitude.units * 5 ^ places = 10 ^ places * magnitude.whole := by
      rw [← whole_mul integral, one, show 10 = 5 * 2 from rfl, Nat.mul_pow]
      ring
    have trimmed := @Decimal.le_exponent_trimZeros magnitude.exactDecimal places 1100
    rw [exact] at trimmed
    have least := trimmed (fun _ => Nat.mul_ne_zero nonzero nothing) ⟨_, same⟩ enough
    rw [Option.getD_none, exact]
    simpa using least
  | some decimal =>
    rcases List.findSome?_eq_some_iff.mp found with ⟨before, finer, after, range, onGrid, missed⟩
    refine Int.le_trans ?_ (grows decimal)
    rw [exponent_of_onGrid onGrid]
    by_contra negative
    have sorted := range ▸ List.pairwise_lt_range (n := 17)
    have mem : magnitude.leadingExponent.toNat ∈ before ++ finer :: after := by
      have inside : finer ∈ List.range 17 := range ▸ List.mem_append_right _ (List.mem_cons_self)
      rw [List.mem_range] at inside
      rw [← range, List.mem_range]
      omega
    have earlier : magnitude.leadingExponent.toNat ∈ before := by
      rcases List.mem_append.mp mem with mem | mem
      · exact mem
      · rcases List.mem_cons.mp mem with same | mem
        · omega
        · have later := (List.pairwise_cons.mp (List.pairwise_append.mp sorted).2.1).1 _ mem
          omega
    have coarser := missed _ earlier
    rw [Int.toNat_of_nonneg leading, Int.sub_self] at coarser
    exact onGrid_zero integral nonzero tie coarser

/-- Only a multiple of a power of two is as near as half a step to one of them. -/
theorem dvd_of_near {significand shift places number : Nat}
    (lower : 4 * (significand * 2 ^ shift) ≤ 4 * (number * 2 ^ places) + 2 * 2 ^ shift)
    (upper : 4 * (number * 2 ^ places) ≤ 4 * (significand * 2 ^ shift) + 2 * 2 ^ shift) :
    2 ^ places ∣ significand * 2 ^ shift := by
  by_cases large : places ≤ shift
  · exact Dvd.dvd.mul_left (Nat.pow_dvd_pow 2 large) _
  · have split : number * 2 ^ places = number * 2 ^ (places - shift) * 2 ^ shift := by
      rw [Nat.mul_assoc, ← Nat.pow_add, Nat.sub_add_cancel (Nat.le_of_not_le large)]
    have gap : 0 < 2 ^ shift := Nat.two_pow_pos _
    rw [split] at lower upper
    have above : 4 * significand ≤ 4 * (number * 2 ^ (places - shift)) + 2 := by
      apply Nat.le_of_mul_le_mul_right _ gap
      linarith
    have below : 4 * (number * 2 ^ (places - shift)) ≤ 4 * significand + 2 := by
      apply Nat.le_of_mul_le_mul_right _ gap
      linarith
    rw [show significand = number * 2 ^ (places - shift) by omega, ← split]
    exact Dvd.intro_left _ rfl

/-- A number that is not whole has no whole number in its interval. -/
theorem exponent_shortest_neg (fractional : magnitude.integral = false)
    (nonzero : magnitude.units ≠ 0) (tie : Tie) : (magnitude.shortest tie).exponent < 0 := by
  by_contra nonneg
  have spans := spans_shortest tie nonzero
  have bounds := And.intro spans.lower spans.upper
  rw [Decimal.den, show (-(magnitude.shortest tie).exponent).toNat = 0 by omega, pow_zero] at bounds
  rcases magnitude.exists_places with ⟨places, _, one, _⟩
  simp only [interval, units, Nat.mul_one, Nat.pow_eq, one] at bounds
  have divides : unitsPerOne ∣ magnitude.units := by
    rw [one]
    refine @dvd_of_near _ _ places (magnitude.shortest tie).num ?_ bounds.2
    have lower := bounds.1
    split at lower <;> omega
  rw [integral, Nat.mod_eq_zero_of_dvd divides] at fractional
  cases fractional

end Magnitude

end Numeral

/-! ## Texts of literals -/

/-- The text has a point with digits behind it. -/
def Fractional (text : String) : Prop :=
  ∃ digits fraction, text.toList = digits ++ '.' :: fraction ∧ fraction ≠ [] ∧
    ∀ char ∈ fraction, Digit char

/-- The number is whole and has sixteen digits or more. -/
def Numeral.isLongWhole (number : Float) : Bool :=
  match parts number with
  | .finite _ magnitude => magnitude.integral && Nat.pow 10 15 ≤ magnitude.whole
  | _ => false

variable {number : Float} {bits : Nat} (unsigned : Unsigned number bits)

include unsigned

/-- In trees all numbers have a fraction digit. -/
theorem Unsigned.fractional_numberText : Fractional (Literal.numberText number) := by
  rw [Literal.numberText, unsigned.parts_eq]
  simp only
  split
  · refine ⟨Nat.toDigits 10 (Magnitude.ofBits bits).whole, ['0'], ?_, List.cons_ne_nil _ _, ?_⟩
    · rw [signed, if_neg Bool.false_ne_true, String.toList_append, Nat.toList_repr]
      rfl
    · exact fun _ => @digit_of_mem_zeros 1 _
  · next fractional =>
    have fractional := Bool.eq_false_iff.mpr fractional
    have nonzero := Magnitude.units_ne_zero_of_fractional fractional
    have negative := Magnitude.exponent_shortest_neg fractional nonzero .up
    rcases unsigned.plain_text nonzero with ⟨whole, fraction, text, pointed, point⟩
    have more : fraction ≠ [] := fun empty => absurd (point.mp empty) (Int.not_le.mpr negative)
    rw [pointed_of_ne more] at text
    exact ⟨whole, fraction, text, more, (List.forall_mem_append.mp pointed.digit).2⟩

/-- Shortest digits of a whole number have no point. -/
theorem Unsigned.plain_text_whole (integral : (Magnitude.ofBits bits).integral = true)
    (nonzero : (Magnitude.ofBits bits).units ≠ 0) : '.' ∉ (plain.text number).toList := by
  have whole := Magnitude.exponent_shortest_nonneg integral nonzero .up
  rcases unsigned.plain_text nonzero with ⟨digits, fraction, text, pointed, point⟩
  rw [text, Treewalk.pointed, if_pos (point.mpr whole), List.append_nil]
  intro mem
  exact absurd (pointed.digit '.' (List.mem_append_left _ mem)).1 (by decide)

omit unsigned

open Grammar in
/--
The two texts of a finite number literal.  The parser makes a constant of the
number, and its text in trees has a point with digits behind it.  The listing
of the token shows the same text if the number is not whole or has fifteen
digits at most.  Otherwise what the listing shows has no point.
-/
theorem number_texts_agree_unless_long (text : String) (token : Token) (number : Float)
    (scanned : token ∈ (scan text).tokens) (kind : token.kind = .number number)
    (finite : number.isFinite = true) :
    (∀ expression cursor rest, cursor.ahead = token :: rest →
      primary expression cursor = .ok (.literal (.number number)) { cursor with ahead := rest }) ∧
    Fractional (Expr.literal (.number number)).formText ∧
    (isLongWhole number = false →
      token.literalText = (Expr.literal (.number number)).formText) ∧
    (isLongWhole number = true → '.' ∉ token.literalText.toList) := by
  have lexeme := (scan_lexeme scanned).resolve_left (by rw [kind]; rintro ⟨⟩)
  rw [kind] at lexeme
  rcases lexeme.unsigned finite with ⟨bits, unsigned⟩
  have form : (Expr.literal (.number number)).formText = Literal.numberText number :=
    (congrArg String.ofList (List.append_nil _)).trans String.ofList_toList
  have listing : token.literalText = Token.numberText number := by
    simp only [Token.literalText, kind]
  rw [form, listing]
  refine ⟨?_, unsigned.fractional_numberText, ?_⟩
  · intro expression cursor rest ahead
    simp only [primary, ahead, kind]
  · simp only [Token.numberText, Literal.numberText, isLongWhole, unsigned.parts_eq, Bool.false_and,
      Bool.and_eq_true, Bool.and_eq_false_iff, decide_eq_true_eq, decide_eq_false_iff_not,
      Nat.not_le]
    by_cases integral : (Magnitude.ofBits bits).integral = true
    · refine ⟨fun short => ?_, fun long => ?_⟩
      · have short := short.resolve_left (by rw [integral]; exact Bool.noConfusion)
        rw [if_pos ⟨integral, short⟩, if_pos integral]
      · rw [if_neg fun short => Nat.not_lt.mpr long.2 short.2]
        refine unsigned.plain_text_whole integral fun nothing => ?_
        have short := long.2
        rw [Magnitude.whole, nothing, Nat.zero_div] at short
        exact absurd short (by decide)
    · rw [if_neg fun whole => integral whole.1, if_neg integral]
      exact ⟨fun _ => rfl, fun long => absurd long.1 integral⟩

/-- Fifteen digits are listed with a fraction digit, sixteen are not. -/
theorem number_texts_of_many_digits :
    let short : Token := ⟨.number 999999999999999, "999999999999999", 1⟩
    let long : Token := ⟨.number 1000000000000000, "1000000000000000", 1⟩
    short.literalText = (Expr.literal (.number 999999999999999)).formText ∧
      '.' ∉ long.literalText.toList := by
  intro short long
  have agree := number_texts_agree_unless_long "999999999999999" short 999999999999999
    (by decide +kernel) rfl (by decide +kernel)
  have differ := number_texts_agree_unless_long "1000000000000000" long 1000000000000000
    (by decide +kernel) rfl (by decide +kernel)
  exact ⟨agree.2.2.1 (by decide +kernel), differ.2.2.2 (by decide +kernel)⟩

/-- The texts of the least number of sixteen digits are different. -/
theorem listing_of_sixteen_digits_lacks_point :
    let text := "1000000000000000"
    let token : Token := ⟨.number 1000000000000000, text, 1⟩
    token ∈ (scan text).tokens ∧ token.listing = "NUMBER " ++ text ++ " " ++ text ∧
      (Expr.literal (.number 1000000000000000)).formText = text ++ ".0" := by
  decide +kernel

end Treewalk
