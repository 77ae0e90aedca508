import Treewalk.Numeral.Shortest

/-!
# Laying out a number

`Layout` gathers the decisions of a written form of numbers: which leading
exponents are written positionally, whether a whole number keeps a fraction
digit, how an exponent is marked, and the words for the values that are not
numbers.  One function writes any double in any layout from its shortest
decimal.

Two further texts are exact rather than shortest: `wholeText` and
`wholePointText` write the full decimal expansion of a whole number.
-/

namespace Treewalk.Numeral

/-- The decisions of a written form of numbers. -/
structure Layout where
  /-- Leading exponents that are written positionally. -/
  positional : Int → Bool
  /-- A positional whole number ends in `.0`. -/
  keepsFraction : Bool
  /-- A one-digit mantissa before an exponent ends in `.0`. -/
  mantissaKeepsFraction : Bool
  /-- What stands between mantissa and a non-negative exponent. -/
  exponentMark : String
  /-- What stands between mantissa and the digits of a negative exponent. -/
  negativeExponentMark : String
  tie : Tie
  notANumber : String
  infinity : String

/-- A text with a minus sign in front if asked for. -/
def signed (negative : Bool) (text : String) : String :=
  if negative then "-" ++ text else text

namespace Layout

/--
Digits with the point where the exponent of the first digit puts it, filled up
with zeros.
-/
def positionalText (layout : Layout) (digits : List Char) (leading : Int) :
    List Char :=
  if leading < 0 then
    '0' :: '.' :: (List.replicate ((-leading).toNat - 1) '0' ++ digits)
  else
    let wholeDigits := leading.toNat + 1
    if digits.length ≤ wholeDigits then
      digits ++ List.replicate (wholeDigits - digits.length) '0' ++
        (if layout.keepsFraction then ['.', '0'] else [])
    else
      digits.take wholeDigits ++ '.' :: digits.drop wholeDigits

/-- Digits with the point after the first one, and the exponent. -/
def scientificText (layout : Layout) (digits : List Char) (leading : Int) :
    List Char :=
  let mantissa :=
    match digits with
    | [] => []
    | [only] =>
      if layout.mantissaKeepsFraction then [only, '.', '0'] else [only]
    | first :: others => first :: '.' :: others
  let mark :=
    if leading < 0 then layout.negativeExponentMark else layout.exponentMark
  mantissa ++ mark.toList ++ (Nat.repr leading.natAbs).toList

/-- Write a decimal whose digits are not zero. -/
def decimalText (layout : Layout) (decimal : Decimal) : String :=
  let digits := (Nat.repr decimal.digits).toList
  let leading := decimal.exponent + digits.length - 1
  String.ofList <|
    if layout.positional leading then
      layout.positionalText digits leading
    else
      layout.scientificText digits leading

/-- Write a magnitude without its sign. -/
def magnitudeText (layout : Layout) (magnitude : Magnitude) : String :=
  if magnitude.units = 0 then
    String.ofList (layout.positionalText ['0'] 0)
  else
    layout.decimalText (magnitude.shortest layout.tie)

/-- Write a double. -/
def text (layout : Layout) (number : Float) : String :=
  match parts number with
  | .notANumber => layout.notANumber
  | .infinite negative => signed negative layout.infinity
  | .finite negative magnitude =>
    signed negative (layout.magnitudeText magnitude)

end Layout

/-- Shortest digits, always positional. -/
def plain : Layout where
  positional := fun _ => true
  keepsFraction := false
  mantissaKeepsFraction := false
  exponentMark := "e"
  negativeExponentMark := "e-"
  tie := .up
  notANumber := "NaN"
  infinity := "inf"

/--
The canonical scientific form: positional from a thousandth up to ten
million, with at least one fraction digit everywhere.
-/
def canonical : Layout where
  positional := fun leading => -3 ≤ leading && leading < 7
  keepsFraction := true
  mantissaKeepsFraction := true
  exponentMark := "E"
  negativeExponentMark := "E-"
  tie := .up
  notANumber := "NaN"
  infinity := "Infinity"

/-- The form numbers take when a program prints them: whole numbers in full. -/
def printed (number : Float) : String :=
  match parts number with
  | .finite negative magnitude =>
    if magnitude.integral then
      signed negative (Nat.repr magnitude.whole)
    else
      plain.text number
  | _ => plain.text number

end Treewalk.Numeral
