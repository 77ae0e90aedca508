import Treewalk.Json
import Treewalk.Proofs.DivisorGuard
import Treewalk.Proofs.PrintedNumbers

/-!
# Documents are read back

A reader of documents takes blanks between all parts, escapes in texts, and
numbers with a fraction and an exponent.  It refuses control characters in
texts, zeros in front of a number and whatever stands behind a document.  What
is written for a document whose numbers are finite is read as that document.
-/

namespace Treewalk

open Numeral Scan List

namespace Json

/-! ## Reading -/

/-- The text behind the blanks at its front. -/
def skipBlanks (text : List Char) : List Char :=
  text.dropWhile isBlank

/-- The value of a hexadecimal digit. -/
def hexValue? (digit : Char) : Option Nat :=
  if digit.isDigit then some (digit.toNat - '0'.toNat)
  else if 'a' ≤ digit ∧ digit ≤ 'f' then some (digit.toNat - 'a'.toNat + 10)
  else if 'A' ≤ digit ∧ digit ≤ 'F' then some (digit.toNat - 'A'.toNat + 10)
  else none

/-- The character with a code of four hexadecimal digits; halves of characters are refused. -/
def unit? (a b c d : Char) : Option Char := do
  let high := 16 * (← hexValue? a) + (← hexValue? b)
  let low := 16 * (← hexValue? c) + (← hexValue? d)
  if (256 * high + low).isValidChar then return .ofNat (256 * high + low) else none

/-- The character that a letter behind a backslash stands for. -/
def escaped? : Char → Option Char
  | '"' => some '"'
  | '\\' => some '\\'
  | '/' => some '/'
  | 'b' => some '\x08'
  | 'f' => some '\x0c'
  | 'n' => some '\n'
  | 'r' => some '\r'
  | 't' => some '\t'
  | _ => none

/-- Read a text up to the quote that closes it. -/
def readText : List Char → Option (List Char × List Char)
  | [] => none
  | '"' :: rest => some ([], rest)
  | '\\' :: 'u' :: a :: b :: c :: d :: rest => do
    let character ← unit? a b c d
    let (others, rest) ← readText rest
    return (character :: others, rest)
  | '\\' :: mark :: rest => do
    let character ← escaped? mark
    let (others, rest) ← readText rest
    return (character :: others, rest)
  | character :: rest =>
    if character.toNat < 0x20 then
      none
    else do
      let (others, rest) ← readText rest
      return (character :: others, rest)

/-- Read digits, of which there has to be one. -/
def readDigits (text : List Char) : Option (List Char × List Char) :=
  if text.takeWhile Char.isDigit = [] then none
  else some (text.takeWhile Char.isDigit, text.dropWhile Char.isDigit)

/-- Read the digits behind a point, if there is one. -/
def readFraction : List Char → Option (List Char × List Char)
  | '.' :: rest => readDigits rest
  | rest => some ([], rest)

/-- Read an exponent, if there is one. -/
def readExponent : List Char → Option (Option Int × List Char)
  | mark :: rest =>
    if mark = 'e' ∨ mark = 'E' then do
      let negative := rest.head? = some '-'
      let signed := negative ∨ rest.head? = some '+'
      let (digits, rest) ← readDigits (if signed then rest.tail else rest)
      return (some (if negative then -digitsValue digits else digitsValue digits), rest)
    else
      some (none, mark :: rest)
  | [] => some (none, [])

/-- The double nearest to a decimal. -/
def nearest (negative : Bool) (decimal : Decimal) : Float :=
  .ofBits (.ofNat ((if negative then Nat.pow 2 63 else 0) + nearestBits decimal.num decimal.den))

/-- A number: without sign, point and exponent it is a natural one. -/
def ofDigits (negative : Bool) (whole fraction : List Char) (exponent : Option Int) : Json :=
  match negative, fraction, exponent with
  | false, [], none => .natural (digitsValue whole)
  | _, _, _ => .number (nearest negative
      ⟨digitsValue (whole ++ fraction), exponent.getD 0 - fraction.length⟩)

/-- Read a number behind its sign; it starts with a zero only if there is no other digit. -/
def readUnsigned (negative : Bool) (text : List Char) : Option (Json × List Char) := do
  let (whole, rest) ← readDigits text
  let (fraction, rest) ← readFraction rest
  let (exponent, rest) ← readExponent rest
  if whole.head? = some '0' ∧ whole ≠ ['0'] then none
  else return (ofDigits negative whole fraction exponent, rest)

/-- Read a number. -/
def readNumber : List Char → Option (Json × List Char)
  | '-' :: rest => readUnsigned true rest
  | text => readUnsigned false text

/-- Read a key and its value. -/
def readField (readValue : List Char → Option (Json × List Char)) (text : List Char) :
    Option ((String × Json) × List Char) :=
  match skipBlanks text with
  | '"' :: rest => do
    let (key, rest) ← readText rest
    match skipBlanks rest with
    | ':' :: rest => do
      let (value, rest) ← readValue rest
      return ((.ofList key, value), rest)
    | _ => none
  | _ => none

mutual

/-- Read a document of at most so many parts.  No document holds a truth value. -/
def readValue : Nat → List Char → Option (Json × List Char)
  | 0, _ => none
  | limit + 1, text =>
    match skipBlanks text with
    | 'n' :: 'u' :: 'l' :: 'l' :: rest => some (.null, rest)
    | '"' :: rest => do
      let (characters, rest) ← readText rest
      return (.string (.ofList characters), rest)
    | '[' :: rest =>
      match skipBlanks rest with
      | ']' :: rest => some (.array [], rest)
      | _ => do
        let (element, rest) ← readValue limit rest
        let (elements, rest) ← readElements limit rest
        return (.array (element :: elements), rest)
    | '\x7b' :: rest =>
      match skipBlanks rest with
      | '\x7d' :: rest => some (.object [], rest)
      | _ => do
        let (field, rest) ← readField (readValue limit) rest
        let (fields, rest) ← readFields limit rest
        return (.object (field :: fields), rest)
    | rest => readNumber rest

/-- Read the elements of a list after the first one. -/
def readElements : Nat → List Char → Option (List Json × List Char)
  | 0, _ => none
  | limit + 1, text =>
    match skipBlanks text with
    | ']' :: rest => some ([], rest)
    | ',' :: rest => do
      let (element, rest) ← readValue limit rest
      let (elements, rest) ← readElements limit rest
      return (element :: elements, rest)
    | _ => none

/-- Read the fields of a record after the first one. -/
def readFields : Nat → List Char → Option (List (String × Json) × List Char)
  | 0, _ => none
  | limit + 1, text =>
    match skipBlanks text with
    | '\x7d' :: rest => some ([], rest)
    | ',' :: rest => do
      let (field, rest) ← readField (readValue limit) rest
      let (fields, rest) ← readFields limit rest
      return (field :: fields, rest)
    | _ => none

end

/-- Read a text as a document that is all of it. -/
def read (text : String) : Option Json := do
  let (document, rest) ← readValue (text.length + 1) text.toList
  if skipBlanks rest = [] then return document else none

/-! ## Texts -/

variable {rest : List Char}

theorem hexValue?_hexDigit {value : Nat} (small : value < 16) :
    hexValue? (hexDigit value) = some value := by
  revert value
  decide

theorem unit?_control {char : Char} (control : char.toNat < 32) :
    unit? '0' '0' (hexDigit (char.toNat / 16)) (hexDigit (char.toNat % 16)) = some char := by
  have low := @hexValue?_hexDigit (char.toNat % 16) (by omega)
  have high := @hexValue?_hexDigit (char.toNat / 16) (by omega)
  have zero : hexValue? '0' = some 0 := by decide
  have whole : 16 * (char.toNat / 16) + char.toNat % 16 = char.toNat := Nat.div_add_mod _ _
  have valid : char.toNat.isValidChar := char.valid
  simp [unit?, low, high, zero, whole, if_pos valid]

/-- A written character is read back, whatever follows it. -/
theorem readText_escapeChar (char : Char) (text : List Char) :
    readText (escapeChar char ++ text) =
      (readText text).map fun read => (char :: read.1, read.2) := by
  rw [Option.map_eq_bind]
  unfold escapeChar
  split
  case h_8 quote slash _ _ _ _ _ =>
    split
    · next control =>
      show (unit? '0' '0' _ _).bind _ = _
      rw [unit?_control control]
      rfl
    · next plain =>
      rw [singleton_append, readText, if_neg plain]
      · rfl
      · exact quote
      · exact fun a b c d rest same => absurd same slash
      · exact fun mark rest same => absurd same slash
  all_goals rfl

/-- An escaped text is read up to its closing quote. -/
theorem readText_flatMap (text : List Char) :
    readText (text.flatMap escapeChar ++ '"' :: rest) = some (text, rest) := by
  induction text with
  | nil => rw [flatMap_nil, nil_append, readText]
  | cons char text ih =>
    rw [flatMap_cons, append_assoc, readText_escapeChar, ih]
    rfl

/-! ## Numbers -/

/-- The text goes on with what is part of no number. -/
def Ends (text : List Char) : Prop :=
  Stops (fun char => char.isDigit || char == '.' || char == 'e' || char == 'E') text

variable {whole fraction : List Char}

theorem readDigits_run {digits : List Char} (filled : digits ≠ [])
    (digit : ∀ char ∈ digits, Digit char) (stops : Stops Char.isDigit rest) :
    readDigits (digits ++ rest) = some (digits, rest) := by
  have digit (char : Char) (mem : char ∈ digits) := (isDigit_iff char).mpr (digit char mem)
  rw [readDigits, takeWhile_run digit stops, dropWhile_run digit stops, if_neg filled]

theorem readExponent_of_ends (ends : Ends rest) : readExponent rest = some (none, rest) := by
  cases rest with
  | nil => rfl
  | cons first others =>
    have ends := stops_cons.mp ends
    simp only [Bool.or_eq_false_iff, beq_eq_false_iff_ne] at ends
    exact if_neg (not_or.mpr ⟨ends.1.2, ends.2⟩)

/-- Digits around a point are read as their number. -/
theorem readUnsigned_pointed {after : List Char} {exponent : Option Int} (negative : Bool)
    (filled : whole ≠ []) (digit : ∀ char ∈ whole ++ fraction, Digit char)
    (alone : whole.head? = some '0' → whole = ['0'])
    (stops : Stops (fun char => char.isDigit || char == '.') after)
    (exponential : readExponent after = some (exponent, rest)) :
    readUnsigned negative (pointed whole fraction ++ after) =
      some (ofDigits negative whole fraction exponent, rest) := by
  rcases forall_mem_append.mp digit with ⟨whole_digit, fraction_digit⟩
  have digits (char : Char) (mem : char ∈ after.head?) : char.isDigit = false ∧ char ≠ '.' := by
    simpa using stops char mem
  have fractional : readFraction ((if fraction = [] then [] else '.' :: fraction) ++ after) =
      some (fraction, after) := by
    split
    · next empty =>
      subst empty
      rw [nil_append]
      unfold readFraction
      split
      · exact absurd rfl (digits _ rfl).2
      · rfl
    · next more => exact readDigits_run more fraction_digit fun char mem => (digits char mem).1
  have front : Stops Char.isDigit ((if fraction = [] then [] else '.' :: fraction) ++ after) := by
    split
    · exact fun char mem => (digits char mem).1
    · exact stops_cons.mpr rfl
  rw [readUnsigned, pointed, append_assoc, readDigits_run filled whole_digit front]
  simp only [Option.bind_eq_bind, Option.bind_some, fractional, exponential]
  exact if_neg fun zeros => zeros.2 (alone zeros.1)

/-- What starts with a digit is a number. -/
theorem readValue_signed {negative : Bool} {text : List Char}
    {read : Json × List Char} (limit : Nat)
    (found : readUnsigned negative text = some read) :
    readValue (limit + 1) ((if negative then ['-'] else []) ++ text) = some read := by
  cases negative with
  | true =>
    show readValue (limit + 1) ('-' :: text) = _
    rw [readValue]
    exact found
  | false =>
    show readValue (limit + 1) text = _
    rcases text with _ | ⟨first, others⟩
    · cases found
    cases digit : first.isDigit with
    | false => simp [readUnsigned, readDigits, digit] at found
    | true =>
      have blank : isBlank first = false := by
        simp only [isBlank, Bool.or_eq_false_iff, beq_eq_false_iff_ne]
        refine ⟨⟨⟨?_, ?_⟩, ?_⟩, ?_⟩ <;>
        · rintro rfl
          cases digit
      rw [readValue, skipBlanks, dropWhile_of_stops (stops_cons.mpr blank)]
      split
      case h_5 =>
        unfold readNumber
        split
        · next same =>
          cases same
          cases digit
        · exact found
      all_goals
      · next same =>
        cases same
        cases digit

/-- A double is known by its sign and its other bits. -/
theorem nearest_eq {negative : Bool} {number : Float} {bits : Nat} {decimal : Decimal}
    (total : number.toBits.toNat = (if negative then 2 ^ 63 else 0) + bits)
    (rounds : nearestBits decimal.num decimal.den = bits) : nearest negative decimal = number := by
  rw [nearest, rounds, Nat.pow_eq, ← total, UInt64.ofNat_toNat, Float.ofBits_toBits]

theorem Ends.stops (ends : Ends rest) : Stops (fun char => char.isDigit || char == '.') rest := by
  intro char mem
  have ends := ends char mem
  rw [Bool.or_eq_false_iff, Bool.or_eq_false_iff] at ends
  exact ends.1.1

theorem readExponent_mark (leading : Int) (ends : Ends rest) :
    readExponent ((if leading < 0 then "e-" else "e+").toList ++
      (Nat.toDigits 10 leading.natAbs ++ rest)) = some (some leading, rest) := by
  have digits : readDigits (Nat.toDigits 10 leading.natAbs ++ rest) =
      some (Nat.toDigits 10 leading.natAbs, rest) :=
    readDigits_run Nat.toDigits_ne_nil (fun _ => digit_of_mem_toDigits) fun char mem =>
      (Bool.or_eq_false_iff.mp (ends.stops char mem)).1
  split
  · next negative =>
    show readExponent ('e' :: '-' :: (Nat.toDigits 10 leading.natAbs ++ rest)) = _
    simp [readExponent, digits, digitsValue_toDigits, abs_of_neg negative]
  · next whole =>
    show readExponent ('e' :: '+' :: (Nat.toDigits 10 leading.natAbs ++ rest)) = _
    simp [readExponent, digits, digitsValue_toDigits, abs_of_nonneg (Int.not_lt.mp whole)]

theorem ofDigits_number {exponent : Option Int} (negative : Bool)
    (doubled : fraction ≠ [] ∨ exponent ≠ none) :
    ofDigits negative whole fraction exponent = .number (nearest negative
      ⟨digitsValue (whole ++ fraction), exponent.getD 0 - fraction.length⟩) := by
  unfold ofDigits
  split
  · rcases doubled with more | marked
    · exact absurd rfl more
    · exact absurd rfl marked
  · rfl

/-- A text with a point and without an exponent is read as the double nearest to it. -/
theorem readUnsigned_positional {negative : Bool} {number : Float} {bits : Nat}
    (total : number.toBits.toNat = (if negative then 2 ^ 63 else 0) + bits) (filled : whole ≠ [])
    (digit : ∀ char ∈ whole ++ fraction, Digit char) (more : fraction ≠ [])
    (alone : whole.head? = some '0' → whole = ['0'])
    (rounds : nearestBits (digitsValue (whole ++ fraction)) (10 ^ fraction.length) = bits)
    (ends : Ends rest) :
    readUnsigned negative (pointed whole fraction ++ rest) = some (.number number, rest) := by
  rw [readUnsigned_pointed negative filled digit alone ends.stops (readExponent_of_ends ends),
    ofDigits_number negative (.inl more), nearest_eq total]
  rw [Decimal.num, Decimal.den]
  simpa using rounds

theorem readUnsigned_scientific {negative : Bool} {number : Float} {first : Char}
    {others : List Char} {leading : Int}
    (digit : ∀ char ∈ first :: others, Digit char) (nonzero : some first ≠ some '0')
    (rounds : nearest negative ⟨digitsValue (first :: others), leading - others.length⟩ = number)
    (ends : Ends rest) :
    readUnsigned negative (numberLayout.scientificText (first :: others) leading ++ rest) =
      some (.number number, rest) := by
  have text : numberLayout.scientificText (first :: others) leading = pointed [first] others ++
      ((if leading < 0 then "e-" else "e+").toList ++ Nat.toDigits 10 leading.natAbs) := by
    unfold Layout.scientificText
    rw [Nat.toList_repr, append_assoc]
    cases others <;> rfl
  rw [text, append_assoc, append_assoc,
    @readUnsigned_pointed _ [first] others _ _ negative (cons_ne_nil _ _)
      digit (absurd · nonzero) ?_ (readExponent_mark leading ends),
    ofDigits_number negative (.inr (Option.some_ne_none _))]
  · exact congrArg (fun value => some (Json.number value, rest)) rounds
  · split <;> exact stops_cons.mpr rfl

/-- What is written for a finite double is read as it. -/
theorem readUnsigned_magnitude {negative : Bool} {number : Float} {bits : Nat}
    (bounded : bits < infinityBits)
    (total : number.toBits.toNat = (if negative then 2 ^ 63 else 0) + bits) (ends : Ends rest) :
    readUnsigned negative ((numberLayout.magnitudeText (.ofBits bits)).toList ++ rest) =
      some (.number number, rest) := by
  rw [Layout.magnitudeText]
  split
  · next nothing =>
    have zero : bits = 0 := by
      by_contra nonzero
      exact Magnitude.units_ofBits_ne_zero nonzero nothing
    subst zero
    refine @readUnsigned_positional _ ['0'] ['0'] _ _ _ total
      (cons_ne_nil _ _) ?_ (cons_ne_nil _ _) (fun _ => rfl)
      (by decide +kernel) ends
    exact fun _ => @digit_of_mem_zeros 2 _
  · next significant =>
    have spans := Magnitude.spans_shortest .toEven significant
    have nonzero := head_toDigits (Magnitude.digits_shortest_ne_zero .toEven significant)
    rw [show numberLayout.tie = .toEven from rfl]
    generalize (Magnitude.ofBits bits).shortest .toEven = decimal at *
    have digit (char : Char) : char ∈ Nat.toDigits 10 decimal.digits →
        Digit char := digit_of_mem_toDigits
    have value := digitsValue_toDigits decimal.digits
    rw [Layout.decimalText, String.toList_ofList, Nat.toList_repr]
    split
    · rcases exists_pointed numberLayout decimal.exponent Nat.toDigits_ne_nil digit with
        ⟨whole, fraction, text, pointed, point, alone⟩
      rw [text]
      rw [value] at pointed
      exact readUnsigned_positional total pointed.nonempty pointed.digit
        (fun empty => Bool.noConfusion (point.mp empty).2)
        (alone nonzero)
        (nearestBits_eq bounded
          (Nat.pow_pos (by decide)) (pointed.spans spans)) ends
    · rcases exists_cons_of_ne_nil (Nat.toDigits_ne_nil (n := decimal.digits) (b := 10)) with
        ⟨first, others, split⟩
      rw [split] at nonzero digit value ⊢
      refine readUnsigned_scientific digit nonzero (nearest_eq total ?_) ends
      have exponent : decimal.exponent + (first :: others).length - 1 - others.length =
          decimal.exponent := by
        rw [length_cons]
        omega
      rw [value, exponent]
      exact nearestBits_eq bounded decimal.den_pos spans

/-- A number that is finite is read from its text. -/
theorem readValue_number {number : Float} (limit : Nat) (finite : number.isFinite = true)
    (ends : Ends rest) :
    readValue (limit + 1) ((numberText number).toList ++ rest) = some (.number number, rest) := by
  obtain ⟨negative, bits, bounded, found, total⟩ := exists_finite finite
  have text : (numberText number).toList = (if negative then ['-'] else []) ++
      (numberLayout.magnitudeText (.ofBits bits)).toList := by
    rw [numberText, found]
    simp only
    rw [Layout.text, found]
    cases negative with
    | true => exact String.toList_append
    | false => rfl
  rw [text, append_assoc]
  exact readValue_signed limit (readUnsigned_magnitude bounded total ends)

theorem readValue_natural (limit value : Nat) (ends : Ends rest) :
    readValue (limit + 1) ((Nat.repr value).toList ++ rest) = some (.natural value, rest) := by
  have alone : (Nat.toDigits 10 value).head? = some '0' → Nat.toDigits 10 value = ['0'] := by
    intro zero
    by_cases isZero : value = 0
    · rw [isZero]
      rfl
    · exact absurd zero (head_toDigits isZero)
  have read := @readUnsigned_pointed _ (Nat.toDigits 10 value) [] _ _ false Nat.toDigits_ne_nil
    (by simpa using fun _ => digit_of_mem_toDigits) alone ends.stops (readExponent_of_ends ends)
  rw [pointed, if_pos rfl, append_nil] at read
  rw [Nat.toList_repr]
  refine (readValue_signed limit read).trans ?_
  rw [ofDigits, digitsValue_toDigits]

/-! ## Documents -/

mutual

/-- All numbers of a document are finite. -/
def Finite : Json → Prop
  | number value => value.isFinite = true
  | array elements => FiniteElements elements
  | object fields => FiniteFields fields
  | _ => True

def FiniteElements : List Json → Prop
  | [] => True
  | element :: elements => element.Finite ∧ FiniteElements elements

def FiniteFields : List (String × Json) → Prop
  | [] => True
  | (_, value) :: fields => value.Finite ∧ FiniteFields fields

end

variable (style : Style) (depth : Nat)

/-- Line breaks of a style are blanks. -/
theorem skipBlanks_lineBreak (text : List Char) :
    skipBlanks (style.lineBreak depth ++ text) = skipBlanks text := by
  cases style with
  | compact => rfl
  | indented =>
    refine dropWhile_append_of_pos fun char mem => ?_
    rcases mem_cons.mp mem with rfl | mem
    · rfl
    · rw [eq_of_mem_replicate mem]
      rfl

theorem ends_lineBreak {closing : Char} {text : List Char} (ends : Ends (closing :: text)) :
    Ends (style.lineBreak depth ++ closing :: text) := by
  cases style with
  | compact => exact ends
  | indented => exact stops_cons.mpr rfl

/-- Blanks in front of a value do not matter. -/
theorem readValue_congr (limit : Nat) {text text' : List Char}
    (same : skipBlanks text = skipBlanks text') :
    readValue limit text = readValue limit text' := by
  cases limit with
  | zero => rfl
  | succ limit => rw [readValue, readValue, same]

/-- A field is read by its name, its colon and its value. -/
theorem readField_write {limit : Nat} {text : List Char} {value : Json} (key : String)
    (read : readValue limit text = some (value, rest)) :
    readField (readValue limit)
        (style.lineBreak depth ++ writeQuoted key (style.afterKey ++ text)) =
      some ((key, value), rest) := by
  have found : readValue limit (style.afterKey.tail ++ text) = some (value, rest) := by
    rw [← read]
    cases style with
    | compact => rfl
    | indented => exact readValue_congr limit rfl
  rw [readField, skipBlanks_lineBreak]
  show (readText (_ ++ '"' :: (style.afterKey ++ text))).bind _ = _
  rw [readText_flatMap]
  have marked : style.afterKey = ':' :: style.afterKey.tail := by
    cases style <;> rfl
  rw [marked]
  show (readValue limit (style.afterKey.tail ++ text)).bind _ = _
  rw [found]
  show some ((String.ofList key.toList, value), rest) = _
  rw [String.ofList_toList]

theorem ends_writeElements (rest : List Char) (elements : List Json) :
    Ends (writeElements style (depth + 1) elements (style.lineBreak depth ++ ']' :: rest)) := by
  cases elements with
  | nil => exact ends_lineBreak style depth (stops_cons.mpr rfl)
  | cons => exact stops_cons.mpr rfl

theorem ends_writeFields (rest : List Char) (fields : List (String × Json)) :
    Ends (writeFields style (depth + 1) fields (style.lineBreak depth ++ '\x7d' :: rest)) := by
  cases fields with
  | nil => exact ends_lineBreak style depth (stops_cons.mpr rfl)
  | cons => exact stops_cons.mpr rfl

mutual

/-- Writing puts text in front and takes none away. -/
theorem length_le_write : ∀ (document : Json) (depth : Nat) (rest : List Char),
    rest.length ≤ (document.write style depth rest).length
  | null, _, _ | natural _, _, _ | number _, _, _ | string _, _, _ | array [], _, _
  | object [], _, _ => by
    simp only [write, writeQuoted, length_append, length_cons]
    omega
  | array (element :: elements), depth, rest => by
    have first := length_le_write element (depth + 1)
      (writeElements style (depth + 1) elements (style.lineBreak depth ++ ']' :: rest))
    have others := length_le_writeElements elements (depth + 1)
      (style.lineBreak depth ++ ']' :: rest)
    simp only [write, length_append, length_cons] at first others ⊢
    omega
  | object ((key, value) :: fields), depth, rest => by
    have first := length_le_write value (depth + 1)
      (writeFields style (depth + 1) fields (style.lineBreak depth ++ '\x7d' :: rest))
    have others := length_le_writeFields fields (depth + 1)
      (style.lineBreak depth ++ '\x7d' :: rest)
    simp only [write, writeQuoted, length_append, length_cons] at first others ⊢
    omega

theorem length_le_writeElements : ∀ (elements : List Json) (depth : Nat) (rest : List Char),
    rest.length ≤ (writeElements style depth elements rest).length
  | [], _, _ => Nat.le_refl _
  | element :: elements, depth, rest => by
    have first := length_le_write element depth (writeElements style depth elements rest)
    have others := length_le_writeElements elements depth rest
    simp only [writeElements, length_append, length_cons]
    omega

theorem length_le_writeFields : ∀ (fields : List (String × Json)) (depth : Nat)
    (rest : List Char), rest.length ≤ (writeFields style depth fields rest).length
  | [], _, _ => Nat.le_refl _
  | (key, value) :: fields, depth, rest => by
    have first := length_le_write value depth (writeFields style depth fields rest)
    have others := length_le_writeFields fields depth rest
    simp only [writeFields, writeQuoted, length_append, length_cons]
    omega

end

mutual

/-- What is written for a document is read as the document. -/
theorem readValue_write : ∀ (document : Json) (depth limit : Nat) (rest : List Char),
    document.Finite → Ends rest → (document.write style depth rest).length < limit →
      readValue limit (document.write style depth rest) = some (document, rest)
  | null, _, _ + 1, _, _, _, _ | array [], _, _ + 1, _, _, _, _
  | object [], _, _ + 1, _, _, _, _ => rfl
  | natural value, _, limit + 1, _, _, ends, _ => readValue_natural limit value ends
  | number _, _, limit + 1, _, finite, ends, _ => readValue_number limit finite ends
  | string text, _, limit + 1, rest, _, _, _ => by
    rw [write, writeQuoted, readValue]
    show (readText _).bind _ = _
    rw [readText_flatMap]
    show some (string (.ofList text.toList), rest) = _
    rw [String.ofList_toList]
  | array (element :: elements), depth, limit + 1, rest, finite, _, short => by
    simp only [write, length_cons, length_append] at short
    have first := readValue_write element (depth + 1) limit _ finite.1
      (ends_writeElements style depth rest elements) (by omega)
    have others := readElements_write elements depth limit rest finite.2 (Nat.lt_of_le_of_lt
      (length_le_write style element (depth + 1) _) (by omega))
    rw [← readValue_congr limit (skipBlanks_lineBreak style (depth + 1) _)] at first
    rw [write, readValue]
    show (match skipBlanks _ with
      | ']' :: rest => some (array [], rest)
      | _ => (readValue limit _).bind _) = _
    split
    · next same =>
      cases limit with
      | zero => cases first
      | succ limit =>
        rw [readValue, same] at first
        cases first
    · rw [first]
      show (readElements limit _).bind _ = _
      rw [others]
      rfl
  | object ((key, value) :: fields), depth, limit + 1, rest, finite, _, short => by
    simp only [write, writeQuoted, length_cons, length_append] at short
    have first := readField_write style (depth + 1) key
      (readValue_write value (depth + 1) limit _ finite.1 (ends_writeFields style depth rest fields)
        (by omega))
    have others := readFields_write fields depth limit rest finite.2 (Nat.lt_of_le_of_lt
      (length_le_write style value (depth + 1) _) (by omega))
    rw [write, readValue]
    show (match skipBlanks _ with
      | '\x7d' :: rest => some (object [], rest)
      | _ => (readField (readValue limit) _).bind _) = _
    split
    · next same =>
      rw [readField, same] at first
      cases first
    · rw [first]
      show (readFields limit _).bind _ = _
      rw [others]
      rfl

theorem readElements_write : ∀ (elements : List Json) (depth limit : Nat) (rest : List Char),
    FiniteElements elements →
    (writeElements style (depth + 1) elements (style.lineBreak depth ++ ']' :: rest)).length <
      limit →
    readElements limit
        (writeElements style (depth + 1) elements (style.lineBreak depth ++ ']' :: rest)) =
      some (elements, rest)
  | [], _, _ + 1, _, _, _ => by
    rw [writeElements, readElements, skipBlanks_lineBreak]
    rfl
  | element :: elements, depth, limit + 1, rest, finite, short => by
    simp only [writeElements, length_cons, length_append] at short
    have first := readValue_write element (depth + 1) limit _ finite.1
      (ends_writeElements style depth rest elements) (by omega)
    rw [writeElements, readElements]
    show (readValue limit _).bind _ = _
    rw [readValue_congr limit (skipBlanks_lineBreak _ _ _), first]
    show (readElements limit _).bind _ = _
    rw [readElements_write elements depth limit rest finite.2 (Nat.lt_of_le_of_lt
      (length_le_write style element (depth + 1) _) (by omega))]
    rfl

theorem readFields_write : ∀ (fields : List (String × Json)) (depth limit : Nat)
    (rest : List Char), FiniteFields fields →
    (writeFields style (depth + 1) fields (style.lineBreak depth ++ '\x7d' :: rest)).length <
      limit →
    readFields limit
        (writeFields style (depth + 1) fields (style.lineBreak depth ++ '\x7d' :: rest)) =
      some (fields, rest)
  | [], _, _ + 1, _, _, _ => by
    rw [writeFields, readFields, skipBlanks_lineBreak]
    rfl
  | (key, value) :: fields, depth, limit + 1, rest, finite, short => by
    simp only [writeFields, writeQuoted, length_cons, length_append] at short
    have first := readField_write style (depth + 1) key
      (readValue_write value (depth + 1) limit _ finite.1
        (ends_writeFields style depth rest fields) (by omega))
    rw [writeFields, readFields]
    show (readField (readValue limit) _).bind _ = _
    rw [first]
    show (readFields limit _).bind _ = _
    rw [readFields_write fields depth limit rest finite.2 (Nat.lt_of_le_of_lt
      (length_le_write style value (depth + 1) _) (by omega))]
    rfl

end

/-- The text of a document is valid, and it is the text of no other document. -/
theorem read_text {document : Json} (finite : document.Finite) :
    read (document.text style) = some document := by
  rw [read, text, String.length_ofList, String.toList_ofList,
    readValue_write style document 0 _ [] finite nofun (Nat.lt_succ_self _)]
  rfl

end Json

end Treewalk
