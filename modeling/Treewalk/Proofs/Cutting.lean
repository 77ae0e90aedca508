import Mathlib.Data.List.TakeWhile
import Treewalk.Proofs.Pieces

/-!
# Where a text can be cut

A text is cut into parts, one after the other.  How far a part reaches is
decided by at most the two characters after it, so a part stays one when the
text after it is replaced by another one that starts alike.
-/

namespace Treewalk.Scan

open Char List

/-! ## Runs of characters -/

/-- The text does not start with a character that passes a test. -/
def Stops (test : Char → Bool) (text : List Char) : Prop :=
  ∀ character ∈ text.head?, test character = false

variable {test : Char → Bool} {char : Char}

variable {text after rest comment : List Char} {first : Char}

theorem stops_cons : Stops test (char :: text) ↔ test char = false := by
  simp [Stops]

theorem stops_dropWhile (test : Char → Bool) (text : List Char) :
    Stops test (text.dropWhile test) := by
  intro char head
  have stopped := head?_dropWhile_not test text
  rw [Option.mem_def.mp head] at stopped
  simpa using stopped

theorem takeWhile_of_stops (stops : Stops test text) : text.takeWhile test = [] := by
  cases text with
  | nil => rfl
  | cons char text =>
    rw [takeWhile_cons_of_neg]
    simpa using stops_cons.mp stops

theorem dropWhile_of_stops (stops : Stops test text) : text.dropWhile test = text := by
  cases text with
  | nil => rfl
  | cons char text =>
    rw [dropWhile_cons_of_neg]
    simpa using stops_cons.mp stops

theorem any_head?_of_stops (stops : Stops test text) : text.head?.any test = false := by
  cases text with
  | nil => rfl
  | cons char text => exact stops_cons.mp stops

section

variable {run : List Char} (passes : ∀ char ∈ run, test char = true) (stops : Stops test after)

include passes stops

/-- A run of characters is taken whole, whatever stops it. -/
theorem takeWhile_run : (run ++ after).takeWhile test = run := by
  rw [takeWhile_append_of_pos passes, takeWhile_of_stops stops, append_nil]

theorem dropWhile_run : (run ++ after).dropWhile test = after := by
  rw [dropWhile_append_of_pos passes, dropWhile_of_stops stops]

end

/-! ## Texts that start alike -/

theorem startsName_continues (starts : startsName char = true) : continuesName char = true := by
  simp only [startsName, continuesName, isAlphanum, Bool.or_eq_true] at starts ⊢
  exact starts.imp_left .inl

/-- Letters come after the digits. -/
theorem digits_before_letter (letter : char.isAlpha = true) : '9'.toNat < char.toNat := by
  rcases Bool.or_eq_true_iff.mp letter with upper | lower
  · have above := (of_decide_eq_true upper).1
    exact Nat.lt_of_lt_of_le (by decide) (UInt32.le_iff_toNat_le.mp above)
  · have above := of_decide_eq_true (Bool.and_eq_true_iff.mp lower).1
    exact Nat.lt_of_lt_of_le (by decide) (UInt32.le_iff_toNat_le.mp above)

theorem startsName_not_digit (starts : startsName char = true) : char.isDigit = false := by
  rw [startsName, Bool.or_eq_true, beq_iff_eq] at starts
  rcases starts with letter | rfl
  · have after := digits_before_letter letter
    rw [Bool.eq_false_iff, Ne, isDigit_iff_toNat]
    omega
  · rfl

/-- Texts whose first characters cut what is before them in the same way. -/
inductive StartsAlike : List Char → List Char → Prop where
  | nil : StartsAlike [] []
  /-- Where there was nothing, there is a new line. -/
  | line (text : List Char) : StartsAlike [] ('\n' :: text)
  | same (character : Char) (text text' : List Char) :
      StartsAlike (character :: text) (character :: text')
  | name {character character' : Char} (text text' : List Char)
      (starts : startsName character = true) (starts' : startsName character' = true) :
      StartsAlike (character :: text) (character' :: text')

/-- The same holds after a point, which may belong to a number. -/
structure Boundary (after after' : List Char) : Prop where
  starts : StartsAlike after after'
  point : ∀ text text', after = '.' :: text → after' = '.' :: text' → StartsAlike text text'

section

variable {after' : List Char} (alike : StartsAlike after after')

include alike

/-- What stops a run of characters also does so when it starts alike. -/
theorem StartsAlike.stops {test : Char → Bool} (line : test '\n' = false)
    (names : ∀ char char', startsName char = true →
      startsName char' = true → test char = false → test char' = false) (stops : Stops test after) :
    Stops test after' := by
  cases alike with
  | nil => exact stops
  | line text => exact stops_cons.mpr line
  | same char text text' => exact stops_cons.mpr (stops_cons.mp stops)
  | name text text' starts starts' =>
    exact stops_cons.mpr (names _ _ starts starts' (stops_cons.mp stops))

theorem StartsAlike.stops_digit (stops : Stops isDigit after) : Stops isDigit after' :=
  alike.stops rfl (fun _ _ _ starts' _ => startsName_not_digit starts') stops

/-- A mark is not followed by one that would extend it. -/
theorem StartsAlike.stops_mark (line : test '\n' = false)
    (names : ∀ char, test char = true → startsName char = false) (stops : Stops test after) :
    Stops test after' := by
  refine alike.stops line (fun _ char _ starts' _ => ?_) stops
  cases passes : test char with
  | false => rfl
  | true =>
    rw [names char passes] at starts'
    cases starts'

end

/-! ## Pieces -/

/--
A way to cut a text after its first character.  What it takes does not depend
on the rest of the text, as long as that starts alike.
-/
def Reads (cut : List Char → Piece) (first : Char) (rest : List Char) :
    Prop :=
  ∃ more, (cut rest).taken = first :: more ∧ rest = more ++ (cut rest).rest ∧
    ((∀ fault, (cut rest).meaning ≠ .fault fault) → ∀ after, Boundary (cut rest).rest after →
        cut (more ++ after) = ⟨(cut rest).meaning, (cut rest).taken, after⟩)

/-- The characters that close a block comment. -/
def closing : List Char :=
  ['*', '/']

/-- A comment without a closing mark is open. -/
theorem closeComment_eq_none_iff (text : List Char) :
    closeComment text = none ↔ ¬ closing <:+: text := by
  fun_induction closeComment text with
  | case1 rest =>
    have found : closing <:+: '*' :: '/' :: rest := ⟨[], rest, rfl⟩
    simp [found]
  | case2 char rest other ih =>
    have later : ¬ closing <+: char :: rest := by
      rintro ⟨more, same⟩
      cases same
      exact other more rfl rfl
    rw [Option.map_eq_none_iff, ih, infix_cons_iff, not_or]
    exact (and_iff_right later).symm
  | case3 =>
    have absent : ¬ closing <:+: [] := by
      intro found
      exact absurd found.length_le (by decide)
    simp [absent]

theorem ne_slash_of_first (first : ¬ closing <+: char :: (comment ++ ['*'])) (more : List Char)
    (star : char = '*') : comment ++ closing ++ rest ≠ '/' :: more := by
  intro same
  apply first
  cases comment with
  | nil => cases same
  | cons next comment =>
    cases star
    cases same
    exact ⟨comment ++ ['*'], rfl⟩

/-- A comment is closed by the first `*/` after its start. -/
theorem closeComment_of_first (first : ¬ closing <:+: comment ++ ['*']) (rest : List Char) :
    closeComment (comment ++ closing ++ rest) = some (comment ++ closing, rest) := by
  induction comment with
  | nil => rfl
  | cons char comment ih =>
    rw [cons_append, infix_cons_iff, not_or] at first
    rw [cons_append, cons_append, closeComment, ih first.2]
    · rfl
    · exact ne_slash_of_first first.1

/-- A comment is closed at the first closing mark. -/
theorem exists_of_closeComment {taken : List Char}
    (closed : closeComment text = some (taken, after)) :
    ∃ comment, taken = comment ++ closing ∧ text = taken ++ after ∧
      ¬ closing <:+: comment ++ ['*'] := by
  fun_induction closeComment text generalizing taken with
  | case1 rest =>
    cases closed
    refine ⟨[], rfl, rfl, ?_⟩
    intro found
    exact absurd found.length_le (by decide)
  | case2 char rest other ih =>
    rcases Option.map_eq_some_iff.mp closed with ⟨⟨before, afterwards⟩, found, same⟩
    cases same
    rcases ih found with ⟨comment, rfl, rfl, first⟩
    refine ⟨char :: comment, rfl, rfl, ?_⟩
    rw [cons_append, infix_cons_iff, not_or]
    refine ⟨?_, first⟩
    rintro ⟨more, same⟩
    cases comment with
    | nil => cases same
    | cons next comment =>
      cases same
      exact other _ rfl rfl
  | case3 => cases closed

theorem slashPiece_of_stops (stops : Stops (fun next => next == '/' || next == '*') rest) :
    slashPiece rest = ⟨.token (.punctuator .slash), ['/'], rest⟩ := by
  unfold slashPiece
  split
  · cases stops_cons.mp stops
  · cases stops_cons.mp stops
  · rfl

/-- A slash is followed by at most one more mark of a comment. -/
theorem slashPiece_reads (rest : List Char) : Reads slashPiece '/' rest := by
  unfold Reads
  fun_cases slashPiece rest with
  | case1 text comment =>
    refine ⟨'/' :: comment, rfl, ?_, ?_⟩
    · rw [cons_append, takeWhile_append_dropWhile]
    · intro _ after boundary
      have passes : ∀ char ∈ comment, (char != '\n') = true :=
        fun _ => mem_takeWhile_imp
      have stops : Stops (· != '\n') after := by
        refine boundary.starts.stops rfl ?_ (stops_dropWhile _ text)
        intro char _ starts _ ends
        rw [bne_eq_false_iff_eq] at ends
        subst ends
        cases starts
      rw [cons_append, slashPiece, takeWhile_run passes stops, dropWhile_run passes stops]
  | case2 text comment afterwards closed =>
    rcases exists_of_closeComment closed with ⟨inside, rfl, rfl, first⟩
    refine ⟨'*' :: (inside ++ closing), rfl, rfl, ?_⟩
    intro _ after _
    rw [cons_append, slashPiece, closeComment_of_first first after]
  | case3 text unclosed =>
    refine ⟨'*' :: text, rfl, (append_nil _).symm, ?_⟩
    intro sound
    exact absurd rfl (sound _)
  | case4 rest notLine notBlock =>
    refine ⟨[], rfl, rfl, ?_⟩
    intro _ after boundary
    refine slashPiece_of_stops (boundary.starts.stops_mark rfl ?_ ?_)
    · intro char passes
      rw [Bool.or_eq_true, beq_iff_eq, beq_iff_eq] at passes
      rcases passes with rfl | rfl <;> rfl
    · intro char head
      cases rest with
      | nil => cases head
      | cons next rest =>
        cases head
        rw [Bool.or_eq_false_iff, beq_eq_false_iff_ne, beq_eq_false_iff_ne]
        exact ⟨fun same => notLine rest (by rw [same]), fun same => notBlock rest (by rw [same])⟩

theorem stringPiece_reads (rest : List Char) : Reads stringPiece '"' rest := by
  unfold Reads
  have passes : ∀ char ∈ rest.takeWhile (· != '"'),
      (char != '"') = true := fun _ => mem_takeWhile_imp
  have whole : rest.takeWhile (· != '"') ++ rest.dropWhile (· != '"') = rest :=
    takeWhile_append_dropWhile
  cases closing : rest.dropWhile (· != '"') with
  | nil =>
    simp only [stringPiece, closing]
    exact ⟨rest, rfl, (append_nil _).symm, fun sound => absurd rfl (sound _)⟩
  | cons quote after =>
    rw [closing] at whole
    simp only [stringPiece, closing]
    refine ⟨rest.takeWhile (· != '"') ++ [quote], rfl, ?_, ?_⟩
    · rw [append_assoc]
      exact whole.symm
    · intro _ other _
      have stops : Stops (· != '"') (quote :: other) := by
        have stopped := stops_dropWhile (· != '"') rest
        rw [closing, stops_cons] at stopped
        exact stops_cons.mpr stopped
      simp [takeWhile_run passes stops, dropWhile_run passes stops]

/-- How a text goes on behind the first digit of a number. -/
inductive NumberTail : List Char → Prop where
  /-- Digits, where no fraction follows. -/
  | whole {digits after : List Char} (passes : ∀ character ∈ digits, character.isDigit = true)
      (stops : Stops isDigit after)
      (unpointed : ∀ text, after = '.' :: text → Stops isDigit text) :
      NumberTail (digits ++ after)
  | fraction {digits fraction after : List Char} {digit : Char}
      (passes : ∀ character ∈ digits, character.isDigit = true)
      (fractional : ∀ character ∈ digit :: fraction, character.isDigit = true)
      (stops : Stops isDigit after) :
      NumberTail (digits ++ '.' :: ((digit :: fraction) ++ after))

/-- How a number goes on is told by two characters. -/
theorem numberTail (rest : List Char) : NumberTail rest := by
  have passes : ∀ char ∈ rest.takeWhile isDigit,
      char.isDigit = true := fun _ => mem_takeWhile_imp
  have stops := stops_dropWhile isDigit rest
  have parted : rest.takeWhile isDigit ++ rest.dropWhile isDigit =
      rest := takeWhile_append_dropWhile
  generalize rest.takeWhile isDigit = digits at passes parted
  generalize rest.dropWhile isDigit = ahead at stops parted
  subst parted
  by_cases unpointed : ∀ text, ahead = '.' :: text → Stops isDigit text
  · exact .whole passes stops unpointed
  · simp only [not_forall] at unpointed
    rcases unpointed with ⟨text, rfl, digit⟩
    have fractional : ∀ char ∈ text.takeWhile isDigit,
        char.isDigit = true := fun _ => mem_takeWhile_imp
    have ends := stops_dropWhile isDigit text
    have parted : text.takeWhile isDigit ++
        text.dropWhile isDigit = text := takeWhile_append_dropWhile
    cases fraction : text.takeWhile isDigit with
    | nil =>
      rw [fraction, nil_append] at parted
      rw [parted] at ends
      exact absurd ends digit
    | cons lead others =>
      rw [fraction] at fractional parted
      rw [← parted]
      exact .fraction passes fractional ends

/-- A number without a fraction ends where no digit follows. -/
theorem numberPiece_whole {digits : List Char} (passes : ∀ char ∈ digits, char.isDigit = true)
    (stops : Stops isDigit after)
    (unpointed : ∀ text, after = '.' :: text → Stops isDigit text) :
    numberPiece first (digits ++ after) =
      ⟨.token (.number (Numeral.ofDecimal (digitsValue (first :: digits)) 0)),
        first :: digits, after⟩ := by
  unfold numberPiece
  simp only [takeWhile_run passes stops, dropWhile_run passes stops]
  split
  · next text =>
    rw [takeWhile_of_stops (unpointed text rfl)]
    rfl
  · rfl

/-- A number with a fraction ends where no digit follows it. -/
theorem numberPiece_fraction {digit : Char} {digits fraction : List Char}
    (passes : ∀ char ∈ digits, char.isDigit = true)
    (fractional : ∀ char ∈ digit :: fraction, char.isDigit = true)
    (stops : Stops isDigit after) :
    numberPiece first (digits ++ '.' :: ((digit :: fraction) ++ after)) =
      ⟨.token (.number (Numeral.ofDecimal (digitsValue ((first :: digits) ++ digit :: fraction))
          (digit :: fraction).length)), (first :: digits) ++ '.' :: digit :: fraction, after⟩ := by
  have point : Stops isDigit ('.' :: ((digit :: fraction) ++ after)) := stops_cons.mpr rfl
  unfold numberPiece
  simp only [takeWhile_run passes point, dropWhile_run passes point,
    takeWhile_run fractional stops, dropWhile_run fractional stops]
  rfl

theorem numberPiece_reads (first : Char) (rest : List Char) :
    Reads (numberPiece first) first rest := by
  unfold Reads
  cases numberTail rest with
  | @whole digits after passes stops unpointed =>
    rw [numberPiece_whole passes stops unpointed]
    refine ⟨digits, rfl, rfl, ?_⟩
    intro _ after' boundary
    refine numberPiece_whole passes (boundary.starts.stops_digit stops) ?_
    rintro text' rfl
    cases boundary.starts with
    | same _ text _ => exact (boundary.point text text' rfl rfl).stops_digit (unpointed text rfl)
    | name text text' starts starts' => cases starts'
  | @fraction digits fraction after digit passes fractional stops =>
    rw [numberPiece_fraction passes fractional stops]
    refine ⟨digits ++ '.' :: digit :: fraction, rfl, ?_, ?_⟩
    · rw [append_assoc]
      rfl
    · intro _ after' boundary
      rw [append_assoc]
      exact numberPiece_fraction passes fractional (boundary.starts.stops_digit stops)

theorem namePiece_reads (first : Char) (rest : List Char) : Reads (namePiece first) first rest := by
  refine ⟨rest.takeWhile continuesName, rfl, takeWhile_append_dropWhile.symm, ?_⟩
  intro _ after boundary
  have passes : ∀ char ∈ rest.takeWhile continuesName,
      continuesName char = true := fun _ => mem_takeWhile_imp
  have stops : Stops continuesName after := by
    refine boundary.starts.stops rfl ?_ (stops_dropWhile continuesName rest)
    intro char _ starts _ absent
    rw [startsName_continues starts] at absent
    cases absent
  unfold namePiece
  rw [takeWhile_run passes stops, dropWhile_run passes stops]

/-- A mark of one character that nothing extends, or a fault. -/
theorem Reads.single {cut : List Char → Piece} (meaning : Meaning)
    (always : ∀ rest, cut rest = ⟨meaning, [first], rest⟩) (rest : List Char) :
    Reads cut first rest := by
  unfold Reads
  rw [always]
  exact ⟨[], rfl, rfl, fun _ after _ => always after⟩

theorem equalPiece_of_stops {short long : Punctuator} (stops : Stops (· == '=') rest) :
    equalPiece first short long rest = ⟨.token (.punctuator short), [first], rest⟩ := by
  rw [equalPiece]
  rintro text rfl
  cases stops_cons.mp stops

theorem equalPiece_reads (first : Char) (short long : Punctuator)
    (rest : List Char) : Reads (equalPiece first short long) first rest := by
  unfold Reads
  fun_cases equalPiece first short long rest with
  | case1 text => exact ⟨['='], rfl, rfl, fun _ after _ => rfl⟩
  | case2 rest short' =>
    refine ⟨[], rfl, rfl, ?_⟩
    intro _ after boundary
    have stops : Stops (· == '=') after := by
      refine boundary.starts.stops_mark rfl ?_ ?_
      · intro char passes
        rw [beq_iff_eq] at passes
        subst passes
        rfl
      · intro char head
        cases rest with
        | nil => cases head
        | cons next rest =>
          cases head
          rw [beq_eq_false_iff_ne]
          exact fun same => short' rest (by rw [same])
    exact equalPiece_of_stops stops

theorem markPiece_reads (first : Char) (rest : List Char) : Reads (markPiece first) first rest := by
  cases single : Punctuator.ofChar? first with
  | some mark =>
    exact .single (.token (.punctuator mark)) (fun rest => by simp only [markPiece, single]) rest
  | none =>
    cases double : Punctuator.withEqual? first with
    | none =>
      exact .single (.fault (.unexpectedCharacter first))
        (fun rest => by simp only [markPiece, single, double]) rest
    | some pair =>
      have cut : markPiece first = equalPiece first pair.1 pair.2 := by
        funext rest
        simp only [markPiece, single, double]
      rw [cut]
      exact equalPiece_reads first pair.1 pair.2 rest

theorem piece_eq (first : Char) : piece first =
      if isBlank first then fun rest => ⟨.blank, [first], rest⟩
      else if first == '/' then slashPiece
      else if first == '"' then stringPiece
      else if first.isDigit then numberPiece first
      else if startsName first then namePiece first
      else markPiece first := by
  funext rest
  unfold piece
  split_ifs <;> rfl

/-- A first character that is in none of the first three places. -/
theorem piece_of_passes (fails : [' ', '\r', '\t', '\n', '/', '"'].any test = false)
    (passes : test first = true) :
    piece first = if first.isDigit then numberPiece first
      else if startsName first then namePiece first
      else markPiece first := by
  have other : ∀ char ∈ [' ', '\r', '\t', '\n', '/', '"'], (first == char) = false := by
    intro char among
    rw [beq_eq_false_iff_ne]
    rintro rfl
    exact any_eq_false.mp fails _ among passes
  simp only [forall_mem_cons] at other
  simp [piece_eq, isBlank, other]

theorem piece_of_isDigit (digit : first.isDigit = true) : piece first = numberPiece first := by
  rw [piece_of_passes (by decide) digit, if_pos digit]

theorem piece_of_startsName (starts : startsName first = true) : piece first = namePiece first := by
  rw [piece_of_passes (by decide) starts, if_pos starts]
  simp [startsName_not_digit starts]

/-- Every piece of a text reads the same in other surroundings. -/
theorem piece_reads (first : Char) (rest : List Char) : Reads (piece first) first rest := by
  rw [piece_eq]
  split_ifs with blank slash quote
  · exact .single .blank (fun _ => rfl) rest
  · rw [beq_iff_eq.mp slash]
    exact slashPiece_reads rest
  · rw [beq_iff_eq.mp quote]
    exact stringPiece_reads rest
  · exact numberPiece_reads first rest
  · exact namePiece_reads first rest
  · exact markPiece_reads first rest

/-- A piece and what follows it are the text. -/
theorem piece_append (first : Char) (rest : List Char) :
    (piece first rest).taken ++ (piece first rest).rest = first :: rest := by
  rcases piece_reads first rest with ⟨more, taken, same, _⟩
  rw [taken, cons_append, ← same]

/-! ## Parts -/

/-- A piece of a text, apart from what follows it. -/
structure Part where
  meaning : Meaning
  taken : List Char
deriving DecidableEq, Repr

/-- The text of parts. -/
def written (parts : List Part) : List Char :=
  parts.flatMap Part.taken

/-- The parts of a text; as many as it has characters are enough. -/
def cutAll : Nat → List Char → List Part
  | pieces + 1, first :: rest =>
    let front := piece first rest
    ⟨front.meaning, front.taken⟩ :: cutAll pieces front.rest
  | _, _ => []

/-- The parts that a text is cut into. -/
inductive Cut : List Char → List Part → Prop where
  | nil : Cut [] []
  | cons {first rest meaning taken after parts} (front : piece first rest = ⟨meaning, taken, after⟩)
      (others : Cut after parts) :
      Cut (first :: rest) (⟨meaning, taken⟩ :: parts)

theorem length_rest_piece (first : Char) (rest : List Char) :
    (piece first rest).rest.length ≤ rest.length := by
  rcases piece_reads first rest with ⟨more, _, whole, _⟩
  have lengths := congrArg length whole
  rw [length_append] at lengths
  omega

/-- Every text is cut into pieces. -/
theorem cut_cutAll {pieces : Nat} (enough : text.length ≤ pieces) :
    Cut text (cutAll pieces text) := by
  induction pieces generalizing text with
  | zero =>
    cases length_eq_zero_iff.mp (Nat.le_zero.mp enough)
    exact .nil
  | succ pieces ih =>
    cases text with
    | nil => exact .nil
    | cons first rest =>
      have front : piece first rest = ⟨(piece first rest).meaning,
          (piece first rest).taken, (piece first rest).rest⟩ := rfl
      exact .cons front (ih
        (Nat.le_trans (length_rest_piece first rest) (Nat.le_of_succ_le_succ enough)))

variable {parts : List Part}

namespace Cut

variable {text' : List Char} {parts' : List Part}

/-- The parts of a text make up the text. -/
theorem written_eq (cut : Cut text parts) : written parts = text := by
  induction cut with
  | nil => rfl
  | @cons first rest meaning taken after parts front others ih =>
    rcases piece_reads first rest with ⟨more, takes, whole, _⟩
    simp only [front] at takes whole
    rw [written, flatMap_cons, ← written, ih, takes, whole]
    rfl

/-- The parts of a text are determined by it. -/
theorem cutAll_eq (cut : Cut text parts) {pieces : Nat}
    (enough : text.length ≤ pieces) : cutAll pieces text = parts := by
  induction cut generalizing pieces with
  | nil => cases pieces <;> rfl
  | @cons first rest meaning taken after parts front others ih =>
    cases pieces with
    | zero => cases enough
    | succ pieces =>
      have shorter := length_rest_piece first rest
      rw [length_cons] at enough
      simp only [front] at shorter
      simp only [cutAll, front]
      rw [ih (by omega)]

/--
A part stays one in front of another text that is cut already, if that starts
like what was there.
-/
theorem replace {taken after' : List Char} {meaning : Meaning}
    (front : piece first rest = ⟨meaning, taken, after⟩) (sound : ∀ fault, meaning ≠ .fault fault)
    (boundary : Boundary after after') (others : Cut after' parts') :
    Cut (taken ++ after') (⟨meaning, taken⟩ :: parts') := by
  rcases piece_reads first rest with ⟨more, takes, _, further⟩
  simp only [front] at takes further
  subst takes
  exact .cons (further sound after' boundary) others

end Cut

/-- No part is a fault. -/
def Sound (parts : List Part) : Prop :=
  ∀ part ∈ parts, ∀ fault, part.meaning ≠ .fault fault

/-- A text starts like itself with a new line behind it. -/
theorem startsAlike_append (text after : List Char) : StartsAlike text (text ++ '\n' :: after) := by
  cases text with
  | nil => exact .line after
  | cons char text => exact .same char text _

/-- A text that is cut without faults can be followed by another line. -/
theorem Cut.append {text' : List Char} {parts' : List Part} (cut : Cut text parts)
    (sound : Sound parts) (cut' : Cut text' parts') :
    Cut (text ++ '\n' :: text') (parts ++ ⟨.blank, ['\n']⟩ :: parts') := by
  induction cut with
  | nil => exact .cons rfl cut'
  | @cons first rest meaning taken after parts front others ih =>
    have whole : first :: rest = taken ++ after := by
      rcases piece_reads first rest with ⟨more, takes, whole, _⟩
      simp only [front] at takes whole
      rw [takes, whole]
      rfl
    unfold Sound at sound
    rw [forall_mem_cons] at sound
    rw [whole, append_assoc]
    refine .replace front sound.1 ⟨startsAlike_append after text', ?_⟩ (ih sound.2)
    rintro text other rfl same
    rw [cons_append] at same
    cases same
    exact startsAlike_append text text'

/-! ## Tokens -/

/-- The items of parts that start on a given line. -/
def items (line : Nat) : List Part → List Item
  | [] => [.token (endToken line)]
  | part :: parts =>
    let endLine := line + newlines part.taken
    match part.meaning with
    | .blank => items endLine parts
    | .token kind =>
      .token ⟨kind, String.ofList part.taken, endLine⟩ :: items endLine parts
    | .fault fault => .error ⟨endLine, fault⟩ :: items endLine parts

/-- The tokens of parts that start on a given line. -/
def tokens (line : Nat) : List Part → List Token
  | [] => []
  | part :: parts =>
    let endLine := line + newlines part.taken
    match part.meaning with
    | .token kind =>
      ⟨kind, String.ofList part.taken, endLine⟩ :: tokens endLine parts
    | _ => tokens endLine parts

theorem newlines_append (text after : List Char) :
    newlines (text ++ after) = newlines text + newlines after :=
  count_append

/-- The tokens of a text are those of its parts and the end mark. -/
theorem tokens_ofItems (parts : List Part) (line : Nat) :
    (Scanned.ofItems (items line parts)).tokens =
      tokens line parts ++ [endToken (line + newlines (written parts))] := by
  induction parts generalizing line with
  | nil => rfl
  | cons part parts ih =>
    rcases part with ⟨meaning, taken⟩
    have others := ih (line + newlines taken)
    rw [written, flatMap_cons, ← written, newlines_append, ← Nat.add_assoc]
    cases meaning with
    | token kind => simp [items, Scanned.ofItems, others, tokens]
    | _ => exact others

/-- A text is without faults if its parts are. -/
theorem errors_ofItems_iff {line : Nat} :
    (Scanned.ofItems (items line parts)).errors = [] ↔ Sound parts := by
  induction parts generalizing line with
  | nil => exact ⟨fun _ => nofun, fun _ => rfl⟩
  | cons part parts ih =>
    rcases part with ⟨meaning, taken⟩
    unfold Sound
    rw [forall_mem_cons]
    cases meaning with
    | fault fault => exact ⟨nofun, fun sound => absurd rfl (sound.1 fault)⟩
    | _ => exact ih.trans (and_iff_right nofun).symm

/-- The tokens of later parts stand on later lines. -/
theorem tokens_append (line : Nat) (parts parts' : List Part) :
    tokens line (parts ++ parts') = tokens line parts ++
        tokens (line + newlines (written parts)) parts' := by
  induction parts generalizing line with
  | nil => rfl
  | cons part parts ih =>
    rcases part with ⟨meaning, taken⟩
    have others := ih (line + newlines taken)
    rw [written, flatMap_cons, ← written, newlines_append, ← Nat.add_assoc]
    cases meaning with
    | token kind => simp [tokens, others]
    | _ => exact others

/-- A token so many lines below. -/
def lower (shift : Nat) (token : Token) : Token :=
  { token with line := token.line + shift }

theorem tokens_add (line shift : Nat) (parts : List Part) :
    tokens (line + shift) parts = (tokens line parts).map (lower shift) := by
  induction parts generalizing line with
  | nil => rfl
  | cons part parts ih =>
    rcases part with ⟨meaning, taken⟩
    have others := ih (line + newlines taken)
    rw [Nat.add_right_comm] at others
    cases meaning with
    | token kind => simp only [tokens, others, map_cons, lower, Nat.add_right_comm]
    | _ => exact others

end Treewalk.Scan
