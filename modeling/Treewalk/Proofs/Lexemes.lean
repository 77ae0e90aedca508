import Treewalk.Proofs.ReadingHeads

/-!
# Lexemes

The texts that are tokens: marks, numbers, reserved words, names and strings.
A lexeme in front of nothing or of blank space is read as one token of its kind,
so it has one kind, and what can follow its first character depends on which
class that is in.
-/

namespace Treewalk

open Punctuator

/-- How a mark is written. -/
def Punctuator.spelling : Punctuator → List Char
  | .leftParen => ['(']
  | .rightParen => [')']
  | .leftBrace => ['\x7b']
  | .rightBrace => ['\x7d']
  | .comma => [',']
  | .dot => ['.']
  | .minus => ['-']
  | .plus => ['+']
  | .semicolon => [';']
  | .slash => ['/']
  | .star => ['*']
  | .bang => ['!']
  | .bangEqual => ['!', '=']
  | .equal => ['=']
  | .equalEqual => ['=', '=']
  | .greater => ['>']
  | .greaterEqual => ['>', '=']
  | .less => ['<']
  | .lessEqual => ['<', '=']

variable {more : List Char} {first : Char} {mark : Punctuator}

namespace Scan

/-! ## Lexemes -/

/-- The ten digits. -/
def Digit (character : Char) : Prop :=
  '0' ≤ character ∧ character ≤ '9'

/-- The characters that a name can start with. -/
def Letter (character : Char) : Prop :=
  ('A' ≤ character ∧ character ≤ 'Z') ∨ ('a' ≤ character ∧ character ≤ 'z') ∨ character = '_'

/-- The characters that are skipped. -/
def blanks : List Char :=
  [' ', '\r', '\t', '\n']

/-- The texts that are tokens, each with its kind. -/
inductive Lexeme : TokenKind → List Char → Prop where
  | mark (mark : Punctuator) : Lexeme (.punctuator mark) mark.spelling
  | whole {digits} (nonempty : digits ≠ [])
      (passes : ∀ character ∈ digits, Digit character) :
      Lexeme (.number (Numeral.ofDecimal (digitsValue digits) 0)) digits
  | fraction {digits fraction} (nonempty : digits ≠ [])
      (passes : ∀ character ∈ digits, Digit character) (more : fraction ≠ [])
      (fractional : ∀ character ∈ fraction, Digit character) :
      Lexeme
        (.number (Numeral.ofDecimal (digitsValue (digits ++ fraction)) fraction.length))
        (digits ++ '.' :: fraction)
  /-- A reserved word is no name, and only as a whole. -/
  | reserved (word : Keyword) :
      Lexeme (.keyword word) word.spelling.toList
  | name {first rest} (starts : Letter first)
      (continues : ∀ character ∈ rest, Letter character ∨ Digit character)
      (free : ∀ word : Keyword, word.spelling.toList ≠ first :: rest) :
      Lexeme .identifier (first :: rest)
  | string {inside} (unquoted : '"' ∉ inside) :
      Lexeme (.string (String.ofList inside)) ('"' :: (inside ++ ['"']))

theorem isDigit_iff (char : Char) : char.isDigit = true ↔ Digit char := by
  simp [Char.isDigit, Digit, Char.le_def]

theorem startsName_iff (char : Char) : startsName char = true ↔ Letter char := by
  have upper : char.isUpper = true ↔ 'A' ≤ char ∧ char ≤ 'Z' :=
    decide_eq_true_iff
  have lower : char.isLower = true ↔ 'a' ≤ char ∧ char ≤ 'z' :=
    (Bool.and_eq_true_iff).trans (and_congr decide_eq_true_iff decide_eq_true_iff)
  have letter : char.isAlpha = true ↔ char.isUpper = true ∨ char.isLower = true :=
    Bool.or_eq_true_iff
  rw [startsName, Bool.or_eq_true, beq_iff_eq, letter, upper, lower, Letter, or_assoc]

theorem continuesName_iff (char : Char) : continuesName char = true ↔ Letter char ∨ Digit char := by
  rw [← startsName_iff, ← isDigit_iff, continuesName, startsName, Char.isAlphanum]
  simp only [Bool.or_eq_true, beq_iff_eq]
  exact or_right_comm

theorem isBlank_iff (char : Char) : isBlank char = true ↔ char ∈ blanks := by
  simp only [isBlank, blanks, Bool.or_eq_true, beq_iff_eq, List.mem_cons,
    List.not_mem_nil, or_false, or_assoc]

/-! ## Lexemes by themselves -/

/-- Nothing before the text goes on in it: it is empty or starts blank. -/
def Apart (text : List Char) : Prop :=
  ∀ character ∈ text.head?, character ∈ blanks

theorem Apart.stops {text : List Char} (apart : Apart text)
    {test : Char → Bool} (fails : blanks.any test = false) :
    Stops test text := by
  intro char head
  have failed := List.any_eq_false.mp fails char (apart char head)
  simpa using failed

variable {after taken : List Char} {kind : TokenKind}

/-- A mark is read up to blank space. -/
theorem spelling_before (mark : Punctuator) (apart : Apart after) :
    ∃ first more, mark.spelling = first :: more ∧ piece first (more ++ after) =
        ⟨.token (.punctuator mark), first :: more, after⟩ := by
  cases mark with
  | slash =>
    exact ⟨'/', [], rfl, slashPiece_of_stops (apart.stops (by decide))⟩
  | bang | equal | greater | less =>
    exact ⟨_, [], rfl, equalPiece_of_stops (apart.stops (by decide))⟩
  | _ => exact ⟨_, _, rfl, rfl⟩

theorem spelling_plain (spelled : mark.spelling = first :: more) :
    first.isDigit = false ∧ startsName first = false ∧ first ≠ '"' := by
  cases mark <;> cases spelled <;> decide

theorem keyword_cases (word : Keyword) : ∃ first more, word.spelling.toList = first :: more ∧
      startsName first = true ∧ more.all continuesName = true := by
  cases word <;> exact ⟨_, _, rfl, by decide⟩

/-- The marks are the slash, the other single ones and those with `=`. -/
theorem spelling_shape (spelled : mark.spelling = first :: more) :
    (more = [] ∧ (first = '/' ∨ (ofChar? first).isSome ∨
      (withEqual? first).isSome)) ∨
    (more = ['='] ∧ first ≠ '/' ∧ ofChar? first = none ∧
      (withEqual? first).isSome) := by
  cases mark <;> cases spelled <;> decide

theorem spelling_of_ofChar? (single : ofChar? first = some mark) :
    mark.spelling = [first] := by
  unfold ofChar? at single
  split at single <;> cases single <;> rfl

theorem spelling_of_withEqual? {short long : Punctuator}
    (double : withEqual? first = some (short, long)) :
    short.spelling = [first] ∧ long.spelling = [first, '='] := by
  unfold withEqual? at double
  split at double <;> cases double <;> exact ⟨rfl, rfl⟩

/-- What is behind the first character of a lexeme depends on that. -/
inductive Behind : Char → List Char → Prop where
  | mark {mark : Punctuator} {first : Char} {more : List Char}
      (spelled : mark.spelling = first :: more) : Behind first more
  | whole {first : Char} {more : List Char} (digit : first.isDigit = true)
      (passes : ∀ character ∈ more, character.isDigit = true) :
      Behind first more
  | fraction {first : Char} {more fraction : List Char} (digit : first.isDigit = true)
      (passes : ∀ character ∈ more, character.isDigit = true) (nonempty : fraction ≠ [])
      (fractional : ∀ character ∈ fraction, character.isDigit = true) :
      Behind first (more ++ '.' :: fraction)
  | name {first : Char} {more : List Char} (starts : startsName first = true)
      (continues : ∀ character ∈ more, continuesName character = true) :
      Behind first more
  | string {inside : List Char} (unquoted : '"' ∉ inside) :
      Behind '"' (inside ++ ['"'])

theorem spelling_of_ofSpelling? {text : String} {word : Keyword}
    (reserved : Keyword.ofSpelling? text = some word) : word.spelling = text := by
  have found := List.find?_some reserved
  simpa using found

theorem ofSpelling?_spelling (word : Keyword) : Keyword.ofSpelling? word.spelling = some word := by
  cases word <;> decide

theorem ofSpelling?_of_free {text : String} (free : ∀ word : Keyword, word.spelling ≠ text) :
    Keyword.ofSpelling? text = none := by
  cases found : Keyword.ofSpelling? text with
  | none => rfl
  | some word => exact absurd (spelling_of_ofSpelling? found) (free word)

theorem namePiece_run (continues : ∀ char ∈ more, continuesName char = true)
    (stops : Stops continuesName after) :
    namePiece first (more ++ after) =
      ⟨.token (nameKind (String.ofList (first :: more))), first :: more, after⟩ := by
  unfold namePiece
  rw [takeWhile_run continues stops, dropWhile_run continues stops]
  rfl

/-- A text is a run up to any character that is not in it. -/
theorem passes_of_not_mem {mark : Char} {text : List Char} (absent : mark ∉ text) :
    ∀ char ∈ text, (char != mark) = true := by
  intro char among
  rw [bne_iff_ne]
  rintro rfl
  exact absent among

theorem stringPiece_closed {inside : List Char} (unquoted : '"' ∉ inside) :
    stringPiece (inside ++ '"' :: after) =
      ⟨.token (.string (String.ofList inside)), '"' :: (inside ++ ['"']), after⟩ := by
  have passes := passes_of_not_mem unquoted
  have stops : Stops (· != '"') ('"' :: after) := stops_cons.mpr rfl
  unfold stringPiece
  simp only [takeWhile_run passes stops, dropWhile_run passes stops]
  rfl

/-- A lexeme is one piece wherever it stands apart from what follows. -/
theorem Lexeme.before (lexeme : Lexeme kind taken) (apart : Apart after) :
    ∃ first more, taken = first :: more ∧ Behind first more ∧
      piece first (more ++ after) = ⟨.token kind, taken, after⟩ := by
  have digits : Stops Char.isDigit after := apart.stops (by decide)
  have letters : Stops continuesName after := apart.stops (by decide)
  cases lexeme with
  | mark mark =>
    rcases spelling_before mark apart with ⟨first, more, spelled, read⟩
    exact ⟨first, more, spelled, .mark spelled, spelled ▸ read⟩
  | whole some passes =>
    rcases taken with _ | ⟨first, more⟩
    · exact absurd rfl some
    simp only [← isDigit_iff] at passes
    have ⟨digit, others⟩ := List.forall_mem_cons.mp passes
    refine ⟨first, more, rfl, .whole digit others, ?_⟩
    have unpointed : Stops (· == '.') after := apart.stops (by decide)
    rw [piece_of_isDigit digit, numberPiece_whole others digits]
    rintro text rfl
    cases stops_cons.mp unpointed
  | @fraction run fraction some passes rest fractional =>
    rcases run with _ | ⟨first, more⟩
    · exact absurd rfl some
    rcases fraction with _ | ⟨lead, fraction⟩
    · exact absurd rfl rest
    simp only [← isDigit_iff] at passes fractional
    have ⟨digit, others⟩ := List.forall_mem_cons.mp passes
    refine ⟨first, more ++ '.' :: lead :: fraction, rfl, .fraction digit others rest fractional, ?_⟩
    rw [piece_of_isDigit digit, List.append_assoc, List.cons_append,
      numberPiece_fraction others fractional digits]
  | reserved word =>
    rcases keyword_cases word with ⟨first, more, spelled, starts, continues⟩
    rw [List.all_eq_true] at continues
    refine ⟨first, more, spelled, .name starts continues, ?_⟩
    rw [piece_of_startsName starts, namePiece_run continues letters,
      ← spelled, String.ofList_toList, nameKind, ofSpelling?_spelling]
  | @name first rest starts continues free =>
    rw [← startsName_iff] at starts
    simp only [← continuesName_iff] at continues
    refine ⟨first, rest, rfl, .name starts continues, ?_⟩
    rw [piece_of_startsName starts, namePiece_run continues letters, nameKind,
      ofSpelling?_of_free]
    intro word same
    apply free word
    rw [same, String.toList_ofList]
  | @string inside unquoted =>
    refine ⟨'"', _, rfl, .string unquoted, ?_⟩
    rw [List.append_assoc]
    exact stringPiece_closed unquoted

/-- A lexeme that stands alone is read as a whole. -/
theorem Lexeme.alone (lexeme : Lexeme kind taken) :
    ∃ first more, taken = first :: more ∧ Behind first more ∧
      piece first more = ⟨.token kind, taken, []⟩ := by
  have nothing : Apart [] := nofun
  rcases lexeme.before nothing with ⟨first, more, same, behind, read⟩
  rw [List.append_nil] at read
  exact ⟨first, more, same, behind, read⟩

/-- A lexeme has one kind only. -/
theorem Lexeme.kind_eq {kind' : TokenKind} (lexeme : Lexeme kind taken)
    (lexeme' : Lexeme kind' taken) : kind = kind' := by
  rcases lexeme.alone with ⟨first, more, rfl, _, read⟩
  rcases lexeme'.alone with ⟨first', more', same, _, read'⟩
  cases same
  rw [read] at read'
  cases read'
  rfl

theorem Lexeme.visible (lexeme : Lexeme kind (first :: more)) : first ∉ blanks := by
  intro blank
  rcases lexeme.alone with ⟨_, _, same, _, read⟩
  cases same
  rw [piece_eq, if_pos ((isBlank_iff first).mpr blank)] at read
  cases read

/-- Words and names are lexemes. -/
theorem lexeme_name (starts : startsName first = true)
    (continues : ∀ char ∈ more, continuesName char = true) :
    Lexeme (nameKind (String.ofList (first :: more))) (first :: more) := by
  unfold nameKind
  cases found : Keyword.ofSpelling? (String.ofList (first :: more)) with
  | some word =>
    have spelled := spelling_of_ofSpelling? found
    have reserved := Lexeme.reserved word
    rwa [spelled, String.toList_ofList] at reserved
  | none =>
    refine .name ((startsName_iff first).mp starts) ?_ ?_
    · simpa only [← continuesName_iff] using continues
    · intro word spelled
      rw [← spelled, String.ofList_toList, ofSpelling?_spelling] at found
      cases found

/-! ## Behind the first character -/

/-- Behind a digit there are digits, perhaps with a point. -/
theorem Behind.of_isDigit (behind : Behind first more) (digit : first.isDigit = true) :
    (∀ char ∈ more, char.isDigit = true) ∨
      ∃ digits lead fraction, more = digits ++ '.' :: lead :: fraction ∧
        (∀ char ∈ digits, char.isDigit = true) ∧
        ∀ char ∈ lead :: fraction, char.isDigit = true := by
  cases behind with
  | mark spelled =>
    rw [(spelling_plain spelled).1] at digit
    cases digit
  | whole _ passes => exact .inl passes
  | @fraction _ digits fraction _ passes some fractional =>
    rcases fraction with _ | ⟨lead, fraction⟩
    · exact absurd rfl some
    · exact .inr ⟨digits, lead, fraction, rfl, passes, fractional⟩
  | name starts =>
    rw [startsName_not_digit starts] at digit
    cases digit
  | string => exact absurd digit (by decide)

theorem Behind.of_startsName (behind : Behind first more) (starts : startsName first = true) :
    ∀ char ∈ more, continuesName char = true := by
  cases behind with
  | mark spelled =>
    rw [(spelling_plain spelled).2.1] at starts
    cases starts
  | whole digit | fraction digit =>
    rw [startsName_not_digit starts] at digit
    cases digit
  | name _ continues => exact continues
  | string => exact absurd starts (by decide)

/-- Behind a quote there is a text up to the next one. -/
theorem Behind.of_quote (behind : Behind '"' more) :
    ∃ inside, more = inside ++ ['"'] ∧ '"' ∉ inside := by
  generalize quote : '"' = first at behind
  cases behind with
  | mark spelled => exact absurd quote.symm (spelling_plain spelled).2.2
  | whole digit | fraction digit | name digit =>
    rw [← quote] at digit
    exact absurd digit (by decide)
  | @string inside unquoted => exact ⟨inside, rfl, quote ▸ unquoted⟩

theorem Behind.of_mark (behind : Behind first more) (digit : first.isDigit = false)
    (letter : startsName first = false) (quote : first ≠ '"') :
    ∃ mark : Punctuator, mark.spelling = first :: more := by
  cases behind with
  | @mark mark _ _ spelled => exact ⟨mark, spelled⟩
  | whole passes | fraction passes =>
    rw [digit] at passes
    cases passes
  | name starts =>
    rw [letter] at starts
    cases starts
  | string => exact absurd rfl quote

end Scan

end Treewalk
