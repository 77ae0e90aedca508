import Treewalk.Proofs.CharacterBytes

/-!
# Reading heads between characters

A reading head that stands in front of a character reads the piece that the
characters there make up, and then stands behind that piece.  So it never comes
to rest inside a character, and the items of a text are those of its pieces.
-/

namespace Treewalk.Scan

open List

/-! ## What is ahead of a head -/

namespace Head

section

variable (head : Head)

include head

theorem getElem?_source (index : Nat) : head.source[index]? = head.source.data.toList[index]? := by
  rw [Array.getElem?_toList, getElem?_def, getElem?_def]
  rfl

theorem ahead_eq : head.ahead = head.source.data.toList.drop head.current := by
  rw [ahead, ByteArray.data_extract, Array.toList_extract, extract_eq_take_drop]
  apply take_of_length_le
  simp

theorem peek_eq : head.peek = head.ahead.head?.getD 0 := by
  rw [peek, byteAt, getElem?_source, ahead_eq, head?_drop]

theorem peekNext_eq : head.peekNext = head.ahead.tail.head?.getD 0 := by
  rw [peekNext, byteAt, getElem?_source, ahead_eq, List.tail_drop, head?_drop]

theorem left_eq : head.left = head.ahead.length := by
  simp [left, ahead]

theorem atEnd_eq : head.atEnd = head.ahead.isEmpty := by
  rw [atEnd, ahead_eq, Bool.eq_iff_iff, decide_eq_true_eq, List.isEmpty_iff, List.drop_eq_nil_iff]
  rfl

/-- A head moves by one byte. -/
theorem ahead_advance : head.advance.ahead = head.ahead.tail := by
  rw [ahead_eq, ahead_eq, List.tail_drop]
  rfl

end

/-- A head after the given bytes. -/
def through (head : Head) (bytes : List UInt8) : Head :=
  { head with
    current := head.current + bytes.length
    line := head.line + lineEnds bytes }

@[simp]
theorem through_nil (head : Head) : head.through [] = head :=
  rfl

theorem through_cons (head : Head) (byte : UInt8) (bytes : List UInt8) :
    head.through (byte :: bytes) = (head.advance.turn byte).through bytes := by
  cases ends : letter byte == '\n' <;> simp [through, turn, advance, lineEnds, ends] <;> omega

theorem through_append (head : Head) (bytes more : List UInt8) :
    head.through (bytes ++ more) = (head.through bytes).through more := by
  simp [through, lineEnds, Nat.add_assoc]

variable {head : Head} {rest text : List Char} {test : Char → Bool} {char first : Char}

theorem ahead_through {bytes rest : List UInt8} (reads : head.ahead = bytes ++ rest) :
    (head.through bytes).ahead = rest := by
  rw [ahead_eq] at reads ⊢
  simp only [through]
  rw [← drop_drop, reads, drop_left]

/-- A run of bytes is gone over whole; the zero at the end stops it. -/
theorem skipWhile_eq {test : UInt8 → Bool} (zero : test 0 = false)
    (line : ∀ byte, test byte = true → letter byte ≠ '\n') {bytes : Nat}
    (enough : head.ahead.length ≤ bytes) :
    skipWhile test bytes head = head.through (head.ahead.takeWhile test) := by
  induction bytes generalizing head with
  | zero =>
    have done := eq_nil_of_length_eq_zero (Nat.le_zero.mp enough)
    simp [skipWhile, done]
  | succ bytes ih =>
    rw [skipWhile, peek_eq]
    cases reads : head.ahead with
    | nil => simp [zero]
    | cons byte rest =>
      rw [reads] at enough
      cases passes : test byte with
      | false => simp [passes]
      | true =>
        have later : head.advance.ahead = rest := by
          rw [ahead_advance, reads, tail_cons]
        have shorter : head.advance.ahead.length ≤ bytes := by
          rw [later]
          exact Nat.le_of_succ_le_succ enough
        have run := ih shorter
        rw [later] at run
        rw [takeWhile_cons_of_pos passes, through_cons]
        simp [passes, run, turn, line byte passes]

theorem toQuote_eq {bytes : Nat} (enough : head.ahead.length ≤ bytes) :
    toQuote bytes head = head.through (head.ahead.takeWhile (letter · != '"')) := by
  induction bytes generalizing head with
  | zero =>
    have done := eq_nil_of_length_eq_zero (Nat.le_zero.mp enough)
    simp [toQuote, done]
  | succ bytes ih =>
    rw [toQuote, peek_eq, atEnd_eq]
    cases reads : head.ahead with
    | nil => simp
    | cons byte rest =>
      rw [reads] at enough
      cases passes : letter byte != '"' with
      | false => simp [passes]
      | true =>
        have later : (head.advance.turn byte).ahead = rest := by
          have step : (head.through [byte]).ahead = rest :=
            ahead_through reads
          rwa [through_cons, through_nil] at step
        have shorter : (head.advance.turn byte).ahead.length ≤ bytes := by
          rw [later]
          exact Nat.le_of_succ_le_succ enough
        have run := ih shorter
        rw [later] at run
        simp [passes, through_cons, run]

/-! ## Heads between characters -/

/-- The head stands in front of the given text. -/
structure Reads (head : Head) (text : List Char) : Prop where
  ahead : head.ahead = encode text
  within : head.current ≤ head.source.size

/-- A head after the given characters. -/
def move (head : Head) (taken : List Char) : Head :=
  head.through (encode taken)

/-- A head moves over a text in two parts. -/
theorem move_append (head : Head) (taken more : List Char) :
    head.move (taken ++ more) = (head.move taken).move more := by
  rw [move, encode_append, through_append]
  rfl

theorem move_cons (head : Head) (char : Char) (more : List Char) :
    head.move (char :: more) = (head.move [char]).move more :=
  move_append head [char] more

theorem current_move (head : Head) (taken : List Char) :
    (head.move taken).current = head.current + (encode taken).length :=
  rfl

theorem line_move (head : Head) (taken : List Char) :
    (head.move taken).line = head.line + newlines taken := by
  rw [← lineEnds_encode]
  rfl

theorem size_of_reads (reads : head.Reads text) :
    head.source.size = head.current + (encode text).length := by
  rw [← reads.ahead, ← left_eq, left]
  have := reads.within
  omega

variable {head : Head} {rest text : List Char}

/-- A head that moves over characters reads what is behind them. -/
theorem Reads.move {taken : List Char} (reads : head.Reads (taken ++ rest)) :
    (head.move taken).Reads rest where
  ahead := by
    apply ahead_through
    rw [reads.ahead, encode_append]
  within := by
    have size := size_of_reads reads
    rw [encode_append, length_append] at size
    simp only [Head.move, through]
    omega

theorem Reads.atEnd (reads : head.Reads text) : head.atEnd = text.isEmpty := by
  rw [atEnd_eq, reads.ahead]
  cases text with
  | nil => rfl
  | cons char text =>
    rw [encode_cons]
    simp [String.utf8EncodeChar_ne_nil]

section

variable (reads : head.Reads (char :: rest)) (short : char.toNat < 0x80)

include reads short

/-- A character of one byte is seen as it is. -/
theorem Reads.letter_peek : letter head.peek = char := by
  rcases utf8EncodeChar_cases char with ⟨_, byte, written, same⟩ | ⟨beyond, _⟩
  · rw [peek_eq, reads.ahead, encode_cons, written]
    exact same
  · omega

theorem Reads.advance : head.advance.turn head.peek = head.move [char] := by
  rcases utf8EncodeChar_cases char with ⟨_, byte, written, same⟩ | ⟨beyond, _⟩
  · rw [peek_eq, reads.ahead, encode_cons, written, Head.move, encode_cons,
      written, encode_nil, append_nil, through_cons]
    rfl
  · omega

theorem Reads.advance_of_ne (same : char ≠ '\n') : head.advance = head.move [char] := by
  rw [← reads.advance short, turn, reads.letter_peek short]
  simp [same]

end

theorem Reads.test_first (reads : head.Reads (first :: rest)) (bytewise : Bytewise test) :
    test (letter head.peek) = test first := by
  rw [peek_eq, reads.ahead, encode_cons]
  cases written : String.utf8EncodeChar first with
  | nil => exact absurd written String.utf8EncodeChar_ne_nil
  | cons byte more => exact bytewise first byte (by simp [written])

/-- Testing the next byte is testing the next character. -/
theorem Reads.test_peek (reads : head.Reads text) (bytewise : Bytewise test)
    (zero : test (letter 0) = false) : test (letter head.peek) = text.head?.any test := by
  cases text with
  | nil =>
    rw [peek_eq, reads.ahead]
    exact zero
  | cons char text => exact reads.test_first bytewise

theorem Reads.test_peekNext (reads : head.Reads (char :: rest)) (short : char.toNat < 0x80)
    (bytewise : Bytewise test) (zero : test (letter 0) = false) :
    test (letter head.peekNext) = rest.head?.any test := by
  have moved : (head.move [char]).Reads rest := Reads.move reads
  rw [← moved.test_peek bytewise zero, peekNext_eq, peek_eq, moved.ahead, reads.ahead, encode_cons]
  rcases utf8EncodeChar_cases char with ⟨_, byte, written, _⟩ | ⟨beyond, _⟩
  · rw [written]
    rfl
  · omega

/-- Skipping bytes is skipping characters. -/
theorem Reads.skipWhile (reads : head.Reads text) {test : Char → Bool} (bytewise : Bytewise test)
    (zero : test (letter 0) = false) (line : test '\n' = false) :
    skipWhile (fun byte => test (letter byte)) head.left head =
      head.move (text.takeWhile test) := by
  rw [left_eq, skipWhile_eq zero _ (Nat.le_refl _), reads.ahead, bytewise.takeWhile]
  · rfl
  · intro byte passes same
    rw [same, line] at passes
    cases passes

/-- The text between two indices on either side of it. -/
theorem slice?_eq {first last : Nat} (text after : List Char)
    (reads : head.source.data.toList.drop first = encode (text ++ after))
    (ends : last = first + (encode text).length) :
    head.slice? first last = some (String.ofList text) := by
  have bytes : head.source.extract first last = (String.ofList text).toByteArray := by
    rw [String.toByteArray_ofList]
    apply ByteArray.ext
    apply Array.toList_inj.mp
    rw [ByteArray.data_extract, Array.toList_extract,
      extract_eq_take_drop, reads, ends, encode_append]
    simp [utf8Encode, encode]
  rw [slice?, bytes]
  unfold String.fromUTF8?
  rw [dif_pos (String.ofList text).isValidUTF8]
  rfl

/-- The lexeme in hand is what was taken since the head began. -/
theorem Reads.lexeme_move {taken : List Char} (reads : head.Reads (taken ++ rest))
    (starts : head.start = head.current) : (head.move taken).lexeme = String.ofList taken := by
  have same : (head.move taken).slice? head.start (head.move taken).current =
      some (String.ofList taken) := by
    apply slice?_eq taken rest
    · rw [starts, ← reads.ahead, ahead_eq]
      rfl
    · rw [starts]
      rfl
  rw [lexeme, slice]
  exact congrArg (Option.getD · "") same

theorem Reads.accept {expected : Char} (reads : head.Reads (expected :: rest))
    (short : expected.toNat < 0x80) (same : expected ≠ '\n') :
    head.accept? expected = some (head.move [expected]) := by
  have seen := reads.letter_peek short
  rw [accept?, reads.atEnd, seen, reads.advance_of_ne short same]
  simp

theorem Reads.refuse {expected : Char} (reads : head.Reads text) (short : expected.toNat < 0x80)
    (other : ∀ rest, text ≠ expected :: rest) : head.accept? expected = none := by
  rw [accept?, reads.atEnd]
  cases text with
  | nil => rfl
  | cons next rest =>
    have seen : (letter head.peek == expected) = (next == expected) :=
      reads.test_first (Bytewise.beq short)
    have different : next ≠ expected := by
      rintro rfl
      exact other rest rfl
    simp [seen, different]

/-! ## Lexemes -/

theorem Reads.lineComment (reads : head.Reads text) :
    head.lineComment = (.blank, head.move (text.takeWhile (· != '\n'))) := by
  have bytes : (head.ahead.findIdx? (letter · == '\n')).getD
      head.ahead.length = (encode (text.takeWhile (· != '\n'))).length := by
    rw [findIdx?_getD_length, reads.ahead, (Bytewise.beq (by decide)).not.takeWhile]
    rfl
  have lines : newlines (text.takeWhile (· != '\n')) = 0 := by
    apply count_eq_zero.mpr
    intro among
    have passes := mem_takeWhile_imp among
    simp at passes
  have size := size_of_reads reads
  rw [← reads.ahead] at size
  unfold Head.lineComment Head.move through
  rw [lineEnds_encode, lines, ← bytes]
  cases found : head.ahead.findIdx? (letter · == '\n') with
  | none => simp [size]
  | some dist => simp

/-- A comment is read up to where it is closed. -/
theorem Reads.blockComment (reads : head.Reads text) :
    head.blockComment = match closeComment text with
      | some (inside, _) => (.blank, head.move inside)
      | none => (.fault .unterminatedComment, head.move text) := by
  unfold Head.blockComment
  rw [reads.ahead]
  cases closed : closeComment text with
  | none =>
    have unclosed := (closeComment_eq_none_iff text).mp closed
    simp only [findPair?_of_open unclosed, Head.move, through, size_of_reads reads]
  | some found =>
    rcases found with ⟨taken, after⟩
    rcases exists_of_closeComment closed with ⟨comment, rfl, rfl, first⟩
    have bytes : encode closing = [42, 47] := rfl
    have lines : lineEnds (encode comment ++ [42, 47]) = lineEnds (encode comment) := by
      rw [lineEnds, countP_append]
      rfl
    simp only [findPair?_of_first first, Head.move, through]
    rw [append_assoc, encode_append, take_left, encode_append,
      bytes, lines, length_append, Nat.add_assoc]
    rfl

theorem Reads.slash (reads : head.Reads ('/' :: rest)) :
    (head.move ['/']).slash = ((slashPiece rest).meaning, head.move (slashPiece rest).taken) := by
  have inside : (head.move ['/']).Reads rest := Reads.move reads
  unfold Head.slash
  fun_cases slashPiece rest with
  | case1 after comment =>
    have behind : ((head.move ['/']).move ['/']).Reads after :=
      Reads.move inside
    rw [inside.accept (by decide) (by decide),
      move_cons head '/' ('/' :: comment), move_cons _ '/' comment]
    exact behind.lineComment
  | case2 after comment afterwards closed =>
    have behind : ((head.move ['/']).move ['*']).Reads after :=
      Reads.move inside
    rw [inside.refuse (by decide) (by simp), inside.accept (by decide) (by decide),
      move_cons head '/' ('*' :: comment), move_cons _ '*' comment]
    simp only [behind.blockComment, closed]
  | case3 after unclosed =>
    have behind : ((head.move ['/']).move ['*']).Reads after :=
      Reads.move inside
    rw [inside.refuse (by decide) (by simp), inside.accept (by decide) (by decide),
      move_cons head '/' ('*' :: after), move_cons _ '*' after]
    simp only [behind.blockComment, unclosed]
  | case4 _ noLine noBlock =>
    rw [inside.refuse (by decide) noLine, inside.refuse (by decide) noBlock]

/-- What stands between the quotes. -/
theorem Reads.slice_quoted {after : List Char}
    (reads : head.Reads ('"' :: (text ++ '"' :: after))) :
    (head.move ('"' :: text ++ ['"'])).slice (head.current + 1)
        ((head.move ('"' :: text ++ ['"'])).current - 1) =
      String.ofList text := by
  have inside : (head.move ['"']).Reads (text ++ '"' :: after) :=
    Reads.move reads
  have first : (String.utf8EncodeChar '"').length = 1 := rfl
  have last : (encode ['"']).length = 1 := rfl
  rw [slice, slice?_eq text ('"' :: after)]
  · rfl
  · rw [← inside.ahead, ahead_eq]
    rfl
  · rw [current_move, encode_append, encode_cons, length_append, length_append]
    omega

/-- Behind a quote a head goes to the next one. -/
theorem Reads.toQuote (reads : head.Reads ('"' :: rest)) :
    toQuote (head.move ['"']).left (head.move ['"']) =
      head.move ('"' :: rest.takeWhile (· != '"')) := by
  have inside : (head.move ['"']).Reads rest := Reads.move reads
  rw [left_eq, toQuote_eq (Nat.le_refl _), inside.ahead, move_cons head '"' (rest.takeWhile _)]
  apply congrArg
  exact (Bytewise.beq (by decide)).not.takeWhile rest

/-- A string is read up to its closing quote. -/
theorem Reads.string (reads : head.Reads ('"' :: rest)) (starts : head.start = head.current) :
    (head.move ['"']).string =
      ((stringPiece rest).meaning, head.move (stringPiece rest).taken) := by
  have closing := reads.toQuote
  have all := takeWhile_append_dropWhile (p := (· != '"')) (l := rest)
  have behind : (head.move ('"' :: rest.takeWhile (· != '"'))).Reads
      (rest.dropWhile (· != '"')) := by
    apply Reads.move
    rwa [cons_append, all]
  unfold Head.string
  simp only [closing, behind.atEnd]
  fun_cases stringPiece rest with
  | case1 unclosed =>
    rw [unclosed, append_nil] at all
    rw [unclosed, all]
    rfl
  | case2 text quote after closed =>
    have stops := stops_dropWhile (· != '"') rest
    rw [closed, stops_cons] at stops
    have same : quote = '"' := by simpa using stops
    subst same
    rw [closed] at all behind ⊢
    rw [← all] at reads
    have payload := reads.slice_quoted
    rw [← starts] at payload
    rw [behind.advance_of_ne (by decide) (by decide), ← move_append]
    simp only [isEmpty_cons, Bool.false_eq_true, if_false]
    exact congrArg (fun payload => (Meaning.token (.string payload), _)) payload

theorem numberValue_digits {digits : List Char} (passes : ∀ char ∈ digits, char.isDigit = true) :
    numberValue digits = Numeral.ofDecimal (digitsValue digits) 0 := by
  have alone : Stops Char.isDigit [] := nofun
  have taken := takeWhile_run passes alone
  have dropped := dropWhile_run passes alone
  rw [append_nil] at taken dropped
  simp [numberValue, taken, dropped]

theorem numberValue_point {digits fraction : List Char}
    (passes : ∀ char ∈ digits, char.isDigit = true) :
    numberValue (digits ++ '.' :: fraction) = Numeral.ofDecimal (digitsValue (digits ++ fraction))
        fraction.length := by
  have stops : Stops Char.isDigit ('.' :: fraction) := stops_cons.mpr rfl
  simp [numberValue, takeWhile_run passes stops, dropWhile_run passes stops]

theorem numberPiece_meaning (digit : first.isDigit = true) (rest : List Char) :
    (numberPiece first rest).meaning =
      .token (.number (numberValue (numberPiece first rest).taken)) := by
  cases numberTail rest with
  | whole passes stops unpointed =>
    rw [numberPiece_whole passes stops unpointed,
      numberValue_digits (forall_mem_cons.mpr ⟨digit, passes⟩)]
  | fraction passes fractional stops =>
    rw [numberPiece_fraction passes fractional stops,
      numberValue_point (forall_mem_cons.mpr ⟨digit, passes⟩)]

section

variable {head : Head} {first : Char} {rest : List Char} (reads : head.Reads (first :: rest))

include reads

/-- A number is read up to where its piece ends. -/
theorem Reads.toNumberEnd :
    (head.move [first]).toNumberEnd = head.move (numberPiece first rest).taken := by
  have inside : (head.move [first]).Reads rest := Reads.move reads
  have whole := inside.skipWhile bytewise_isDigit rfl rfl
  unfold Head.toNumberEnd
  simp only [whole]
  cases numberTail rest with
  | @whole digits after passes stops unpointed =>
    have behind : ((head.move [first]).move digits).Reads after :=
      inside.move
    have unmarked : ¬(letter ((head.move [first]).move digits).peek == '.' &&
        (letter ((head.move [first]).move digits).peekNext).isDigit) = true := by
      rw [behind.test_peek (Bytewise.beq (by decide)) rfl]
      rcases after with _ | ⟨next, text⟩
      · simp
      · by_cases point : next = '.'
        · subst point
          rw [behind.test_peekNext (by decide) bytewise_isDigit rfl,
            any_head?_of_stops (unpointed text rfl), Bool.and_false]
          nofun
        · simp [point]
    rw [numberPiece_whole passes stops unpointed, takeWhile_run passes stops,
      if_neg unmarked, move_cons head first digits]
  | @fraction digits fraction after digit passes fractional stops =>
    have point : Stops Char.isDigit ('.' :: ((digit :: fraction) ++ after)) := stops_cons.mpr rfl
    have behind : ((head.move [first]).move digits).Reads
        ('.' :: ((digit :: fraction) ++ after)) := inside.move
    have further : (((head.move [first]).move digits).move ['.']).Reads
        ((digit :: fraction) ++ after) := behind.move
    have lead : digit.isDigit = true := fractional digit (by simp)
    rw [takeWhile_run passes point, behind.letter_peek (by decide),
      behind.test_peekNext (by decide) bytewise_isDigit rfl,
      behind.advance_of_ne (by decide) (by decide),
      further.skipWhile bytewise_isDigit rfl rfl,
      takeWhile_run fractional stops, if_pos (by simpa using lead),
      numberPiece_fraction passes fractional stops, move_append,
      move_cons head first digits, move_cons _ '.' (digit :: fraction)]

theorem Reads.number (starts : head.start = head.current) (digit : first.isDigit = true) :
    (head.move [first]).number =
      ((numberPiece first rest).meaning, head.move (numberPiece first rest).taken) := by
  rcases numberPiece_reads first rest with ⟨more, taken, same, _⟩
  have lexeme : (head.move (numberPiece first rest).taken).lexeme =
      String.ofList (numberPiece first rest).taken := by
    apply Reads.lexeme_move _ starts
    · exact (numberPiece first rest).rest
    · rwa [taken, cons_append, ← same]
  rw [Head.number, numberPiece_meaning digit]
  simp [reads.toNumberEnd, lexeme]

/-- A name is read up to where its piece ends. -/
theorem Reads.name (starts : head.start = head.current) :
    (head.move [first]).name =
      ((namePiece first rest).meaning, head.move (namePiece first rest).taken) := by
  have inside : (head.move [first]).Reads rest := Reads.move reads
  have all := takeWhile_append_dropWhile (p := continuesName) (l := rest)
  rw [← all, ← cons_append] at reads
  unfold Head.name
  simp only [inside.skipWhile bytewise_continuesName rfl rfl, ← move_append,
    singleton_append, reads.lexeme_move starts]
  rfl

theorem Reads.unexpected (starts : head.start = head.current) (same : first ≠ '\n') :
    head.advance.unexpected = (.fault (.unexpectedCharacter first), head.move [first]) := by
  have decoded : head.source.utf8DecodeChar? head.start = some first := by
    have bytes : head.source.extract head.current head.source.size =
        (String.utf8EncodeChar first).toByteArray ++ (encode rest).toByteArray := by
      rw [← toByteArray_append]
      apply ByteArray.ext
      apply Array.toList_inj.mp
      rw [← encode_cons, ← reads.ahead]
      simp [Head.ahead]
    rw [starts, ByteArray.utf8DecodeChar?_eq_utf8DecodeChar?_extract, bytes,
      ByteArray.utf8DecodeChar?_utf8EncodeChar_append]
  have skipped : Head.skipWhile isContinuation head.advance.left
      head.advance = head.move [first] := by
    rcases utf8EncodeChar_eq_cons first with ⟨byte, more, written, start, others⟩
    have ahead : head.advance.ahead = more ++ encode rest := by
      rw [ahead_advance, reads.ahead, encode_cons, written]
      rfl
    rw [left_eq, skipWhile_eq rfl (fun _ => isContinuation_not_line)
      (Nat.le_refl _), ahead, takeWhile_append_of_pos others,
      takeWhile_isContinuation, append_nil, Head.move, encode_cons,
      written, encode_nil, append_nil, through_cons, turn]
    have other : (letter byte == '\n') = false := by
      have seen := Bytewise.beq (show '\n'.toNat < 0x80 by decide) first byte
        (by simp [written])
      simpa [same] using seen
    simp [other]
  rw [Head.unexpected, skipped]
  show (Meaning.fault (.unexpectedCharacter
    ((head.source.utf8DecodeChar? head.start).getD _)), _) = _
  rw [decoded]
  rfl

end

theorem Reads.mark {first : Char} (reads : head.Reads (first :: rest))
    (starts : head.start = head.current) (short : first.toNat < 0x80) (same : first ≠ '\n') :
    head.advance.mark first =
      ((markPiece first rest).meaning, head.move (markPiece first rest).taken) := by
  have inside : (head.move [first]).Reads rest := Reads.move reads
  have step := reads.advance_of_ne short same
  unfold Head.mark markPiece
  cases Punctuator.ofChar? first with
  | some mark => rw [step]
  | none =>
    cases Punctuator.withEqual? first with
    | none => exact reads.unexpected starts same
    | some pair =>
      rcases pair with ⟨one, two⟩
      simp only [step]
      fun_cases equalPiece first one two rest with
      | case1 after =>
        rw [inside.accept (by decide) (by decide),
          move_cons head first ['=']]
      | case2 _ alone => rw [inside.refuse (by decide) alone]

/-- The head reads the piece that is in front of it. -/
theorem Reads.scanToken {first : Char} (reads : head.Reads (first :: rest))
    (starts : head.start = head.current) :
    head.scanToken = ((piece first rest).meaning, head.move (piece first rest).taken) := by
  -- A longer character fails every test, as its first byte does.
  by_cases short : first.toNat < 0x80
  · simp only [Head.scanToken, reads.letter_peek short]
    by_cases line : first = '\n'
    · subst line
      rw [reads.advance short]
      rfl
    have step := reads.advance_of_ne short line
    unfold piece
    split
    · rw [reads.advance short]
    split
    · next slash =>
      rw [beq_iff_eq] at slash
      subst slash
      rw [step]
      exact reads.slash
    split
    · next quote =>
      rw [beq_iff_eq] at quote
      subst quote
      rw [step]
      exact reads.string starts
    split
    · next digit =>
      rw [step]
      exact reads.number starts digit
    split
    · rw [step]
      exact reads.name starts
    · exact reads.mark starts short line
  · have long : 0x80 ≤ first.toNat := Nat.le_of_not_lt short
    have seen : 0x80 ≤ (letter head.peek).toNat := by
      rcases utf8EncodeChar_cases first with ⟨short, _⟩ | ⟨_, byte, more, written, start, _⟩
      · omega
      · rw [toNat_letter, peek_eq, reads.ahead, encode_cons, written]
        exact Nat.le_trans (by decide) start
    have line : first ≠ '\n' := by
      rintro rfl
      exact absurd long (by decide)
    unfold Head.scanToken piece Head.mark markPiece
    simp only [nothing_of_long long, nothing_of_long seen, Bool.false_eq_true, if_false]
    exact reads.unexpected starts line

/-! ## Items -/

theorem Reads.item?_move {piece : Piece} (reads : head.Reads (piece.taken ++ piece.rest))
    (starts : head.start = head.current) :
    (head.move piece.taken).item? piece.meaning = piece.item? (head.move piece.taken).line := by
  have lexeme := reads.lexeme_move starts
  unfold Piece.item?
  cases piece.meaning with
  | blank => rfl
  | token kind => rw [Head.item?, lexeme]
  | fault fault => rfl

/-- The next item is that of the piece in front. -/
theorem Reads.nextWithin_cons (reads : head.Reads (first :: rest)) (lexemes : Nat) :
    ∃ after : Head, after.Reads (piece first rest).rest ∧
      after = { head with start := head.current }.move (piece first rest).taken ∧
      after.line = head.line + newlines (piece first rest).taken ∧ nextWithin (lexemes + 1) head =
        ((piece first rest).item? after.line).elim (nextWithin lexemes after)
          fun item => some (item, after) := by
  have begun : { head with start := head.current }.Reads
      ((piece first rest).taken ++ (piece first rest).rest) := by
    rw [piece_append]
    exact ⟨reads.ahead, reads.within⟩
  have inside : head.current < head.source.size := by
    have size := size_of_reads reads
    have encoded := length_le_encode (first :: rest)
    rw [length_cons] at encoded
    omega
  refine ⟨_, begun.move, rfl, line_move _ _, ?_⟩
  have same := begun.item?_move rfl
  rw [piece_append] at begun
  rw [nextWithin, if_pos inside, begun.scanToken rfl]
  simp only [same]
  cases Piece.item? _ _ with
  | none => rfl
  | some item => rfl

theorem Reads.nextWithin_nil (reads : head.Reads []) (lexemes : Nat) :
    nextWithin (lexemes + 1) head = some (.token (endToken head.line), head.advance) := by
  have size := size_of_reads reads
  rw [encode_nil, length_nil, Nat.add_zero] at size
  rw [nextWithin, if_neg (by omega), if_pos size.symm]

theorem itemsWithin_succ (bound : Nat) (head : Head) :
    itemsWithin (bound + 1) head = (nextWithin (head.left + 1) head).elim []
        fun found => found.1 :: itemsWithin bound found.2 := by
  rw [itemsWithin, next]
  cases nextWithin (head.left + 1) head with
  | none => rfl
  | some found => rfl

theorem itemsWithin_of_past (past : head.source.size < head.current) (bound : Nat) :
    itemsWithin bound head = [] := by
  cases bound with
  | zero => rfl
  | succ bound =>
    rw [itemsWithin_succ, nextWithin, if_neg (by omega), if_neg (by omega)]
    rfl

/-- The items from here on are those of the parts that are ahead. -/
theorem Reads.items_eq {parts : List Part} (cut : Cut text parts) (reads : head.Reads text)
    {lexemes bound : Nat} (enough : text.length < lexemes) (room : text.length ≤ bound) :
    (nextWithin lexemes head).elim [] (fun found => found.1 :: itemsWithin bound found.2) =
      Scan.items head.line parts := by
  -- Every part uses up a lexeme; only one that gives an item uses up the bound.
  induction cut generalizing head lexemes bound with
  | nil =>
    cases lexemes with
    | zero => cases enough
    | succ lexemes =>
      have size := size_of_reads reads
      have past : head.advance.source.size < head.advance.current := by
        rw [encode_nil, length_nil, Nat.add_zero] at size
        simp only [Head.advance]
        omega
      rw [reads.nextWithin_nil]
      exact congrArg (cons _) (itemsWithin_of_past past bound)
  | @cons first rest meaning taken after parts front others ih =>
    have shorter := length_rest_piece first rest
    rw [length_cons] at enough room
    cases lexemes with
    | zero => cases enough
    | succ lexemes =>
      rcases reads.nextWithin_cons lexemes with ⟨behind, further, _, line, found⟩
      simp only [front] at further line found shorter
      have later : itemsWithin bound behind = Scan.items behind.line parts := by
        cases bound with
        | zero => cases room
        | succ bound =>
          rw [itemsWithin_succ]
          refine ih further ?_ (by omega)
          rw [left_eq, further.ahead]
          exact Nat.lt_succ_of_le (length_le_encode after)
      rw [found]
      rw [line] at later ⊢
      cases meaning with
      | blank =>
        have same := ih further (show after.length < lexemes by omega)
          (show after.length ≤ bound by omega)
        rw [line] at same
        exact same
      | token kind | fault fault => exact congrArg (cons _) later

end Head

/-- A head starts in front of the whole text. -/
theorem reads_ofText (text : String) : (Head.ofText text).Reads text.toList where
  ahead := by
    rw [Head.ahead_eq, Head.ofText, String.toUTF8_eq_toByteArray, ← String.utf8Encode_toList]
    simp [utf8Encode, encode]
  within := Nat.zero_le _

section

variable {text : String} {parts : List Part} (cut : Cut text.toList parts)

include cut

/-- The bytes of a text are read as its characters are. -/
theorem Cut.scanItems_eq : scanItems text = items 1 parts := by
  have reads := reads_ofText text
  have enough : text.toList.length ≤ (Head.ofText text).left := by
    rw [Head.left_eq, reads.ahead]
    exact length_le_encode text.toList
  rw [scanItems, Head.items, Head.itemsWithin_succ]
  exact reads.items_eq cut (Nat.lt_succ_of_le enough) enough

/-- The tokens of a text are those of its parts. -/
theorem Cut.tokens_scan :
    (scan text).tokens = tokens 1 parts ++ [endToken (1 + newlines text.toList)] := by
  rw [scan, cut.scanItems_eq, tokens_ofItems, cut.written_eq]

theorem Cut.sound_iff : (scan text).errors = [] ↔ Sound parts := by
  rw [scan, cut.scanItems_eq, errors_ofItems_iff]

/-- A text without faults, in terms of its parts. -/
theorem Cut.scan_eq (sound : Sound parts) :
    scan text = ⟨tokens 1 parts ++ [endToken (1 + newlines text.toList)], []⟩ := by
  rw [← cut.tokens_scan, ← cut.sound_iff.mpr sound]

end

end Treewalk.Scan
