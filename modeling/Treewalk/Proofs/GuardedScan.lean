import Treewalk.Proofs.ReadingHeads

/-!
# Reading heads under guard

The same scan with a guard on all that can go wrong in it: a byte is asked for
where there is none, a text is cut out of range or inside a character, or a
loop makes more than `fuel` rounds.  In front of a text none of them happens,
and a guarded head reads what a plain one does.
-/

namespace Treewalk.Scan

open List

/-- Why a guarded head does not go on. -/
inductive Halt where
  /-- An index is out of range or inside a character. -/
  | outside
  /-- The rounds of a loop are used up. -/
  | endless
deriving DecidableEq, Repr

variable {head : Head} {text rest : List Char} {fuel rounds : Nat}

namespace Guarded

/-! ## Guards -/

/-- Go on only if a condition holds. -/
def require (condition : Bool) : Except Halt Unit :=
  if condition then .ok () else .error .outside

/-- The index is at the end of the text or at the first byte of a character. -/
def boundary (head : Head) (index : Nat) : Bool :=
  index == head.source.size ||
    (decide (index < head.source.size) && !isContinuation (head.byteAt index))

/-- Go over the next byte, which has to be there. -/
def advance (head : Head) : Except Halt (UInt8 × Head) :=
  match head.source[head.current]? with
  | some byte => .ok (byte, head.advance)
  | none => .error .outside

/-- The text between two indices, which have to be boundaries in order. -/
def slice (head : Head) (first last : Nat) : Except Halt String := do
  require (decide (first ≤ last))
  require (boundary head first)
  require (boundary head last)
  return head.slice first last

/-- The lexeme in hand. -/
def lexeme (head : Head) : Except Halt String :=
  slice head head.start head.current

/-! ## Lexemes -/

/-- Go over bytes that pass a test. -/
def skipWhile (test : UInt8 → Bool) : Nat → Head → Except Halt Head
  | 0, _ => .error .endless
  | rounds + 1, head =>
    if test head.peek then do
      let (_, after) ← advance head
      skipWhile test rounds after
    else
      .ok head

/-- Go to the next quote, or to the end if there is none. -/
def toQuote : Nat → Head → Except Halt Head
  | 0, _ => .error .endless
  | rounds + 1, head =>
    if !head.atEnd && letter head.peek != '"' then do
      let (byte, after) ← advance head
      toQuote rounds (after.turn byte)
    else
      .ok head

/-- Go to the end of the line; the bytes that are left are looked through. -/
def lineComment (head : Head) : Except Halt (Meaning × Head) := do
  require (decide (head.current ≤ head.source.size))
  return head.lineComment

/--
Go behind the first `*/`; the bytes that are left are looked through, and those
in front of it are counted.
-/
def blockComment (head : Head) : Except Halt (Meaning × Head) := do
  require (decide (head.current ≤ head.source.size))
  require ((findPair? '*' '/' head.ahead).all (· ≤ head.ahead.length))
  return head.blockComment

/-- A comment or the mark, behind a slash. -/
def slash (head : Head) : Except Halt (Meaning × Head) :=
  match head.accept? '/' with
  | some inside => lineComment inside
  | none =>
    match head.accept? '*' with
    | some inside => blockComment inside
    | none => .ok (.token (.punctuator .slash), head)

section

variable (fuel : Nat)

/-- A string, behind its first quote. -/
def string (head : Head) : Except Halt (Meaning × Head) := do
  let closing ← toQuote fuel head
  if closing.atEnd then
    return (.fault .unterminatedString, closing)
  else
    let (_, after) ← advance closing
    let text ← slice after (after.start + 1) (after.current - 1)
    return (.token (.string text), after)

/-- Go over the rest of a number. -/
def toNumberEnd (head : Head) : Except Halt Head := do
  let isDigit (byte : UInt8) := (letter byte).isDigit
  let whole ← skipWhile isDigit fuel head
  if letter whole.peek == '.' && isDigit whole.peekNext then
    let (_, after) ← advance whole
    skipWhile isDigit fuel after
  else
    return whole

/-- A number, behind its first digit. -/
def number (head : Head) : Except Halt (Meaning × Head) := do
  let after ← toNumberEnd fuel head
  let text ← lexeme after
  return (.token (.number (numberValue text.toList)), after)

/-- A reserved word or a name, behind its first letter. -/
def name (head : Head) : Except Halt (Meaning × Head) := do
  let continues (byte : UInt8) := continuesName (letter byte)
  let after ← skipWhile continues fuel head
  let text ← lexeme after
  return (.token (nameKind text), after)

/-- A character that starts nothing, behind its first byte. -/
def unexpected (head : Head) : Except Halt (Meaning × Head) := do
  let after ← skipWhile isContinuation fuel head
  require (boundary head head.start)
  let character := (head.source.utf8DecodeChar? head.start).getD '\uFFFD'
  return (.fault (.unexpectedCharacter character), after)

/-- A mark, or a character that starts nothing, behind its first byte. -/
def mark (head : Head) (first : Char) : Except Halt (Meaning × Head) :=
  match Punctuator.ofChar? first with
  | some mark => .ok (.token (.punctuator mark), head)
  | none =>
    match Punctuator.withEqual? first with
    | some (short, long) =>
      match head.accept? '=' with
      | some after => .ok (.token (.punctuator long), after)
      | none => .ok (.token (.punctuator short), head)
    | none => unexpected fuel head

/-- Read the lexeme at the head. -/
def scanToken (head : Head) : Except Halt (Meaning × Head) := do
  let (byte, after) ← advance head
  let first := letter byte
  if isBlank first then
    return (.blank, after.turn byte)
  else if first == '/' then
    slash after
  else if first == '"' then
    string fuel after
  else if first.isDigit then
    number fuel after
  else if startsName first then
    name fuel after
  else
    mark fuel after first

/-- The item that the lexeme in hand gives rise to. -/
def item? (head : Head) : Meaning → Except Halt (Option Item)
  | .blank => .ok none
  | .token kind => do
      let text ← lexeme head
      return some (.token ⟨kind, text, head.line⟩)
  | .fault fault => .ok (some (.error ⟨head.line, fault⟩))

/-- The next item within so many rounds, and the head behind it. -/
def nextWithin : Nat → Head → Except Halt (Option (Item × Head))
  | 0, _ => .error .endless
  | rounds + 1, head =>
    if head.current < head.source.size then do
      let (meaning, after) ←
        scanToken fuel { head with start := head.current }
      match ← item? after meaning with
      | some item => return some (item, after)
      | none => nextWithin rounds after
    else if head.current = head.source.size then
      .ok (some (.token (endToken head.line), head.advance))
    else
      .ok none

/-- The next item, and the head behind it. -/
def next (head : Head) : Except Halt (Option (Item × Head)) :=
  nextWithin fuel fuel head

end

/-! ## Guards that pass -/

theorem advance_eq (nonempty : head.ahead ≠ []) : advance head = .ok (head.peek, head.advance) := by
  rw [advance, Head.peek, Head.byteAt]
  rw [Head.ahead_eq, Ne, drop_eq_nil_iff, Nat.not_le] at nonempty
  rw [Head.getElem?_source, getElem?_eq_getElem nonempty]
  rfl

/-- A head that reads a text stands between characters. -/
theorem boundary_of_reads (reads : head.Reads text) : boundary head head.current = true := by
  have size := Head.size_of_reads reads
  cases text with
  | nil =>
    rw [encode_nil, length_nil, Nat.add_zero] at size
    simp [boundary, size]
  | cons first rest =>
    rcases utf8EncodeChar_eq_cons first with ⟨byte, more, written, start, _⟩
    have seen : head.byteAt head.current = byte := by
      rw [← Head.peek, Head.peek_eq, reads.ahead, encode_cons, written]
      rfl
    have inside : head.current < head.source.size := by
      rw [encode_cons, written] at size
      simp only [cons_append, length_cons] at size
      omega
    simp [boundary, seen, start, inside]

/-- A text that is cut between characters is cut as before. -/
theorem slice_eq {first last : Nat} (ordered : first ≤ last) (starts : boundary head first = true)
    (ends : boundary head last = true) : slice head first last = .ok (head.slice first last) := by
  rw [slice, decide_eq_true ordered, starts, ends]
  rfl

/-- What was read since the head began can be cut out. -/
theorem lexeme_move {taken : List Char} (reads : head.Reads (taken ++ rest))
    (starts : head.start = head.current) :
    lexeme (head.move taken) = .ok (head.move taken).lexeme := by
  have ordered : (head.move taken).start ≤ (head.move taken).current := by
    show head.start ≤ head.current + _
    omega
  have first : boundary (head.move taken) (head.move taken).start = true := by
    have begins := boundary_of_reads reads
    rw [← starts] at begins
    exact begins
  exact slice_eq ordered first (boundary_of_reads reads.move)

/-- With enough rounds the guard on skipping is not met. -/
theorem skipWhile_eq {test : UInt8 → Bool} (zero : test 0 = false)
    (enough : head.ahead.length ≤ rounds) :
    skipWhile test (rounds + 1) head = .ok (Head.skipWhile test rounds head) := by
  induction rounds generalizing head with
  | zero =>
    have done := eq_nil_of_length_eq_zero (Nat.le_zero.mp enough)
    have stops : test head.peek = false := by
      rw [Head.peek_eq, done]
      exact zero
    rw [skipWhile, stops]
    rfl
  | succ rounds ih =>
    rw [skipWhile, Head.skipWhile]
    cases passes : test head.peek with
    | false => rfl
    | true =>
      have nonempty : head.ahead ≠ [] := by
        intro done
        rw [Head.peek_eq, done] at passes
        exact absurd passes (Bool.eq_false_iff.mp zero)
      have shorter : head.advance.ahead.length ≤ rounds := by
        rw [Head.ahead_advance, length_tail]
        omega
      rw [advance_eq nonempty]
      exact ih shorter

theorem toQuote_eq (enough : head.ahead.length ≤ rounds) :
    toQuote (rounds + 1) head = .ok (Head.toQuote rounds head) := by
  induction rounds generalizing head with
  | zero =>
    have done := eq_nil_of_length_eq_zero (Nat.le_zero.mp enough)
    rw [toQuote, Head.atEnd_eq, done]
    rfl
  | succ rounds ih =>
    rw [toQuote, Head.toQuote]
    cases passes : !head.atEnd && letter head.peek != '"' with
    | false => rfl
    | true =>
      have nonempty : head.ahead ≠ [] := by
        intro done
        rw [Head.atEnd_eq, done] at passes
        cases passes
      have later : (head.advance.turn head.peek).ahead = head.ahead.tail := by
        rw [← Head.ahead_advance, Head.ahead_eq, Head.ahead_eq, Head.turn]
        split <;> rfl
      have shorter : (head.advance.turn head.peek).ahead.length ≤ rounds := by
        rw [later, length_tail]
        omega
      rw [advance_eq nonempty]
      exact ih shorter

/-- Rounds beyond the bytes that are left are not made. -/
theorem skipWhile_left {test : UInt8 → Bool} (zero : test 0 = false)
    (line : ∀ byte, test byte = true → letter byte ≠ '\n') (enough : head.ahead.length < fuel) :
    skipWhile test fuel head = .ok (Head.skipWhile test head.left head) := by
  cases fuel with
  | zero => cases enough
  | succ rounds =>
    have room := Nat.le_of_lt_succ enough
    rw [skipWhile_eq zero room, Head.skipWhile_eq zero line room,
      Head.left_eq, Head.skipWhile_eq zero line (Nat.le_refl _)]

theorem toQuote_left (enough : head.ahead.length < fuel) :
    toQuote fuel head = .ok (Head.toQuote head.left head) := by
  cases fuel with
  | zero => cases enough
  | succ rounds =>
    have room := Nat.le_of_lt_succ enough
    rw [toQuote_eq room, Head.toQuote_eq room, Head.left_eq, Head.toQuote_eq (Nat.le_refl _)]

/-! ## Lexemes under guard -/

theorem findPair?_le {left right : Char} {bytes : List UInt8} {index : Nat}
    (found : findPair? left right bytes = some index) : index ≤ bytes.length := by
  fun_induction findPair? left right bytes generalizing index with
  | case1 first second rest here =>
    cases found
    exact Nat.zero_le _
  | case2 first second rest later ih =>
    rcases Option.map_eq_some_iff.mp found with ⟨further, there, rfl⟩
    exact Nat.succ_le_succ (ih there)
  | case3 => cases found

/-- No guard is met in a comment. -/
theorem blockComment_eq (within : head.current ≤ head.source.size) :
    blockComment head = .ok head.blockComment := by
  have inside : (findPair? '*' '/' head.ahead).all (· ≤ head.ahead.length) = true := by
    cases found : findPair? '*' '/' head.ahead with
    | none => rfl
    | some index => exact decide_eq_true (findPair?_le found)
  rw [blockComment, decide_eq_true within, inside]
  rfl

theorem slash_eq (head : Head) : slash head = .ok head.slash := by
  have within {expected : Char} {inside : Head} (accepted : head.accept? expected = some inside) :
      inside.current ≤ inside.source.size := by
    rw [Head.accept?, Head.atEnd] at accepted
    split at accepted
    · next passes =>
      cases accepted
      simp only [Bool.and_eq_true, Bool.not_eq_true', decide_eq_false_iff_not] at passes
      simp only [Head.advance]
      omega
    · cases accepted
  unfold slash Head.slash
  cases line : head.accept? '/' with
  | some inside =>
    simp only [lineComment, decide_eq_true (within line)]
    rfl
  | none =>
    cases block : head.accept? '*' with
    | some inside => exact blockComment_eq (within block)
    | none => rfl

section

variable {first : Char}

/-- No guard is met in a string. -/
theorem string_eq (reads : head.Reads ('"' :: rest)) (starts : head.start = head.current)
    (enough : head.ahead.length ≤ fuel) :
    string fuel (head.move ['"']) = .ok (head.move ['"']).string := by
  have inside : (head.move ['"']).Reads rest := Head.Reads.move reads
  have shorter : (head.move ['"']).ahead.length < fuel := by
    rw [reads.ahead, encode_cons, length_append, String.length_utf8EncodeChar] at enough
    rw [inside.ahead]
    exact Nat.lt_of_lt_of_le (Nat.lt_add_of_pos_left (by decide)) enough
  have closes : (head.move ('"' :: rest.takeWhile (· != '"'))).Reads
      (rest.dropWhile (· != '"')) := by
    apply Head.Reads.move
    rwa [cons_append, takeWhile_append_dropWhile]
  rw [string, toQuote_left shorter, Head.string, reads.toQuote]
  generalize closed : head.move ('"' :: rest.takeWhile (· != '"')) = closing at closes
  have begun : closing.start + 1 = (head.move ['"']).current := by
    rw [← closed]
    exact congrArg (· + 1) starts
  -- A quote is one byte, so the slice starts and ends between characters.
  have first : boundary closing (closing.start + 1) = true := by
    have between := boundary_of_reads inside
    rw [begun, ← closed]
    exact between
  have ordered : closing.start + 1 ≤ closing.current := by
    rw [begun, ← closed, Head.move_cons head '"' (rest.takeWhile _),
      Head.current_move (head.move ['"'])]
    exact Nat.le_add_right _ _
  show (if closing.atEnd then _ else _) = Except.ok (if closing.atEnd then _ else _)
  cases ends : closing.atEnd with
  | true => rfl
  | false =>
    have nonempty : closing.ahead ≠ [] := by
      intro done
      rw [Head.atEnd_eq, done] at ends
      cases ends
    have cut : slice closing.advance (closing.advance.start + 1) (closing.advance.current - 1) =
          .ok (closing.advance.slice (closing.advance.start + 1) (closing.advance.current - 1)) :=
      slice_eq ordered first (boundary_of_reads closes)
    simp only [Bool.false_eq_true, if_false, advance_eq nonempty]
    show (slice closing.advance _ _ >>= _) = _
    rw [cut]
    rfl

/-- A number may go on behind a point. -/
theorem toNumberEnd_eq (reads : head.Reads text) (enough : head.ahead.length < fuel) :
    toNumberEnd fuel head = .ok head.toNumberEnd := by
  have line : ∀ byte, (letter byte).isDigit = true → letter byte ≠ '\n' := by
    intro byte digit same
    rw [same] at digit
    cases digit
  have whole := reads.skipWhile bytewise_isDigit rfl rfl
  have all := takeWhile_append_dropWhile (p := Char.isDigit) (l := text)
  have behind : (head.move (text.takeWhile Char.isDigit)).Reads (text.dropWhile Char.isDigit) := by
    apply Head.Reads.move
    rwa [all]
  have shorter : (encode (text.dropWhile Char.isDigit)).length < fuel := by
    rw [reads.ahead, ← all, encode_append, length_append] at enough
    exact Nat.lt_of_le_of_lt (Nat.le_add_left _ _) enough
  simp only [toNumberEnd, Head.toNumberEnd, skipWhile_left rfl line enough, whole]
  generalize head.move (text.takeWhile Char.isDigit) = pointed at behind
  show (if letter pointed.peek == '.' && (letter pointed.peekNext).isDigit
    then _ else _) = Except.ok (if _ then _ else _)
  split
  · next further =>
    have nonempty : pointed.ahead ≠ [] := by
      intro done
      rw [Head.peek_eq, done] at further
      cases further
    rw [advance_eq nonempty]
    refine skipWhile_left rfl line ?_
    rw [Head.ahead_advance, length_tail, behind.ahead]
    omega
  · rfl

section

variable (reads : head.Reads (first :: rest))

include reads

theorem length_ahead_move (enough : head.ahead.length ≤ fuel) :
    (head.move [first]).ahead.length < fuel := by
  have inside : (head.move [first]).Reads rest := Head.Reads.move reads
  rw [reads.ahead, encode_cons, length_append, String.length_utf8EncodeChar] at enough
  have positive := first.utf8Size_pos
  rw [inside.ahead]
  omega

section

variable (starts : head.start = head.current) (enough : head.ahead.length ≤ fuel)

include starts enough

theorem number_eq : number fuel (head.move [first]) = .ok (head.move [first]).number := by
  have inside : (head.move [first]).Reads rest := Head.Reads.move reads
  rcases numberPiece_reads first rest with ⟨more, taken, same, _⟩
  have parted : head.Reads ((numberPiece first rest).taken ++ (numberPiece first rest).rest) := by
    rwa [taken, cons_append, ← same]
  rw [number, toNumberEnd_eq inside (length_ahead_move reads enough),
    Head.number, reads.toNumberEnd]
  show (lexeme (head.move (numberPiece first rest).taken) >>= _) = _
  rw [lexeme_move parted starts]
  rfl

theorem name_eq : name fuel (head.move [first]) = .ok (head.move [first]).name := by
  have inside : (head.move [first]).Reads rest := Head.Reads.move reads
  have line : ∀ byte, continuesName (letter byte) = true → letter byte ≠ '\n' := by
    intro byte continues same
    rw [same] at continues
    cases continues
  have parted : head.Reads ((first :: rest.takeWhile continuesName) ++
      rest.dropWhile continuesName) := by
    rwa [cons_append, takeWhile_append_dropWhile]
  simp only [name, Head.name, skipWhile_left rfl line (length_ahead_move reads enough),
    inside.skipWhile bytewise_continuesName rfl rfl, ← Head.move_append, singleton_append]
  show (lexeme (head.move (first :: rest.takeWhile continuesName)) >>= _) = _
  rw [lexeme_move parted starts]
  rfl

theorem unexpected_eq : unexpected fuel head.advance = .ok head.advance.unexpected := by
  have positive : 0 < head.ahead.length := by
    have length := length_le_encode (first :: rest)
    rw [reads.ahead]
    exact Nat.lt_of_lt_of_le (Nat.succ_pos _) length
  have shorter : head.advance.ahead.length < fuel := by
    rw [Head.ahead_advance, length_tail]
    omega
  have begins : boundary head.advance head.advance.start = true := by
    have between := boundary_of_reads reads
    rw [← starts] at between
    exact between
  rw [unexpected, skipWhile_left rfl (fun _ => isContinuation_not_line) shorter, begins]
  rfl

theorem mark_eq (seen : Char) : mark fuel head.advance seen = .ok (head.advance.mark seen) := by
  unfold mark Head.mark
  cases Punctuator.ofChar? seen with
  | some mark => rfl
  | none =>
    cases Punctuator.withEqual? seen with
    | none => exact unexpected_eq reads starts enough
    | some pair =>
      rcases pair with ⟨short, long⟩
      cases head.advance.accept? '=' <;> rfl

/-- In front of a text all guards on a lexeme pass. -/
theorem scanToken_eq : scanToken fuel head = .ok head.scanToken := by
  have nonempty : head.ahead ≠ [] := by
    rw [reads.ahead, encode_cons]
    simp [String.utf8EncodeChar_ne_nil]
  have step (short : first.toNat < 0x80) (same : first ≠ '\n') :=
    reads.advance_of_ne short same
  rw [scanToken, advance_eq nonempty]
  show (if isBlank (letter head.peek) then _ else _) = _
  unfold Head.scanToken
  simp only
  split
  · rfl
  split
  · exact slash_eq _
  split
  · next quote =>
    have same : first = '"' := by
      have seen : (letter head.peek == '"') = (first == '"') :=
        reads.test_first (Bytewise.beq (by decide))
      rw [seen, beq_iff_eq] at quote
      exact quote
    subst same
    rw [step (by decide) (by decide)]
    exact string_eq reads starts enough
  split
  · next digit =>
    rw [reads.test_first bytewise_isDigit] at digit
    rw [step (short_of_isDigit digit) (by rintro rfl; cases digit)]
    exact number_eq reads starts enough
  split
  · next letter =>
    rw [reads.test_first bytewise_startsName] at letter
    rw [step (short_of_startsName letter) (by rintro rfl; cases letter)]
    exact name_eq reads starts enough
  · exact mark_eq reads starts enough _

end

end

/-- The item of a part is cut out of the text in range. -/
theorem item?_eq {taken : List Char} (reads : head.Reads (taken ++ rest))
    (starts : head.start = head.current) (meaning : Meaning) :
    item? (head.move taken) meaning = .ok ((head.move taken).item? meaning) := by
  cases meaning with
  | blank => rfl
  | fault fault => rfl
  | token kind =>
    rw [item?, lexeme_move reads starts]
    rfl

end

/-! ## Items under guard -/

/-- In front of a text all guards pass up to the next item. -/
theorem nextWithin_eq (reads : head.Reads text) (enough : head.ahead.length ≤ fuel)
    (room : text.length < rounds) :
    nextWithin fuel rounds head = .ok (Head.nextWithin rounds head) := by
  induction rounds generalizing head text with
  | zero => cases room
  | succ rounds ih =>
    have size := Head.size_of_reads reads
    cases text with
    | nil =>
      rw [encode_nil, length_nil, Nat.add_zero] at size
      rw [reads.nextWithin_nil, nextWithin, if_neg (by omega), if_pos size.symm]
    | cons first rest =>
      have begun : { head with start := head.current }.Reads
          (first :: rest) := ⟨reads.ahead, reads.within⟩
      have parted := begun
      rw [← piece_append] at parted
      have inside : head.current < head.source.size := by
        have encoded := length_le_encode (first :: rest)
        rw [length_cons] at encoded
        omega
      rw [nextWithin, Head.nextWithin, if_pos inside, if_pos inside,
        scanToken_eq begun rfl enough, begun.scanToken rfl]
      have shorter := length_rest_piece first rest
      rw [length_cons] at room
      have fewer : (({ head with start := head.current } : Head).move
          (piece first rest).taken).ahead.length ≤ fuel := by
        have lengths := congrArg length parted.ahead
        rw [encode_append, length_append] at lengths
        rw [parted.move.ahead]
        exact Nat.le_trans (Nat.le_add_left _ _) (lengths ▸ enough)
      have later := ih parted.move fewer (by omega)
      have found := item?_eq parted rfl (piece first rest).meaning
      show (item? _ _ >>= _) = _
      rw [found]
      simp only
      cases Head.item? _ _ with
      | none => exact later
      | some item => rfl

/-- Once the end has been reported, nothing comes any more. -/
theorem next_of_past (fuelled : 0 < fuel) (past : head.source.size < head.current) :
    next fuel head = .ok none := by
  cases fuel with
  | zero => cases fuelled
  | succ rounds => rw [next, nextWithin, if_neg (by omega), if_neg (by omega)]

end Guarded

end Treewalk.Scan
