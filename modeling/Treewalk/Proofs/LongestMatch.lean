import Treewalk.Proofs.Lexemes

/-!
# The longest lexeme

The rules by which a text is read, said without reading it.  `Front` says what
is at the front of a text: blank space or a comment where there is one,
otherwise the longest lexeme that the text starts with, otherwise a fault.
`Lexed` goes through a text in this way and counts lines.
-/

namespace Treewalk

open List

variable {rest : List Char} {first : Char} {meaning : Meaning}

namespace Scan

/-! ## The front of a text -/

/-- No longer lexeme starts a text than the given one. -/
def Longest (taken rest : List Char) : Prop :=
  ∀ kind other, Lexeme kind other → other <+: taken ++ rest → other.length ≤ taken.length

/-- What is at the front of a text, how far it reaches and what is left. -/
inductive Front : Meaning → List Char → List Char → Prop where
  /-- Blank space, one character at a time. -/
  | blank {character} (blank : character ∈ blanks)
      (rest : List Char) : Front .blank [character] rest
  /-- A comment reaches up to the end of its line. -/
  | lineComment {comment rest} (inside : '\n' ∉ comment)
      (ends : ∀ next ∈ rest.head?, next = '\n') :
      Front .blank ('/' :: '/' :: comment) rest
  /-- A comment is closed by the first `*/` behind its start. -/
  | blockComment {comment}
      (first : ¬ closing <:+: comment ++ ['*']) (rest : List Char) :
      Front .blank ('/' :: '*' :: (comment ++ closing)) rest
  /-- A slash that starts a comment is no token. -/
  | token {kind taken rest} (line : ¬ ['/', '/'] <+: taken ++ rest)
      (block : ¬ ['/', '*'] <+: taken ++ rest)
      (lexeme : Lexeme kind taken) (longest : Longest taken rest) :
      Front (.token kind) taken rest
  /-- A character that no lexeme starts with is named as a whole. -/
  | unexpected {character fault} (visible : character ∉ blanks)
      (nothing : ∀ kind more, ¬ Lexeme kind (character :: more))
      (worded : fault.message = "Unexpected character: " ++ String.singleton character)
      (rest : List Char) : Front (.fault fault) [character] rest
  /-- What is never closed takes the rest of the text. -/
  | openString {text fault}
      (unclosed : '"' ∉ text) (worded : fault.message = "Unterminated string.") :
      Front (.fault fault) ('"' :: text) []
  | openComment {text fault} (unclosed : ¬ closing <:+: text)
      (worded : fault.message = "Unterminated block comment.") :
      Front (.fault fault) ('/' :: '*' :: text) []

/-- The items of a text that starts on a given line. -/
inductive Lexed : Nat → List Char → List Item → Prop where
  | done (line : Nat) : Lexed line [] [.token ⟨.endOfText, "", line⟩]
  | skip {line taken rest items} (front : Front .blank taken rest)
      (others : Lexed (line + taken.count '\n') rest items) :
      Lexed line (taken ++ rest) items
  | token {line kind taken rest items} (front : Front (.token kind) taken rest)
      (others : Lexed (line + taken.count '\n') rest items) :
      Lexed line (taken ++ rest)
        (.token ⟨kind, String.ofList taken, line + taken.count '\n'⟩ :: items)
  | fault {line fault taken rest items} (front : Front (.fault fault) taken rest)
      (others : Lexed (line + taken.count '\n') rest items) :
      Lexed line (taken ++ rest) (.error ⟨line + taken.count '\n', fault⟩ :: items)

/-! ## Longest lexemes -/

section

variable {test : Char → Bool} {part run after : List Char} (passes : ∀ char ∈ run, test char = true)
  (stops : Stops test after) (others : ∀ char ∈ part, test char = true)

include passes stops others

theorem length_le_of_run (starts : part <+: run ++ after) : part.length ≤ run.length := by
  rcases starts with ⟨rest, same⟩
  have taken := takeWhile_run passes stops
  rw [← same, takeWhile_append_of_pos others] at taken
  rw [← taken, length_append]
  exact Nat.le_add_right _ _

/-- There is one way to divide a text into a run and what stops it. -/
theorem run_unique (ends : Stops test rest) (same : part ++ rest = run ++ after) :
    part = run ∧ rest = after := by
  have taken := takeWhile_run others ends
  have dropped := dropWhile_run others ends
  rw [same, takeWhile_run passes stops] at taken
  rw [same, dropWhile_run passes stops] at dropped
  exact ⟨taken.symm, dropped.symm⟩

end

/-- The longest lexeme has the longest text behind its first character. -/
theorem longest_of_behind {more : List Char}
    (longest : ∀ others, Behind first others → others <+: more ++ rest →
      others.length ≤ more.length) : Longest (first :: more) rest := by
  intro kind other lexeme starts
  rcases lexeme.alone with ⟨lead, others, rfl, behind, _⟩
  rw [cons_append, cons_prefix_cons] at starts
  rcases starts with ⟨rfl, starts⟩
  exact Nat.succ_le_succ (longest others behind starts)

section

variable {digits after : List Char} (digit : first.isDigit = true)
  (passes : ∀ char ∈ digits, char.isDigit = true)

include digit passes

theorem longest_whole (stops : Stops Char.isDigit after)
    (unpointed : ∀ text, after = '.' :: text → Stops Char.isDigit text) (others : List Char)
    (behind : Behind first others) (starts : others <+: digits ++ after) :
    others.length ≤ digits.length := by
  rcases behind.of_isDigit digit with
    run | ⟨part, lead, fraction, rfl, run, fractional⟩
  · exact length_le_of_run passes stops run starts
  · rcases starts with ⟨further, same⟩
    rw [append_assoc, cons_append] at same
    have ⟨_, point⟩ := run_unique passes stops run (stops_cons.mpr rfl) same
    have stopped := stops_cons.mp (unpointed _ point.symm)
    rw [fractional lead (by simp)] at stopped
    cases stopped

theorem longest_fraction {fraction : List Char}
    (fractional : ∀ char ∈ fraction, char.isDigit = true) (stops : Stops Char.isDigit after)
    (others : List Char) (behind : Behind first others)
    (starts : others <+: digits ++ '.' :: fraction ++ after) :
    others.length ≤ (digits ++ '.' :: fraction).length := by
  have point : Stops Char.isDigit ('.' :: (fraction ++ after)) :=
    stops_cons.mpr rfl
  rw [append_assoc, cons_append] at starts
  rw [length_append, length_cons]
  rcases behind.of_isDigit digit with
    run | ⟨part, lead, other, rfl, run, fractional'⟩
  · have := length_le_of_run passes point run starts
    omega
  · rcases starts with ⟨further, same⟩
    rw [append_assoc, cons_append] at same
    have ⟨sameDigits, rests⟩ := run_unique passes point run (stops_cons.mpr rfl) same
    have shorter := length_le_of_run fractional stops fractional' ⟨further, (cons.inj rests).2⟩
    rw [sameDigits, length_append, length_cons]
    omega

end

/-! ## Pieces are fronts -/

/-- Where there is no slash, there is no comment. -/
theorem Front.of_first {kind : TokenKind} {more : List Char} (other : first ≠ '/')
    (lexeme : Lexeme kind (first :: more))
    (longest : ∀ others, Behind first others → others <+: more ++ rest →
      others.length ≤ more.length) : Front (.token kind) (first :: more) rest := by
  refine .token ?_ ?_ lexeme (longest_of_behind longest)
  all_goals
    rw [cons_append, cons_prefix_cons]
    exact fun starts => other starts.1.symm

/-- A number reaches as far as the rules say. -/
theorem front_number (digit : first.isDigit = true) (rest : List Char) :
    Front (numberPiece first rest).meaning (numberPiece first rest).taken
      (numberPiece first rest).rest := by
  have other : first ≠ '/' := by
    rintro rfl
    cases digit
  have digits {more : List Char} (passes : ∀ char ∈ more, char.isDigit = true) :
      ∀ char ∈ first :: more, Digit char := by
    simp only [← isDigit_iff, forall_mem_cons]
    exact ⟨digit, passes⟩
  cases numberTail rest with
  | whole passes stops unpointed =>
    rw [numberPiece_whole passes stops unpointed]
    exact .of_first other (.whole (by simp) (digits passes))
      (longest_whole digit passes stops unpointed)
  | @fraction _ fraction _ lead passes fractional stops =>
    have digits' : ∀ char ∈ lead :: fraction, Digit char := by
      simpa only [← isDigit_iff] using fractional
    rw [numberPiece_fraction passes fractional stops]
    exact .of_first other (.fraction (by simp) (digits passes) (by simp) digits')
      (longest_fraction digit passes fractional stops)

/-- A name reaches as far as the rules say. -/
theorem front_name (starts : startsName first = true) (rest : List Char) :
    Front (namePiece first rest).meaning (namePiece first rest).taken
      (namePiece first rest).rest := by
  have other : first ≠ '/' := by
    rintro rfl
    cases starts
  have passes : ∀ char ∈ rest.takeWhile continuesName,
      continuesName char = true := fun _ => mem_takeWhile_imp
  have stops := stops_dropWhile continuesName rest
  refine .of_first other (lexeme_name starts passes) ?_
  intro others behind first
  exact length_le_of_run passes stops (behind.of_startsName starts) first

theorem front_string (rest : List Char) :
    Front (stringPiece rest).meaning (stringPiece rest).taken (stringPiece rest).rest := by
  fun_cases stringPiece rest with
  | case1 unclosed =>
    refine .openString ?_ rfl
    intro among
    have passes := dropWhile_eq_nil_iff.mp unclosed '"' among
    cases passes
  | case2 text quote after closed =>
    have stops := stops_dropWhile (· != '"') rest
    have passes : ∀ char ∈ text, (char != '"') = true :=
      fun _ => mem_takeWhile_imp
    have unquoted : '"' ∉ text := by
      intro among
      cases passes '"' among
    rw [closed] at stops
    have same : quote = '"' := by simpa using stops_cons.mp stops
    subst same
    show Front (.token (.string (String.ofList text))) ('"' :: (text ++ ['"'])) after
    refine .of_first (by decide) (.string unquoted) ?_
    rintro others behind ⟨further, same⟩
    rcases behind.of_quote with ⟨inside, rfl, unquoted'⟩
    simp only [append_assoc] at same
    rcases run_unique passes (stops_cons.mpr rfl)
      (passes_of_not_mem unquoted') (stops_cons.mpr rfl) same with
      ⟨whole, _⟩
    rw [whole]

theorem front_slash (rest : List Char) :
    Front (slashPiece rest).meaning (slashPiece rest).taken (slashPiece rest).rest := by
  fun_cases slashPiece rest with
  | case1 after comment =>
    refine .lineComment ?_ ?_
    · intro among
      cases mem_takeWhile_imp (p := (· != '\n')) among
    · intro next head
      have stops := stops_dropWhile (· != '\n') after next head
      simpa using stops
  | case2 after comment afterwards closed =>
    rcases exists_of_closeComment closed with ⟨inside, rfl, _, first⟩
    exact .blockComment first _
  | case3 after unclosed => exact .openComment ((closeComment_eq_none_iff _).mp unclosed) rfl
  | case4 _ notLine notBlock =>
    refine .token ?_ ?_ (.mark .slash) (longest_of_behind ?_)
    · rintro ⟨more, same⟩
      exact notLine more (cons.inj same).2.symm
    · rintro ⟨more, same⟩
      exact notBlock more (cons.inj same).2.symm
    · intro others behind _
      rcases behind.of_mark rfl rfl (by decide) with ⟨mark, spelled⟩
      rcases spelling_shape spelled with ⟨rfl, _⟩ | ⟨_, other, _⟩
      · exact Nat.le_refl 0
      · exact absurd rfl other

/-- A mark that `=` may extend is extended where there is one. -/
theorem front_equal {short long : Punctuator} (slash : first ≠ '/')
    (double : Punctuator.withEqual? first = some (short, long))
    (behind : ∀ others, Behind first others → others = [] ∨ others = ['=']) (rest : List Char) :
    Front (equalPiece first short long rest).meaning (equalPiece first short long rest).taken
      (equalPiece first short long rest).rest := by
  have ⟨one, two⟩ := spelling_of_withEqual? double
  fun_cases equalPiece first short long rest with
  | case1 after =>
    refine .of_first slash (two ▸ .mark long) ?_
    intro others follows _
    rcases behind others follows with rfl | rfl
    · exact Nat.zero_le 1
    · exact Nat.le_refl 1
  | case2 _ alone =>
    refine .of_first slash (one ▸ .mark short) ?_
    intro others follows starts
    rcases behind others follows with rfl | rfl
    · exact Nat.le_refl 0
    · rcases starts with ⟨more, same⟩
      exact absurd same.symm (alone more)

theorem front_mark (visible : isBlank first = false) (slash : first ≠ '/') (quote : first ≠ '"')
    (digit : first.isDigit = false) (letter : startsName first = false) (rest : List Char) :
    Front (markPiece first rest).meaning (markPiece first rest).taken
      (markPiece first rest).rest := by
  have shape {others : List Char} (behind : Behind first others) :=
    (behind.of_mark digit letter quote).elim fun _ => spelling_shape
  unfold markPiece
  cases single : Punctuator.ofChar? first with
  | some mark =>
    refine .of_first slash (spelling_of_ofChar? single ▸ .mark mark) ?_
    intro others behind _
    rcases shape behind with ⟨rfl, _⟩ | ⟨_, _, other, _⟩
    · exact Nat.le_refl 0
    · rw [single] at other
      cases other
  | none =>
    cases double : Punctuator.withEqual? first with
    | some pair =>
      refine front_equal slash double ?_ rest
      intro others behind
      exact (shape behind).imp And.left And.left
    | none =>
      refine .unexpected ?_ ?_ rfl rest
      · rw [← isBlank_iff, visible]
        exact Bool.false_ne_true
      · intro kind more lexeme
        rcases lexeme.alone with ⟨_, _, same, behind, _⟩
        cases same
        rcases shape behind with ⟨_, found⟩ | ⟨_, _, _, found⟩ <;>
          simp [slash, single, double] at found

/-- The piece at the front of a text is what the rules say. -/
theorem front_piece (first : Char) (rest : List Char) :
    Front (piece first rest).meaning (piece first rest).taken (piece first rest).rest := by
  rw [piece_eq]
  split_ifs with blank slash quote digit letter
  · exact .blank ((isBlank_iff first).mp blank) rest
  · exact front_slash rest
  · exact front_string rest
  · exact front_number digit rest
  · exact front_name letter rest
  · simp only [Bool.not_eq_true, beq_eq_false_iff_ne] at blank slash quote digit letter
    exact front_mark blank slash quote digit letter rest

/-! ## Fronts are pieces -/

theorem message_unexpected (char : Char) : (LexicalFault.unexpectedCharacter char).message =
      "Unexpected character: " ++ String.singleton char :=
  rfl

theorem length_message (fault : LexicalFault) : fault.message.length = match fault with
      | .unexpectedCharacter _ => 23
      | .unterminatedString => 20
      | .unterminatedComment => 27 := by
  have opening : "Unexpected character: ".length = 22 := by decide +kernel
  cases fault with
  | unexpectedCharacter char =>
    rw [message_unexpected, String.length_append, opening, String.length_singleton]
  | unterminatedString | unterminatedComment => decide +kernel

/-- Faults are told apart by what they say. -/
theorem message_injective {fault other : LexicalFault}
    (same : fault.message = other.message) : fault = other := by
  have lengths := congrArg String.length same
  rw [length_message, length_message] at lengths
  cases fault <;> cases other
  case unexpectedCharacter.unexpectedCharacter =>
    rw [message_unexpected, message_unexpected, String.append_right_inj,
      String.singleton_inj] at same
    rw [same]
  all_goals first | rfl | cases lengths

theorem Front.eq_token {kind : TokenKind} {taken taken' rest' : List Char}
    (front : Front meaning taken' rest') (same : taken' ++ rest' = taken ++ rest)
    (line : ¬ ['/', '/'] <+: taken ++ rest) (block : ¬ ['/', '*'] <+: taken ++ rest)
    (lexeme : Lexeme kind taken) (longest : Longest taken rest) :
    meaning = .token kind ∧ taken' = taken ∧ rest' = rest := by
  rcases lexeme.alone with ⟨first, more, rfl, behind, _⟩
  cases front with
  | blank blank =>
    cases same
    exact absurd blank lexeme.visible
  | lineComment => exact absurd ⟨_, same⟩ line
  | blockComment | openComment => exact absurd ⟨_, same⟩ block
  | token _ _ lexeme' longest' =>
    have shorter := longest _ _ lexeme' ⟨rest', same⟩
    have longer := longest' _ _ lexeme ⟨rest, same.symm⟩
    have ⟨takens, rests⟩ :=
      append_inj same (Nat.le_antisymm shorter longer)
    subst takens
    exact ⟨by rw [lexeme'.kind_eq lexeme], rfl, rests⟩
  | unexpected _ nothing =>
    cases same
    exact absurd lexeme (nothing _ _)
  | openString unclosed =>
    rw [append_nil, cons_append] at same
    rcases cons.inj same with ⟨rfl, rfl⟩
    rcases behind.of_quote with ⟨inside, rfl, _⟩
    exact absurd (by simp) unclosed

theorem Front.eq_unexpected {char : Char} {taken' rest' : List Char}
    (front : Front meaning taken' rest') (same : taken' ++ rest' = char :: rest)
    (visible : char ∉ blanks) (nothing : ∀ kind more, ¬ Lexeme kind (char :: more)) :
    meaning = .fault (.unexpectedCharacter char) ∧ taken' = [char] ∧ rest' = rest := by
  cases front with
  | blank blank =>
    cases same
    exact absurd blank visible
  | lineComment | blockComment | openComment =>
    cases (cons.inj same).1
    exact absurd (Lexeme.mark .slash) (nothing _ _)
  | token _ _ lexeme _ =>
    rcases lexeme.alone with ⟨first, more, rfl, _⟩
    cases (cons.inj same).1
    exact absurd lexeme (nothing _ _)
  | unexpected _ _ worded =>
    cases same
    rw [message_injective (worded.trans (message_unexpected _).symm)]
    exact ⟨rfl, rfl, rfl⟩
  | openString =>
    cases (cons.inj same).1
    exact absurd (Lexeme.string (not_mem_nil)) (nothing _ _)

theorem piece_slash : piece '/' = slashPiece :=
  rfl

/-- What the rules allow in front is what is read there. -/
theorem Front.piece_eq {meaning : Meaning} {taken rest : List Char}
    (front : Front meaning taken rest) :
    ∃ first more, taken ++ rest = first :: more ∧ piece first more = ⟨meaning, taken, rest⟩ := by
  cases front with
  | @blank char blank rest =>
    refine ⟨char, rest, rfl, ?_⟩
    rw [Scan.piece_eq, if_pos ((isBlank_iff char).mpr blank)]
  | @lineComment comment rest inside ends =>
    refine ⟨'/', '/' :: (comment ++ rest), rfl, ?_⟩
    have passes := passes_of_not_mem inside
    have stops : Stops (· != '\n') rest := by
      intro next head
      simp [ends next head]
    rw [piece_slash, slashPiece, takeWhile_run passes stops, dropWhile_run passes stops]
  | @blockComment comment first rest =>
    refine ⟨'/', '*' :: (comment ++ closing ++ rest), rfl, ?_⟩
    rw [piece_slash]
    simp only [slashPiece, closeComment_of_first first rest]
  | @token kind _ _ line block lexeme longest =>
    rcases lexeme.alone with ⟨first, more, rfl, _⟩
    refine ⟨first, more ++ rest, rfl, ?_⟩
    rcases (front_piece first (more ++ rest)).eq_token
      (piece_append _ _) line block lexeme longest with
      ⟨means, takes, leaves⟩
    exact Piece.ext means takes leaves
  | @unexpected char fault visible nothing worded rest =>
    refine ⟨char, rest, rfl, ?_⟩
    rcases (front_piece char rest).eq_unexpected
      (piece_append _ _) visible nothing with ⟨means, takes, leaves⟩
    rw [message_injective (worded.trans (message_unexpected _).symm)]
    exact Piece.ext means takes leaves
  | @openString text fault unclosed worded =>
    have same : fault = .unterminatedString := message_injective worded
    have all : text.dropWhile (· != '"') = [] :=
      dropWhile_eq_nil_iff.mpr (passes_of_not_mem unclosed)
    refine ⟨'"', text, append_nil _, ?_⟩
    rw [show piece '"' = stringPiece from rfl, same]
    simp only [stringPiece, all]
  | @openComment text fault unclosed worded =>
    have same : fault = .unterminatedComment := message_injective worded
    refine ⟨'/', '*' :: text, append_nil _, ?_⟩
    rw [piece_slash, same]
    simp only [slashPiece, (closeComment_eq_none_iff text).mpr unclosed]

/-! ## Items -/

variable {text : List Char} {parts : List Part}

/-- The parts of a text follow the rules. -/
theorem Cut.lexed (cut : Cut text parts) (line : Nat) : Lexed line text (items line parts) := by
  induction cut generalizing line with
  | nil => exact .done line
  | @cons first rest meaning taken after parts read others ih =>
    have front := front_piece first rest
    have whole := piece_append first rest
    rw [read] at front whole
    have later := ih (line + newlines taken)
    rw [← whole]
    cases meaning with
    | blank => exact .skip front later
    | token kind => exact .token front later
    | fault fault => exact .fault front later

theorem Cut.lexeme (cut : Cut text parts) {line : Nat} {token : Token}
    (among : token ∈ tokens line parts) : Lexeme token.kind token.lexeme.toList := by
  induction cut generalizing line with
  | nil => cases among
  | @cons first rest meaning taken after parts read others ih =>
    cases meaning with
    | blank | fault fault => exact ih among
    | token kind =>
      rcases mem_cons.mp among with rfl | among
      · have front := front_piece first rest
        rw [read] at front
        cases front with
        | token _ _ lexeme _ =>
          rw [String.toList_ofList]
          exact lexeme
      · exact ih among

theorem Front.cut {meaning : Meaning} {taken rest : List Char} (front : Front meaning taken rest)
    (cut : Cut (taken ++ rest) parts) :
    ∃ others, parts = ⟨meaning, taken⟩ :: others ∧ Cut rest others := by
  rcases front.piece_eq with ⟨first, more, whole, read⟩
  rw [whole] at cut
  cases cut with
  | cons read' others =>
    rw [read] at read'
    cases read'
    exact ⟨_, rfl, others⟩

/-- The rules leave no choice. -/
theorem Lexed.items_eq {line : Nat} {found : List Item} (lexed : Lexed line text found)
    (cut : Cut text parts) : found = items line parts := by
  induction lexed generalizing parts with
  | done line =>
    cases cut
    rfl
  | skip front _ ih =>
    rcases front.cut cut with ⟨others, rfl, later⟩
    exact ih later
  | token front _ ih | fault front _ ih =>
    rcases front.cut cut with ⟨others, rfl, later⟩
    rw [ih later]
    rfl

end Scan

/-- The bytes of a text are read as the rules for its characters say. -/
theorem scanItems_eq_iff_lexed (text : String) (found : List Item) :
    scanItems text = found ↔ Scan.Lexed 1 text.toList found := by
  have cut := Scan.cut_cutAll (Nat.le_refl text.toList.length)
  rw [cut.scanItems_eq]
  constructor
  · rintro rfl
    exact cut.lexed 1
  · intro lexed
    exact (lexed.items_eq cut).symm

example : scanItems "\u00e9/*/" =
    [.error ⟨1, .unexpectedCharacter '\u00e9'⟩,
      .error ⟨1, .unterminatedComment⟩, .token ⟨.endOfText, "", 1⟩] := by
  decide +kernel

/-! ## Spelling -/

variable {token : Token}

/-- Whatever the text, its tokens but the last one are lexemes. -/
theorem scan_lexeme {text : String} (scanned : token ∈ (scan text).tokens) :
    token.kind = .endOfText ∨ Scan.Lexeme token.kind token.lexeme.toList := by
  have cut := Scan.cut_cutAll (Nat.le_refl text.toList.length)
  rw [cut.tokens_scan, mem_append, mem_singleton] at scanned
  exact scanned.symm.imp (congrArg Token.kind) cut.lexeme

/-- Reserved words are spelled as such, and identifiers are not. -/
structure Token.Spelled (token : Token) : Prop where
  identifier : token.kind = .identifier → Keyword.ofSpelling? token.lexeme = none
  keyword : ∀ word, token.kind = .keyword word → token.lexeme = word.spelling

theorem scan_spelled {text : String} (scanned : token ∈ (scan text).tokens) : token.Spelled := by
  rcases token with ⟨kind, lexeme, line⟩
  rcases scan_lexeme scanned with rfl | lexeme
  · exact ⟨nofun, nofun⟩
  · generalize spelled : String.toList _ = taken at lexeme
    cases lexeme with
    | reserved word =>
      refine ⟨nofun, ?_⟩
      rintro _ ⟨⟩
      exact String.toList_inj.mp spelled
    | name _ _ free =>
      refine ⟨fun _ => Scan.ofSpelling?_of_free ?_, nofun⟩
      rintro word rfl
      exact free word spelled
    | _ => exact ⟨nofun, nofun⟩

end Treewalk
