import Treewalk.Proofs.IndexedReading
import Treewalk.Proofs.ParserCompleteness

/-!
# Readers by index that follow rules over a cursor

A reader of tokens by index does what a rule over a cursor does, provided that
the tokens have an end mark.  Agreement is stated for one run of each from one
place, and composes along `bind`.  Sizes count the tokens ahead and the end
mark, so every token that is passed leaves a smaller size.
-/

namespace Treewalk.Indexed

/-- The cursor that stands at a place. -/
def Place.cursor (stream : TokenStream) (place : Place) : Cursor :=
  ⟨stream.tokens.drop place.current, stream.ending, place.nextId, place.errors⟩

/-- A source has some tokens and then an end mark, whatever comes later. -/
structure Supplies (source : Nat → Option Token) (stream : TokenStream) :
    Prop where
  token : ∀ index token, stream.tokens[index]? = some token → source index = some token
  plain : ∀ token ∈ stream.tokens, token.isEnd = false
  ending : source stream.tokens.length = some stream.ending
  isEnd : stream.ending.isEnd = true

variable {stream : TokenStream} {source : Nat → Option Token} {least size : Nat} {place : Place}
  {α β : Type}

/-! ## Runs that agree -/

section

/-- A reader ends as a rule does, and stays before the end mark or at it. -/
inductive Agrees (stream : TokenStream) (start least : Nat) :
    EStateM.Result Halt Place α → EStateM.Result GrammarError Cursor α → Prop where
  | ok (value : α) (later : Place) (passed : start + least ≤ later.current)
      (within : later.current ≤ stream.tokens.length) :
      Agrees stream start least (.ok value later) (.ok value (later.cursor stream))
  | fault (error : GrammarError) (later : Place) (passed : start ≤ later.current)
      (within : later.current ≤ stream.tokens.length) :
      Agrees stream start least (.error (.fault error) later) (.error error (later.cursor stream))

theorem Agrees.since {start middle other : Nat} {result : EStateM.Result Halt Place α}
    {result' : EStateM.Result GrammarError Cursor α}
    (agrees : Agrees stream middle other result result') (passed : start + least ≤ middle + other)
    (after : start ≤ middle) : Agrees stream start least result result' := by
  cases agrees with
  | ok value later ahead within => exact .ok value later (by omega) within
  | fault error later ahead within => exact .fault error later (by omega) within

theorem Agrees.reached {start : Nat} {result : EStateM.Result Halt Place α}
    {result' : EStateM.Result GrammarError Cursor α}
    (agrees : Agrees stream start least result result') :
    (∃ value later, result = .ok value later ∧ start + least ≤ later.current ∧
      later.current ≤ stream.tokens.length) ∨
    ∃ error later, result = .error (.fault error) later := by
  cases agrees with
  | ok value later passed within => exact .inl ⟨value, later, rfl, passed, within⟩
  | fault error later => exact .inr ⟨error, later, rfl⟩

/-- Agreement composes along the runs. -/
theorem Agrees.bind {start least other : Nat} {place : Place} {reader : Reader α} {rule : Rule α}
    {further : α → Reader β} {cont : α → Rule β}
    (agrees : Agrees stream start least (reader place) (rule (place.cursor stream)))
    (tail : ∀ value (later : Place), start + least ≤ later.current →
      later.current ≤ stream.tokens.length → Agrees stream later.current other (further value later)
        (cont value (later.cursor stream))) :
    Agrees stream start (least + other) ((reader >>= further) place)
      ((rule >>= cont) (place.cursor stream)) := by
  simp only [Bind.bind, EStateM.bind]
  generalize reader place = result, rule (place.cursor stream) = result' at agrees ⊢
  cases agrees with
  | ok value later passed within =>
    exact (tail value later passed within).since (by omega) (by omega)
  | fault error later passed within => exact .fault error later passed within

/--
From every place with less than `size` tokens ahead, a reader does what a rule
does, and passes at least `least` tokens if it yields a value.
-/
def Tracks (stream : TokenStream) (size least : Nat) (reader : Reader α) (rule : Rule α) : Prop :=
  ∀ place : Place, place.current ≤ stream.tokens.length →
    stream.tokens.length < place.current + size → Agrees stream place.current least (reader place)
      (rule (place.cursor stream))

namespace Tracks

variable {reader : Reader α} {rule : Rule α} {further : α → Reader β} {cont : α → Rule β}

theorem weaken (tracks : Tracks stream size least reader rule) : Tracks stream size 0 reader rule :=
  fun place within room => (tracks place within room).since (by omega) (Nat.le_refl _)

theorem shrink {smaller : Nat} (tracks : Tracks stream size least reader rule) (le : smaller ≤ size)
    : Tracks stream smaller least reader rule :=
  fun place within room => tracks place within (by omega)

/-- The tail starts where the head ends, with less tokens ahead. -/
theorem bindTaking (head : Tracks stream size least reader rule)
    (tail : ∀ value, Tracks stream (size - least) 0 (further value) (cont value)) :
    Tracks stream size least (reader >>= further) (rule >>= cont) := by
  intro place within room
  exact (head place within room).bind fun value later passed within =>
    tail value later within (by omega)

section

variable (head : Tracks stream size least reader rule)
  (tail : ∀ value, Tracks stream size 0 (further value) (cont value))

include head tail

theorem bind : Tracks stream size least (reader >>= further) (rule >>= cont) :=
  head.bindTaking fun value => (tail value).shrink (Nat.sub_le size least)

/-- One reader after another, when it does not matter what they take. -/
theorem andThen : Tracks stream size 0 (reader >>= further) (rule >>= cont) :=
  (head.bind tail).weaken

end

/-- The tail takes its tokens also after a head that takes none. -/
theorem prepare {further : Reader β} {cont : Rule β} (head : Tracks stream size 0 reader rule)
    (tail : Tracks stream size least further cont) :
    Tracks stream size least (reader >>= fun _ => further) (rule >>= fun _ => cont) := by
  intro place within room
  have agrees := (head place within room).bind
    fun _ later passed within => tail later within (by omega)
  exact agrees.since (by omega) (Nat.le_refl _)

theorem pure (size : Nat) (value : α) : Tracks stream size 0 (Pure.pure value) (Pure.pure value) :=
  fun place within _ => .ok value place (Nat.le_refl _) within

theorem noteAt (size : Nat) (fault : GrammarFault) (token : Token) :
    Tracks stream size 0 (Indexed.noteAt fault token) (Rule.noteAt fault token) :=
  fun place within _ => .ok () { place with errors := place.errors ++ [⟨fault, token⟩] }
    (Nat.le_refl _) within

theorem freshId (size : Nat) : Tracks stream size 0 Indexed.freshId Rule.freshId :=
  fun place within _ => .ok place.nextId
    { place with nextId := place.nextId + 1 } (Nat.le_refl _) within

end Tracks

end

/-! ## The next token -/

section

/-- What stands at the next index, and what a cursor has ahead there. -/
inductive Faces (source : Nat → Option Token) (stream : TokenStream)
    (place : Place) : Prop where
  | ending (last : place.current = stream.tokens.length)
      (found : source place.current = some stream.ending) (isEnd : stream.ending.isEnd = true)
      (ahead : (place.cursor stream).ahead = [])
  | token (token : Token) (before : place.current < stream.tokens.length)
      (found : source place.current = some token) (plain : token.isEnd = false)
      (ahead : (place.cursor stream).ahead = token :: (place.next.cursor stream).ahead)

/-- A source gives the token ahead, or the end mark. -/
theorem Supplies.faces (supplies : Supplies source stream)
    (within : place.current ≤ stream.tokens.length) : Faces source stream place := by
  by_cases last : place.current = stream.tokens.length
  · refine .ending last ?_ supplies.isEnd ?_
    · rw [last]
      exact supplies.ending
    · simp [Place.cursor, last]
  · have before : place.current < stream.tokens.length := by omega
    refine .token stream.tokens[place.current] before ?_ ?_ ?_
    · exact supplies.token _ _ (List.getElem?_eq_getElem before)
    · exact supplies.plain _ (List.getElem_mem before)
    · exact List.drop_eq_getElem_cons before

theorem Supplies.peek (supplies : Supplies source stream) {place : Place}
    (within : place.current ≤ stream.tokens.length) :
    source place.current = some (place.cursor stream).peek := by
  cases supplies.faces within with
  | ending last found isEnd ahead =>
    simp only [found, Cursor.peek, ahead]
    rfl
  | token token before found plain ahead => simp [found, Cursor.peek, ahead]

theorem bind_of_ok {reader : Reader α} {further : α → Reader β} {later : Place} {value : α}
    (ran : reader place = .ok value later) : (reader >>= further) place = further value later := by
  simp only [Bind.bind, EStateM.bind, ran]

section

variable {token : Token} (found : source place.current = some token)

include found

theorem peek_of_found : peek source place = .ok token place := by
  simp only [peek, tokenAt, found]

theorem atEnd_of_found : atEnd source place = .ok token.isEnd place :=
  bind_of_ok (peek_of_found found)

theorem beforeEnd_of_found : beforeEnd source place = .ok (!token.isEnd) place :=
  bind_of_ok (atEnd_of_found found)

/-- A test is put to the token that is found, unless it ends the text. -/
theorem check_of_found (test : Token → Bool) :
    check source test place = .ok (!token.isEnd && test token) place := by
  unfold check
  rw [bind_of_ok (atEnd_of_found found)]
  cases token.isEnd with
  | true => rfl
  | false => exact bind_of_ok (peek_of_found found)

theorem insideBraces_of_found :
    insideBraces source place = .ok (!(token.isEnd || token.isMark .rightBrace)) place := by
  unfold insideBraces sees
  rw [bind_of_ok (check_of_found found _)]
  cases isEnd : token.isEnd with
  | true =>
    have ended := beforeEnd_of_found found
    rw [isEnd] at ended
    exact ended
  | false =>
    cases token.isMark .rightBrace with
    | true => rfl
    | false =>
      have ended := beforeEnd_of_found found
      rw [isEnd] at ended
      exact ended

theorem previous_of_found {later : Place} (passed : later.current = place.current + 1) :
    previous source later = .ok token later := by
  simp only [previous, passed, tokenAt, found]

theorem advance_of_found (plain : token.isEnd = false) :
    advance source place = .ok token place.next := by
  unfold advance
  rw [bind_of_ok (atEnd_of_found found), plain]
  show previous source place.next = .ok token place.next
  exact previous_of_found found rfl

/-- A token is taken if it passes the test. -/
theorem takes_of_found (test : Token → Bool) : takes source test place =
      if !token.isEnd && test token then
        .ok true place.next
      else
        .ok false place := by
  unfold takes
  rw [bind_of_ok (check_of_found found test)]
  cases isEnd : token.isEnd with
  | true => rfl
  | false =>
    cases test token with
    | false => rfl
    | true => exact bind_of_ok (advance_of_found found isEnd)

theorem choice_of_found (test : Token → Bool) (yes no : Reader α) :
    (do if ← takes source test then yes else no : Reader α) place =
      if !token.isEnd && test token then yes place.next else no place := by
  have taken := takes_of_found found test
  cases passes : !token.isEnd && test token with
  | true | false =>
    rw [passes] at taken
    exact bind_of_ok taken

theorem fail_of_found (fault : GrammarFault) :
    (fail source fault : Reader α) place = .error (.fault ⟨fault, token⟩) place :=
  bind_of_ok (peek_of_found found)

/-- A token that fails the test is a fault at this token. -/
theorem expect_of_found (test : Token → Bool) (fault : GrammarFault) :
    expect source test fault place = if !token.isEnd && test token then
        .ok token place.next
      else
        .error (.fault ⟨fault, token⟩) place := by
  unfold expect
  rw [bind_of_ok (check_of_found found test)]
  cases isEnd : token.isEnd with
  | true => exact fail_of_found found fault
  | false =>
    cases test token with
    | false => exact fail_of_found found fault
    | true => exact advance_of_found found isEnd

end

/-- The reader passes the next token if that passes a test. -/
def TakesIf (source : Nat → Option Token) (test : Token → Bool) (reader : Reader Bool) : Prop :=
  ∀ place token, source place.current = some token → reader place =
      if !token.isEnd && test token then
        .ok true place.next
      else
        .ok false place

theorem takesIf_takes (test : Token → Bool) : TakesIf source test (takes source test) :=
  fun _ _ found => takes_of_found found test

theorem isAnyMark_nil (token : Token) : Grammar.isAnyMark [] token = false := by
  unfold Grammar.isAnyMark
  split <;> rfl

theorem isAnyMark_cons (mark : Punctuator) (marks : List Punctuator) (token : Token) :
    Grammar.isAnyMark (mark :: marks) token =
      (token.isMark mark || Grammar.isAnyMark marks token) := by
  unfold Grammar.isAnyMark Token.isMark
  cases token.kind with
  | punctuator other => by_cases same : other = mark <;> simp [same]
  | _ => rfl

/-- Asking for marks one by one asks for any of them. -/
theorem takesIf_takesAnyMark (marks : List Punctuator) :
    TakesIf source (Grammar.isAnyMark marks) (takesAnyMark source marks) := by
  intro place token found
  induction marks with
  | nil =>
    rw [isAnyMark_nil, Bool.and_false]
    rfl
  | cons mark marks ih =>
    unfold takesAnyMark takesMark
    have taken := takes_of_found found (·.isMark mark)
    cases passes : !token.isEnd && token.isMark mark with
    | true =>
      rw [passes] at taken
      rw [bind_of_ok taken, isAnyMark_cons, Bool.and_or_distrib_left, passes]
      rfl
    | false =>
      rw [passes] at taken
      rw [bind_of_ok taken, isAnyMark_cons, Bool.and_or_distrib_left, passes]
      exact ih

/-- From every place just after a given token, a reader does what a rule does. -/
def TracksAfter {α : Type} (source : Nat → Option Token)
    (stream : TokenStream) (token : Token) (size : Nat)
    (reader : Reader α) (rule : Rule α) : Prop :=
  ∀ place : Place, source place.current = some token → place.current < stream.tokens.length →
    stream.tokens.length < place.next.current + size →
    Agrees stream place.next.current 0 (reader place.next) (rule (place.next.cursor stream))

section

/-- What tracks anywhere tracks behind a token. -/
theorem Tracks.after {reader : Reader α} {rule : Rule α}
    (tracks : Tracks stream size 0 reader rule) (token : Token) :
    TracksAfter source stream token size reader rule :=
  fun place _ before room => tracks place.next before room

theorem TracksAfter.next {reader : Reader α} {rule : Rule α} {token : Token}
    {place : Place} (tracks : TracksAfter source stream token size reader rule)
    (found : source place.current = some token)
    (before : place.current < stream.tokens.length)
    (room : stream.tokens.length < place.current + (size + 1)) :
    Agrees stream place.current 1 (reader place.next) (rule (place.next.cursor stream)) :=
  (tracks place found before (by simp only [Place.next]; omega)).since
    (Nat.le_refl _) (Nat.le_succ _)

/-- A reader may look back at the token that it has just passed. -/
theorem TracksAfter.previous {token : Token} {further : Token → Reader α} {rule : Rule α}
    (tracks : TracksAfter source stream token size (further token) rule) :
    TracksAfter source stream token size (previous source >>= further) rule := by
  intro place found before room
  rw [bind_of_ok (previous_of_found found rfl)]
  exact tracks place found before room

end

end

/-! ## Primitive rules -/

section

variable (supplies : Supplies source stream)

include supplies

namespace Supplies

section

variable {test : Token → Bool} {operates : Reader Bool} {yes no : Reader β}
  (takes : TakesIf source test operates)

include takes

/-- A rule that goes on by whether the next token passes a test. -/
theorem takesThen {cont : Option Token → Rule β} {after : Nat} (room : size ≤ after + 1)
    (few : least ≤ 1) (absent : Tracks stream size least no (cont none))
    (present : ∀ token, test token →
      TracksAfter source stream token after yes (cont (some token))) :
    Tracks stream size least (do if ← operates then yes else no) (Rule.takeIf test >>= cont) := by
  intro place within short
  cases supplies.faces within with
  | ending last found isEnd ahead =>
    have operated := takes place _ found
    rw [isEnd] at operated
    rw [bind_of_ok operated]
    simp only [Bind.bind, EStateM.bind, Rule.takeIf, ahead]
    exact absent place within short
  | token token before found plain ahead =>
    have operated := takes place token found
    simp only [Bind.bind, EStateM.bind, Rule.takeIf, ahead, operated, plain]
    cases passes : test token with
    | false => exact absent place within short
    | true =>
      have later := present token passes place found before (by simp only [Place.next]; omega)
      exact later.since (by simp only [Place.next]; omega) (Nat.le_succ _)

theorem takesNone {rule : Rule β} (short : size ≤ 1) (absent : Tracks stream size least no rule) :
    Tracks stream size least (do if ← operates then yes else no) rule := by
  intro place within room
  cases supplies.faces within with
  | ending last found isEnd ahead =>
    have operated := takes place _ found
    rw [isEnd] at operated
    rw [bind_of_ok operated]
    exact absent place within room
  | token token before found plain ahead => omega

end

theorem fail (size least : Nat) (fault : GrammarFault) :
    Tracks stream size least (fail source fault : Reader α) (Rule.fail fault) := by
  intro place within _
  rw [fail_of_found (supplies.peek within)]
  exact .fault _ place (Nat.le_refl _) within

theorem expect (size : Nat) (test : Token → Bool) (fault : GrammarFault) :
    Tracks stream size 1 (expect source test fault) (Rule.expect test fault) := by
  intro place within short
  cases supplies.faces within with
  | ending last found isEnd ahead =>
    have failed : Rule.expect test fault (place.cursor stream) =
        Rule.fail fault (place.cursor stream) := by
      simp only [Rule.expect, Bind.bind, EStateM.bind, Rule.takeIf, ahead]
    rw [expect_of_found found, isEnd, failed, ← fail_of_found found]
    exact supplies.fail size 1 fault place within short
  | token token before found plain ahead =>
    rw [expect_of_found found, plain]
    cases passes : test token with
    | false =>
      have failed : Rule.expect test fault (place.cursor stream) =
          Rule.fail fault (place.cursor stream) := by
        simp only [Rule.expect, Bind.bind, EStateM.bind, Rule.takeIf, ahead, passes]
        rfl
      rw [failed, ← fail_of_found found]
      exact supplies.fail size 1 fault place within short
    | true =>
      have taken : Rule.expect test fault (place.cursor stream) =
          .ok token (place.next.cursor stream) := by
        simp only [Rule.expect, Bind.bind, EStateM.bind, Rule.takeIf, ahead, passes]
        rfl
      rw [taken]
      exact .ok token place.next (Nat.le_refl _) before

theorem sees (size : Nat) (mark : Punctuator) :
    Tracks stream size 0 (sees source mark) (Rule.sees mark) := by
  intro place within _
  cases supplies.faces within with
  | ending last found isEnd ahead =>
    simp only [Indexed.sees, check_of_found found, isEnd, Rule.sees, Cursor.sees, ahead]
    exact .ok false place (Nat.le_refl _) within
  | token token before found plain ahead =>
    simp only [Indexed.sees, check_of_found found, plain, Rule.sees, Cursor.sees, ahead]
    exact .ok _ place (Nat.le_refl _) within

theorem noteHere (size : Nat) (fault : GrammarFault) :
    Tracks stream size 0 (noteHere source fault) (Rule.noteHere fault) := by
  intro place within room
  unfold Indexed.noteHere
  rw [bind_of_ok (peek_of_found (supplies.peek within))]
  exact Tracks.noteAt size fault _ place within room

variable {item : Reader α} {rule : Rule α}

theorem countedItem {size least : Nat} (overflow : GrammarFault)
    (tracks : Tracks stream size least item rule) (count : Nat) :
    Tracks stream size least (countedItem source overflow item count)
      (Rule.countedItem overflow rule count) := by
  unfold Indexed.countedItem Rule.countedItem
  split
  · exact (supplies.noteHere size overflow).prepare tracks
  · exact tracks

/-- Lists are tracked if their items take tokens. -/
theorem separated {size limit rounds : Nat} (overflow : GrammarFault)
    (tracks : Tracks stream size 1 item rule) (short : size ≤ limit + 1) (enough : size ≤ rounds)
    (count : Nat) :
    Tracks stream size 0 (separated source overflow item rounds count)
      (Rule.separated overflow rule limit count) := by
  induction limit generalizing size rounds count with
  | zero =>
    -- With one place left, which is the end, the item has to fail.
    cases rounds with
    | zero => exact fun _ _ _ => by omega
    | succ rounds =>
      exact ((supplies.countedItem overflow tracks count).bindTaking fun _ _ _ _ => by omega).weaken
  | succ limit ih =>
    cases size with
    | zero => exact fun _ _ _ => by omega
    | succ size =>
      cases rounds with
      | zero => omega
      | succ rounds =>
        have counted := supplies.countedItem overflow tracks count
        refine (counted.bindTaking fun first => ?_).weaken
        have more := ih (tracks.shrink (Nat.le_succ size)) (by omega)
          (by omega : size ≤ rounds) (count + 1)
        exact supplies.takesThen (takesIf_takes _) (Nat.le_succ size)
          (Nat.zero_le 1) (.pure size _) fun token _ =>
            Tracks.after (more.andThen fun others => .pure size _) token

/-- Items between parentheses, after the opening one. -/
theorem listed {size limit fuel : Nat} (overflow : GrammarFault)
    (tracks : Tracks stream size 1 item rule) (short : size ≤ limit + 1) (enough : size ≤ fuel) :
    Tracks stream size 0 (listed source fuel overflow item) (Rule.listed limit overflow rule) := by
  refine (supplies.sees size .rightParen).andThen fun seen => ?_
  cases seen with
  | true => exact .pure size _
  | false => exact supplies.separated overflow tracks short enough 0

/--
A loop over items that each take a token.  The items are only read before the
end mark.
-/
theorem repeatWhile {size limit rounds : Nat} {goesOn : Reader Bool}
    {stop : Cursor → Bool} {item : Reader α} {rule : Rule α}
    (goes : ∀ place : Place, place.current ≤ stream.tokens.length →
      goesOn place = .ok (!((place.cursor stream).atEnd || stop (place.cursor stream))) place)
    (tracks : ∀ place : Place, place.current < stream.tokens.length →
      stream.tokens.length < place.current + size → Agrees stream place.current 1 (item place)
        (rule (place.cursor stream))) (short : size ≤ limit + 1) (enough : size ≤ rounds) :
    Tracks stream size 0 (repeatWhile goesOn item rounds) (Rule.repeatUntil stop rule limit) := by
  induction rounds generalizing size limit with
  | zero => exact fun _ _ _ => by omega
  | succ rounds ih =>
    intro place within room
    unfold Indexed.repeatWhile
    rw [bind_of_ok (goes place within)]
    cases stops : (place.cursor stream).atEnd || stop (place.cursor stream) with
    | true =>
      have stopped : Rule.repeatUntil stop rule limit
          (place.cursor stream) = .ok [] (place.cursor stream) := by
        cases limit with
        | zero => rfl
        | succ limit => simp only [Rule.repeatUntil, stops, if_true]
      rw [stopped]
      exact .ok [] place (Nat.le_refl _) within
    | false =>
      have before : place.current < stream.tokens.length := by
        cases supplies.faces within with
        | ending last found isEnd ahead =>
          simp [Cursor.atEnd, ahead] at stops
        | token token before found plain ahead => exact before
      cases limit with
      | zero => omega
      | succ limit =>
        have more : Tracks stream (size - 1) 0 (Indexed.repeatWhile goesOn item rounds)
            (Rule.repeatUntil stop rule limit) :=
          ih (fun place before room => tracks place before (by omega))
            (by omega) (by omega)
        have rest (first : α) : Tracks stream (size - 1) 0
            (do
              let others ← Indexed.repeatWhile goesOn item rounds
              return first :: others)
            (do
              let others ← Rule.repeatUntil stop rule limit
              return first :: others) :=
          more.andThen fun others => .pure _ _
        have agrees := (tracks place before room).bind fun first later passed within =>
            rest first later within (by omega)
        simp only [Rule.repeatUntil, stops]
        exact agrees.since (by omega) (Nat.le_refl _)

end Supplies

end

end Treewalk.Indexed
