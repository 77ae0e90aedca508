import Treewalk.Proofs.StatementVerdicts

/-!
# The first fatal fault

The faults that do not stop a rule are those of the lenient grammar's two
liberties.  The first fault that stops one points at the first token that
cannot stand where it does.
-/

namespace Treewalk.Grammar

open Rule

/-- The loop over the declarations of a program ends at no token. -/
theorem stops_nowhere (cursor : Cursor) : false = isAhead (fun _ => false) cursor.ahead := by
  cases cursor.ahead <;> rfl

theorem nothing_stops {test : Token → Bool} (token : Token)
    (passes : (fun _ => false) token = true) : test token = false :=
  absurd passes Bool.false_ne_true

/-- The rule for programs decides the lenient grammar. -/
theorem verdict_program (cursor : Cursor) :
    Verdict (.symbol .program) (Before (.symbol .program) (· = [])) cursor (program cursor) := by
  have declared := (decides_within cursor.ahead.length).2
  have read := (Decides.repeatUntil stops_nowhere rfl nothing_stops
    (fun _ _ => unseen_else nothing_stops) declared cursor.ahead.length
    (Nat.le_refl _)).andReturn (·.filterMap id)
  refine ((read cursor).judged (Nat.lt_succ_self _)).weaken (fun _ derived => .symbol derived) ?_
  rintro front back ⟨derived, rfl⟩ _
  exact ⟨matches_symbol.mp derived, .inl rfl⟩

/-- Without a fatal fault a program is read to its end. -/
theorem ahead_of_program {cursor after : Cursor} {read : Program}
    {noted : List GrammarError} (ran : program cursor = .ok read after)
    (errors : after.errors = cursor.errors ++ noted)
    (harmless : Harmless noted) : after.ahead = [] := by
  have declared := (decides_within cursor.ahead.length).2
  unfold program at ran
  simp only [Bind.bind, EStateM.bind] at ran
  cases loop : repeatUntil (fun _ => false)
      (declarationWithin cursor.ahead.length) cursor.ahead.length cursor with
  | error error last =>
    rw [loop] at ran
    cases ran
  | ok values last =>
    rw [loop] at ran
    cases ran
    have ends := Decides.ends_of_repeatUntil stops_nowhere rfl nothing_stops
      (fun _ _ => unseen_else nothing_stops) declared cursor.ahead.length
      (Nat.le_refl _) (Nat.lt_succ_self _) loop errors harmless
    rw [Ends, ← stops_nowhere] at ends
    simpa using ends

end Treewalk.Grammar

namespace Treewalk

open Grammar Rule List

/-- The faults that were reported. -/
def Parsed.faults (parsed : Parsed) : List GrammarError :=
  match parsed.result with
  | .ok _ => []
  | .error errors => errors

/-- The tokens can be completed to a text of the lenient grammar. -/
def Viable (tokens : List Token) : Prop :=
  ∃ program ending, Matches (.symbol .program) program ∧
    ending.isEnd = true ∧ tokens <+: program ++ [ending]

/-- The faults of the liberties that the lenient grammar takes. -/
def lenientFaults : List GrammarFault :=
  [.invalidTarget, .tooManyParameters, .tooManyArguments]

/-- The liberties are the faults that stop no rule. -/
theorem mem_lenientFaults {fault : GrammarFault} : fault ∈ lenientFaults ↔ fault.stops = false := by
  cases fault <;> simp [lenientFaults, GrammarFault.stops]

section

variable {tokens : List Token} {ending : Token} (ends : ending.isEnd = true)
  (only : ∀ token ∈ tokens, token.isEnd = false)

include ends only

/-- The tokens in front of the first end mark. -/
theorem takeWhile_plain (others : List Token) :
    (tokens ++ ending :: others).takeWhile (!·.isEnd) = tokens := by
  rw [takeWhile_append_of_pos (by simpa using only)]
  simp [ends]

theorem ofList_append_ending : TokenStream.ofList (tokens ++ [ending]) = ⟨tokens, ending⟩ := by
  have first : (tokens ++ [ending]).find? Token.isEnd = some ending := by
    have unended : tokens.find? Token.isEnd = none := by simpa using only
    simp [find?_append, unended, ends]
  simp only [TokenStream.ofList, first, takeWhile_plain ends only]

end

theorem faults_parse {stream : TokenStream} {firstId : ExprId} {read : Program} {after : Cursor}
    (ran : program ⟨stream.tokens, stream.ending, firstId, []⟩ = .ok read after) :
    (parse stream firstId).faults = after.errors := by
  unfold parse
  rw [ran]
  cases known : after.errors <;> simp [Parsed.faults, known]

/-- The first fatal fault is found after faults that are none. -/
theorem find?_of_first {noted errors : List GrammarError}
    {error : GrammarError} (first : [] ++ (noted ++ [error]) <+: errors)
    (harmless : Harmless noted) (stops : error.fault.stops = true) :
    errors.find? (fun error => error.fault ∉ lenientFaults) = some error := by
  rcases first with ⟨later, rfl⟩
  have skipped : noted.find? (fun error => error.fault ∉ lenientFaults) = none := by
    have noticed : ∀ error ∈ noted, error.fault.stops = false := harmless
    simpa [mem_lenientFaults] using noticed
  rw [nil_append, List.append_assoc, find?_append, skipped]
  simp [mem_lenientFaults, stops]

/-- Tokens that start a program are viable. -/
theorem viable_of_prefix {tokens taken more : List Token}
    (derived : Matches (.symbol .program) (taken ++ more))
    (start : tokens <+: taken) : Viable tokens := by
  refine ⟨taken ++ more, ⟨.endOfText, "", 0⟩, derived, rfl, ?_⟩
  rw [List.append_assoc]
  exact start.trans (prefix_append _ _)

/-- What no text goes on with is not viable. -/
theorem not_viable {taken rest : List Token} {ending : Token} (ends : ending.isEnd = true)
    (only : ∀ token ∈ taken ++ rest, token.isEnd = false)
    (excluded : ∀ program other, Matches (.symbol .program) program →
      program = taken ++ other → other.head? ≠ rest.head?) :
    ¬Viable (taken ++ [rest.headD ending]) := by
  rintro ⟨program, ending', derived, ends', more, same⟩
  -- A text is what stands in front of the first end mark.
  have cut := congrArg (List.takeWhile fun token => !token.isEnd) same
  rw [takeWhile_plain ends' derived.plain, List.append_assoc] at cut
  cases rest with
  | nil =>
    rw [append_nil] at only
    rw [headD_nil, singleton_append, takeWhile_plain ends only] at cut
    exact excluded program [] derived (cut ▸ (append_nil _).symm) rfl
  | cons token rest =>
    have before : ∀ other ∈ taken, other.isEnd = false :=
      fun other mem => only other (mem_append_left _ mem)
    have plain : token.isEnd = false := only token (by simp)
    rw [headD_cons, singleton_append,
      takeWhile_append_of_pos (by simpa using before),
      takeWhile_cons_of_pos (by simp [plain])] at cut
    exact excluded program _ derived cut.symm rfl

/--
On tokens of the lenient grammar in front of their only end mark, only the
faults that the grammar is lenient about are reported.  On any other tokens the
first other fault points at the first token that no text of the grammar has in
its place after the tokens before it.
-/
theorem first_fatal_fault_is_at_first_impossible_token {tokens : List Token}
    {ending : Token} (ends : ending.isEnd = true)
    (only : ∀ token ∈ tokens, token.isEnd = false) (firstId : ExprId) :
    let all := tokens ++ [ending]
    let faults := (parse (.ofList all) firstId).faults
    (Matches (.symbol .program) tokens → ∀ error ∈ faults, error.fault ∈ lenientFaults) ∧
    (¬Matches (.symbol .program) tokens → ∃ index token error, all[index]? = some token ∧
        faults.find? (fun error => error.fault ∉ lenientFaults) = some error ∧ error.diagnostic =
          .grammar token.line token.location error.fault.message ∧ ¬Viable (all.take (index + 1)) ∧
        ∀ earlier < index, Viable (all.take (earlier + 1))) := by
  intro all faults
  rcases Indexed.program_ok ⟨tokens, ending, firstId, []⟩ with
    ⟨read, after, ran⟩
  have known : faults = after.errors := by
    have stream : TokenStream.ofList all = ⟨tokens, ending⟩ :=
      ofList_append_ending ends only
    simp only [faults, stream]
    exact faults_parse ran
  have verdict := verdict_program ⟨tokens, ending, firstId, []⟩
  rw [ran] at verdict
  rw [known]
  cases verdict with
  | accepts _ taken noted ahead _ errors harmless derived _ =>
    have whole : Matches (.symbol .program) tokens := by
      have ahead : tokens = taken ++ after.ahead := ahead
      rw [ahead, ahead_of_program ran errors harmless, append_nil]
      exact derived
    refine ⟨fun _ error member => ?_, fun unmatched => absurd whole unmatched⟩
    rw [errors, nil_append] at member
    exact mem_lenientFaults.mpr (harmless error member)
  | rejects taken rest noted error ahead first harmless stops points viable excluded =>
    rcases viable with ⟨more, derived⟩
    have ahead : tokens = taken ++ rest := ahead
    have cut : all = taken ++ (rest ++ [ending]) := by
      rw [← List.append_assoc, ← ahead]
    refine ⟨fun derived => ?_, fun _ => ⟨taken.length, rest.headD ending,
      error, ?_, ?_, ?_, ?_, ?_⟩⟩
    · refine absurd rfl (excluded tokens [] rest ⟨derived, rfl⟩ ?_)
      rw [append_nil, ahead]
    · rw [cut, getElem?_append_right (Nat.le_refl _), Nat.sub_self]
      cases rest <;> rfl
    · exact find?_of_first first harmless stops
    · rw [GrammarError.diagnostic, Diagnostic.grammarAt, points]
    · have taken' : all.take (taken.length + 1) = taken ++ [rest.headD ending] := by
        rw [cut, take_append, take_of_length_le (Nat.le_succ _), Nat.add_sub_cancel_left]
        cases rest <;> rfl
      rw [taken']
      refine not_viable ends (ahead ▸ only) ?_
      intro program other derived same
      exact excluded program [] other ⟨derived, rfl⟩ (by rw [append_nil, same])
    · intro earlier before
      refine viable_of_prefix derived ?_
      rw [cut, take_append_of_le_length before]
      exact take_prefix _ _

/-- Of an invalid target and a missing value only the latter is fatal. -/
theorem missing_value_is_the_first_fatal_fault :
    let tokens : List Token :=
      [⟨.punctuator .leftParen, "(", 1⟩, ⟨.identifier, "a", 1⟩,
        ⟨.punctuator .rightParen, ")", 1⟩, ⟨.punctuator .equal, "=", 1⟩,
        ⟨.identifier, "b", 1⟩, ⟨.punctuator .equal, "=", 1⟩, ⟨.punctuator .semicolon, ";", 2⟩]
    let ending : Token := ⟨.endOfText, "", 2⟩
    let all := tokens ++ [ending]
    let faults := (parse (.ofList all) 0).faults
    (ending.isEnd = true ∧ ∀ token ∈ tokens, token.isEnd = false) ∧
    ¬Matches (.symbol .program) tokens ∧
    ∃ index token error, all[index]? = some token ∧
      faults.find? (fun error => error.fault ∉ lenientFaults) = some error ∧ error.diagnostic =
        .grammar token.line token.location error.fault.message ∧ ¬Viable (all.take (index + 1)) ∧
      ∀ earlier < index, Viable (all.take (earlier + 1)) := by
  intro tokens ending all faults
  have ends : ending.isEnd = true := rfl
  have only : ∀ token ∈ tokens, token.isEnd = false := by
    simp [tokens, Token.isEnd]
  have settled := first_fatal_fault_is_at_first_impossible_token ends only 0
  have unmatched : ¬Matches (.symbol .program) tokens := by
    intro derived
    have reported : ⟨.expression, ⟨.punctuator .semicolon, ";", 2⟩⟩ ∈ faults := by
      decide +kernel
    have lenient := settled.1 derived _ reported
    exact absurd lenient (by decide)
  exact ⟨⟨ends, only⟩, unmatched, settled.2 unmatched⟩

end Treewalk
