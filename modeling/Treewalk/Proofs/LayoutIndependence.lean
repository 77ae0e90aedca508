import Treewalk.Proofs.RejectedTexts

/-!
# The layout of a text does not matter

Lines are kept in tokens, and through them in trees, in the closures of a
machine and in errors, but nothing is ever decided by them; they only order the
faults of a text that is no program.

Neither of two programs is the other one relabelled, since one token may stand
on several lines of the other text.  Both are compared with the program that
stands on no line at all.
-/

namespace Treewalk

open Scoping Diagnostic

/-- All tokens are moved to one line. -/
def Relabelling.lineless : Relabelling :=
  ⟨fun token => { token with line := 0 }, fun _ => rfl⟩

namespace Relabelling

theorem keepsLexemes_lineless : lineless.KeepsLexemes :=
  fun _ => rfl

end Relabelling

open Relabelling

/-! ## Diagnostics and outcomes up to lines -/

namespace Diagnostic

/-- The diagnostic, whatever the line it points at. -/
def withoutLine : Diagnostic → Diagnostic
  | lexical _ message => lexical 0 message
  | grammar _ location message => grammar 0 location message
  | scoping _ location message => scoping 0 location message
  | runtime error => runtime error.withoutLine
  | stream error => stream error

end Diagnostic

/--
Runs end in the same way up to lines.  The faults of a text that is no program
are the same, in the order in which they are found; each report sorts them by
its own lines.
-/
inductive Outcome.SameUpToLines : Outcome → Outcome → Prop where
  | completed : SameUpToLines .completed .completed
  | exhausted : SameUpToLines .exhausted .exhausted
  | grammar {found found'}
      (same : found.map withoutLine = found'.map withoutLine) :
      SameUpToLines (.failed (.grammar (sortByLine found)))
        (.failed (.grammar (sortByLine found')))
  | scoping {found found'}
      (same : found.map withoutLine = found'.map withoutLine) :
      SameUpToLines (.failed (.scoping found)) (.failed (.scoping found'))
  | runtime {error error'} (same : error.withoutLine = error'.withoutLine) :
      SameUpToLines (.failed (.runtime error)) (.failed (.runtime error'))
  | stream (error : StreamError) :
      SameUpToLines (.failed (.stream error)) (.failed (.stream error))

/-- Runs that end without a rejection need only be compared by their errors. -/
theorem Outcome.SameUpToLines.of_mapRuntime {outcome outcome' : Outcome}
    (runs : outcome.isRejection = false)
    (same : outcome.mapRuntime .withoutLine = outcome'.mapRuntime .withoutLine) :
    outcome.SameUpToLines outcome' := by
  cases outcome with
  | completed =>
    cases outcome' with
    | completed => exact .completed
    | exhausted => cases same
    | failed failure' => cases failure' <;> cases same
  | exhausted =>
    cases outcome' with
    | completed => cases same
    | exhausted => exact .exhausted
    | failed failure' => cases failure' <;> cases same
  | failed failure =>
    cases outcome' with
    | completed | exhausted => cases failure <;> cases same
    | failed failure' =>
      cases failure with
      | grammar found => cases runs
      | scoping found => cases runs
      | runtime error =>
        cases failure' with
        | runtime error' => exact .runtime (Failure.runtime.inj (Outcome.failed.inj same))
        | _ => cases same
      | stream error =>
        cases failure' with
        | stream error' =>
          cases same
          exact .stream error
        | _ => cases same

/-! ## Texts on other lines -/

/-- What a text is read as does not depend on lines, but for lines. -/
theorem ofList_lineless (tokens : List Token) : (TokenStream.ofList tokens).relabel lineless =
      ⟨(tokens.map lineless).takeWhile fun token => !token.isEnd,
        ((tokens.map lineless).find? Token.isEnd).getD (Scan.endToken 0)⟩ := by
  have overlooks : Token.isEnd ∘ lineless.token = Token.isEnd := rfl
  simp only [TokenStream.relabel, TokenStream.ofList, List.takeWhile_map, List.find?_map, overlooks]
  refine congrArg (TokenStream.mk _) ?_
  cases tokens.find? Token.isEnd <;> rfl

/-- Tokens that differ in lines give trees that do. -/
theorem parse_lineless {tokens tokens' : List Token}
    (same : tokens.map lineless = tokens'.map lineless) (firstId : ExprId) :
    (parse (.ofList tokens) firstId).relabel lineless 0 =
      (parse (.ofList tokens') firstId).relabel lineless 0 := by
  rw [← parse_relabel, ← parse_relabel, ofList_lineless, ofList_lineless, same]

theorem diagnostic_lineless (errors : List GrammarError) :
    (errors.map GrammarError.diagnostic).map withoutLine =
      (errors.map (GrammarError.relabel lineless)).map GrammarError.diagnostic := by
  rw [List.map_map, List.map_map]
  rfl

theorem scoping_diagnostic_lineless (findings : Findings) :
    (findings.errors.map ScopingError.diagnostic).map withoutLine =
      (findings.relabel lineless 0).errors.map ScopingError.diagnostic := by
  rw [Findings.relabel, List.map_map, List.map_map]
  rfl

/-! ## Runs -/

section

variable {text : String} {program : Program} {nextId : ExprId}
  (fuel : Nat) (clock : Nat → Float) (output : Sink)

/-- A program prints what it does on no line at all. -/
theorem run_lineless (read : readProgram text 0 = (.ok program, nextId))
    (clean : (analyse program).errors = []) :
    let bare := Stmt.relabelAll lineless 0 program
    let ended := Machine.conclude (Run.executeProgram .strict fuel bare
      ((Machine.initial clock output).recordDistances (analyse bare).distances))
    ended.1.mapRuntime .withoutLine = (run fuel clock output text).1.mapRuntime .withoutLine ∧
      ended.2.output = (run fuel clock output text).2.output := by
  intro bare ended
  let ledger : Ledger :=
    Ledger.recordAll ⟨.empty, 0⟩ (analyse program).distances nextId
  have resolved : Stmt.AllResolved ledger .outermost program :=
    Ledger.fresh_empty.resolved (resolve_of_readProgram read) clean
  rcases alike_relabelled Token.SameLexeme read clean resolved
    keepsLexemes_lineless keepsLexemes_lineless with ⟨alike, analysed⟩
  have machines := Machine.alike_initial Token.SameLexeme ledger.occurrences
    clock output (Ledger.recorded_pairing _ _)
  have similar := similar_program machines rfl fuel alike
  rw [run_eq_conclude read clean, show ended = Machine.conclude
    (Run.executeProgram .strict fuel bare ((Machine.initial clock output).recordDistances
        (analyse program).distances)) by rw [← analysed]]
  exact similar.conclude unseen_sameLexeme

theorem run_of_scoping_errors (read : readProgram text 0 = (.ok program, nextId))
    (breached : (analyse program).errors ≠ []) :
    (run fuel clock output text).1 = .failed (.scoping
        ((analyse program).errors.map ScopingError.diagnostic)) ∧
      (run fuel clock output text).2.output = output := by
  simp only [run, runWith, read, Machine.runProgramWith, Machine.analyse]
  cases errors : (analyse program).errors with
  | nil => exact absurd errors breached
  | cons error others => exact ⟨trivial, rfl⟩

theorem run_of_grammar_errors (sound : (scan text).errors = []) {errors : List GrammarError}
    (read : (parse (.ofList (scan text).tokens) 0).result = .error errors) :
    (run fuel clock output text).1 = .failed (.grammar
        (sortByLine (errors.map GrammarError.diagnostic))) ∧
      (run fuel clock output text).2.output = output := by
  simp only [run, runWith, readProgram, sound, accept, read]
  exact ⟨rfl, rfl⟩

theorem readProgram_of_sound (sound : (scan text).errors = [])
    (read : (parse (.ofList (scan text).tokens) 0).result = .ok program) :
    readProgram text 0 = (.ok program, (parse (.ofList (scan text).tokens) 0).nextId) := by
  simp only [readProgram, sound, accept, read]
  rfl

/-- Two programs that differ in lines do the same. -/
theorem sameUpToLines_of_programs {text' : String} {prog' : Program}
    {nextId' : ExprId} (read : readProgram text 0 = (.ok program, nextId))
    (read' : readProgram text' 0 = (.ok prog', nextId'))
    (same : Stmt.relabelAll lineless 0 program = Stmt.relabelAll lineless 0 prog') :
    (run fuel clock output text).1.SameUpToLines (run fuel clock output text').1 ∧
      (run fuel clock output text).2.output = (run fuel clock output text').2.output := by
  have findings : (analyse program).relabel lineless 0 = (analyse prog').relabel lineless 0 := by
    rw [← analyse_relabel keepsLexemes_lineless, ← analyse_relabel keepsLexemes_lineless, same]
  have breaches : (analyse program).errors = [] ↔ (analyse prog').errors = [] := by
    have errors := congrArg (fun findings => findings.errors = []) findings
    simpa only [Findings.relabel, List.map_eq_nil_iff, eq_iff_iff] using errors
  by_cases clean : (analyse program).errors = []
  · have bare := run_lineless fuel clock output read clean
    have bare' := run_lineless fuel clock output read' (breaches.mp clean)
    rw [← same] at bare'
    refine ⟨.of_mapRuntime ?_ (bare.1.symm.trans bare'.1), bare.2.symm.trans bare'.2⟩
    rw [run_eq_conclude read clean]
    exact Machine.isRejection_conclude _
  · have stopped := run_of_scoping_errors fuel clock output read clean
    have stopped' := run_of_scoping_errors fuel clock output read'
      (fun clean' => clean (breaches.mpr clean'))
    rw [stopped.1, stopped.2, stopped'.1, stopped'.2]
    refine ⟨.scoping ?_, rfl⟩
    rw [scoping_diagnostic_lineless, scoping_diagnostic_lineless, findings]

end

/--
The layout of a text does not matter.  Two texts without lexical faults whose
tokens have the same kinds, contents and lexemes write the same output and end
in the same way: completed, or with the same faults, breaches of the scope
rules or error, but for lines and for the order of faults that lines induce.
-/
theorem layout_does_not_matter {text text' : String}
    (sound : (scan text).errors = []) (sound' : (scan text').errors = [])
    (same : (scan text).tokens.map (fun token => (token.kind, token.lexeme)) =
      (scan text').tokens.map (fun token => (token.kind, token.lexeme)))
    (fuel : Nat) (clock : Nat → Float) (output : Sink) :
    (run fuel clock output text).1.SameUpToLines (run fuel clock output text').1 ∧
      (run fuel clock output text).2.output = (run fuel clock output text').2.output := by
  have lineless_eq (tokens : List Token) : tokens.map lineless =
      (tokens.map fun token => (token.kind, token.lexeme)).map
        fun content => (⟨content.1, content.2, 0⟩ : Token) := by
    rw [List.map_map]
    rfl
  have parsed := parse_lineless
    (show (scan text).tokens.map lineless = (scan text').tokens.map lineless by
      rw [lineless_eq, lineless_eq, same]) 0
  have results := congrArg Parsed.result parsed
  cases read : (parse (.ofList (scan text).tokens) 0).result with
  | error errors =>
    cases read' : (parse (.ofList (scan text').tokens) 0).result with
    | ok program' =>
      simp only [Parsed.relabel, read, read'] at results
      cases results
    | error errors' =>
      simp only [Parsed.relabel, read, read'] at results
      have stopped := run_of_grammar_errors fuel clock output sound read
      have stopped' :=
        run_of_grammar_errors fuel clock output sound' read'
      rw [stopped.1, stopped.2, stopped'.1, stopped'.2]
      refine ⟨.grammar ?_, rfl⟩
      rw [diagnostic_lineless, diagnostic_lineless, Except.error.inj results]
  | ok program =>
    cases read' : (parse (.ofList (scan text').tokens) 0).result with
    | error errors' =>
      simp only [Parsed.relabel, read, read'] at results
      cases results
    | ok program' =>
      simp only [Parsed.relabel, read, read'] at results
      exact sameUpToLines_of_programs fuel clock output (readProgram_of_sound sound read)
        (readProgram_of_sound sound' read') (Except.ok.inj results)

/-- An error on another line, after the same output. -/
theorem moved_text_runs_alike :
    let text := "var a = \"b\"; print a; print -a;"
    let text' := "var a\n= \"b\" ;// two\nprint a;print\t-a\n; "
    let clock := fun _ => (0 : Float)
    (scan text).errors = [] ∧ (scan text').errors = [] ∧
      (scan text).tokens.map (fun token => (token.kind, token.lexeme)) =
        (scan text').tokens.map (fun token => (token.kind, token.lexeme)) ∧
      (scan text).tokens ≠ (scan text').tokens ∧ (run 9 clock .unlimited text).1.SameUpToLines
        (run 9 clock .unlimited text').1 ∧ (run 9 clock .unlimited text).2.output =
        (run 9 clock .unlimited text').2.output := by
  intro text text' clock
  have sound : (scan text).errors = [] := by decide +kernel
  have sound' : (scan text').errors = [] := by decide +kernel
  have same : (scan text).tokens.map (fun token => (token.kind, token.lexeme)) =
        (scan text').tokens.map (fun token => (token.kind, token.lexeme)) := by
    decide +kernel
  have moved : (scan text).tokens ≠ (scan text').tokens := by decide +kernel
  exact ⟨sound, sound', same, moved, layout_does_not_matter sound sound' same 9 clock .unlimited⟩

end Treewalk
