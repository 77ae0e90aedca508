import Treewalk.Proofs.Simulation

/-!
# Whole programs that run alike

Programs that are alike end alike: with the same output, and with outcomes
that differ at most in what is left open about the token of an error.
-/

namespace Treewalk

open Machine

/-! ## Outcomes -/

namespace RuntimeError

/-- The error, whatever the text of the token it is about. -/
def withoutLexeme (error : RuntimeError) : RuntimeError :=
  { error with lexeme := "" }

/-- The error, whatever the line it is on. -/
def withoutLine (error : RuntimeError) : RuntimeError :=
  { error with line := 0 }

end RuntimeError

namespace Outcome

/-- View the error that stopped a run, if one did. -/
def mapRuntime (view : RuntimeError → RuntimeError) : Outcome → Outcome
  | failed (.runtime error) => failed (.runtime (view error))
  | outcome => outcome

theorem mapRuntime_id (outcome : Outcome) : outcome.mapRuntime id = outcome := by
  cases outcome with
  | failed failure => cases failure <;> rfl
  | _ => rfl

end Outcome

/-- A view of errors that does not tell the tokens of a relation apart. -/
def RuntimeError.Unseen (view : RuntimeError → RuntimeError) (same : Token → Token → Prop) : Prop :=
  ∀ (fault : Fault) {token token' : Token}, same token token' →
    view (fault.report token') = view (fault.report token)

variable {prog' : Program} {machine' machine : Machine}

namespace Machine

/-- Flushing looks at the output only. -/
theorem flushThen_congr (view : RuntimeError → RuntimeError)
    (outputs : machine'.output = machine.output) {outcome outcome' : Outcome}
    (outcomes : outcome'.mapRuntime view = outcome.mapRuntime view) :
    (machine'.flushThen outcome').1.mapRuntime view =
        (machine.flushThen outcome).1.mapRuntime view ∧ (machine'.flushThen outcome').2.output =
        (machine.flushThen outcome).2.output := by
  unfold flushThen Run.flush
  simp only [outputs]
  cases machine.output.flush.2 with
  | none => exact ⟨outcomes, rfl⟩
  | some error => exact ⟨rfl, rfl⟩

end Machine

section

variable {same : Token → Token → Prop} {pairing : Pairing} {world : World}

/-- Similar runs end with outcomes that look the same. -/
theorem Similar.conclude {view : RuntimeError → RuntimeError}
    (unseen : RuntimeError.Unseen view same) {post : World → Unit → Unit → Prop}
    {result result' : EStateM.Result Signal Machine Unit}
    (similar : Similar same pairing world machine machine' post result result') :
    (conclude result').1.mapRuntime view = (conclude result).1.mapRuntime view ∧
      (conclude result').2.output = (conclude result).2.output := by
  cases similar with
  | ok advances holds => exact flushThen_congr view advances.alike.output rfl
  | error advances ends =>
    have outputs := advances.alike.output
    cases ends with
    | fault fault tokens =>
      refine flushThen_congr view outputs ?_
      simp only [Outcome.mapRuntime, unseen fault tokens]
    | stream error | exhausted => exact ⟨rfl, outputs⟩
    | returned values => exact flushThen_congr view outputs rfl

/-- Programs that are alike take corresponding steps. -/
theorem similar_counted {access : Access} (faithful : access.Faithful same pairing)
    (alike : machine.Alike same pairing world machine') (found : world.Hosts machine machine' [])
    (fuel : Nat) {prog : Program} (programs : Stmt.AllAlike same pairing [] prog prog') :
    Similar same pairing world machine machine' (fun _ _ _ => True)
      (Run.executeProgram access fuel prog machine)
      (Run.Counted.executeProgram pairing.marks access fuel prog' machine') := by
  induction prog generalizing prog' world machine machine' with
  | nil =>
    cases programs
    exact similar_pure alike trivial
  | cons stmt stmts ih =>
    cases programs with
    | cons head tail =>
      refine ((simulates faithful fuel).execute alike found head).bind ?_
      intro later next next' _ _ advances _
      exact ih advances.alike (advances.found found) tail

theorem Run.Counted.executeProgram_unmarked (access : Access) (fuel : Nat) (prog : Program) :
    executeProgram (fun _ => false) access fuel prog = Run.executeProgram access fuel prog := by
  induction prog with
  | nil => rfl
  | cons stmt stmts ih =>
    rw [executeProgram, Run.executeProgram, ih, (unmarked access fuel).2.2.2.2.1]

/-- Programs without marks that are alike take corresponding steps. -/
theorem similar_program {ledger ledger' : Ledger}
    (alike : machine.Alike same (ledger.pairing ledger') world machine')
    (found : world.Hosts machine machine' []) (fuel : Nat) {prog : Program}
    (programs : Stmt.AllAlike same (ledger.pairing ledger') [] prog prog') :
    Similar same (ledger.pairing ledger') world machine machine' (fun _ _ _ => True)
      (Run.executeProgram .strict fuel prog machine)
      (Run.executeProgram .strict fuel prog' machine') := by
  rw [← Run.Counted.executeProgram_unmarked .strict fuel prog']
  exact similar_counted (Access.faithful_strict _ _) alike found fuel programs

/-- Two new machines correspond, whatever is recorded for other ids. -/
theorem Machine.alike_initial (same : Token → Token → Prop) (pairing : Pairing)
    (clock : Nat → Float) (output : Sink) {distances distances' : Distances}
    (recorded : pairing.Recorded distances distances') :
    Machine.Alike same pairing [(0, [])]
      { initial clock output with distances := distances }
      { initial clock output with distances := distances' } where
  store := by
    have only : ∀ {scope scope' : ScopeId} {chain : List Renaming},
        ([(0, [])] : World)[scope]? = some (scope', chain) →
          scope = 0 ∧ scope' = 0 ∧ chain = [] := by
      intro scope scope' chain found
      cases scope with
      | zero =>
        cases found
        exact ⟨rfl, rfl, rfl⟩
      | succ scope => cases found
    constructor
    · rfl
    · intro scope scope' chain found
      rcases only found with ⟨_, rfl, _⟩
      exact Nat.zero_lt_one
    · intro scope other scope' chain chain' shares again
      exact (only shares.found).1.trans (only again.found).1.symm
    · intro scope scope' found
      rcases only found with ⟨rfl, rfl, _⟩
      exact ⟨rfl, rfl⟩
    · intro scope scope' rename outer found
      cases (only found).2.2
    · intro scope scope' chain shares name
      rcases only shares.found with ⟨rfl, rfl, rfl⟩
      simp only [initial, Renaming.innermost, List.headD_nil,
        Renaming.identity_apply, Store.getLocal?_define, Store.getLocal?_push]
      split
      · exact .some (.native .clock)
      · split
        · exact .none
        · exact .none
  fieldsSize := rfl
  fields := by
    intro identity
    exact .none
  nextIdentity := rfl
  global := rfl
  distances := recorded
  output := rfl
  clock := rfl
  readings := rfl

end

variable {nextId : ExprId} {prog : Program} {text : String}

theorem Session.Coherent.eval_eq_conclude {session : Session} (coherent : session.Coherent)
    (read : readProgram text session.nextId = (.ok prog, nextId))
    (clean : (Scoping.analyse prog).errors = []) (fuel : Nat) :
    session.eval fuel text = let ended := conclude (Run.executeProgram .strict fuel prog
        (session.machine.recordDistances (Scoping.analyse prog).distances))
      (ended.1, ⟨ended.2, nextId⟩) := by
  rw [← (coherent.eval ⟨fun _ _ => Run.exhausted, fun _ _ _ => Run.exhausted⟩ fuel text).1,
    ← interpretWith_eq_conclude]
  simp only [Session.evalWith, read, runProgramWith, analyse, clean]
  rfl

/-- An accepted text is run as its program. -/
theorem run_eq_conclude (read : readProgram text 0 = (.ok prog, nextId))
    (clean : (Scoping.analyse prog).errors = []) (fuel : Nat) (clock : Nat → Float)
    (output : Sink) :
    run fuel clock output text = conclude (Run.executeProgram .strict fuel prog
        ((initial clock output).recordDistances (Scoping.analyse prog).distances)) := by
  have evaluated :=
    (Session.coherent_start clock output).eval_eq_conclude read clean fuel
  rw [Session.eval] at evaluated
  rw [run, Session.runWith_eq_evalWith, evaluated]
  rfl

/-- Accepted texts of programs that are alike run alike. -/
theorem runs_alike {same : Token → Token → Prop} {view : RuntimeError → RuntimeError}
    (unseen : RuntimeError.Unseen view same) {text' : String}
    (read : readProgram text 0 = (.ok prog, nextId))
    (read' : readProgram text' 0 = (.ok prog', nextId)) (clean : (Scoping.analyse prog).errors = [])
    (analysed : Scoping.analyse prog' = Scoping.analyse prog) {ledger : Ledger}
    (recorded : ledger.distances = Distances.empty.recordAll (Scoping.analyse prog).distances)
    (alike : Stmt.AllAlike same ledger.occurrences [] prog prog') (fuel : Nat) (clock : Nat → Float)
    (output : Sink) :
    (run fuel clock output text').2.output = (run fuel clock output text).2.output ∧
      (run fuel clock output text').1.mapRuntime view =
        (run fuel clock output text).1.mapRuntime view := by
  have clean' : (Scoping.analyse prog').errors = [] := by
    rw [analysed]
    exact clean
  rw [run_eq_conclude read' clean', run_eq_conclude read clean, analysed]
  have machines := alike_initial same ledger.occurrences clock output
    (ledger.recorded_pairing ledger)
  rw [recorded] at machines
  exact ((similar_program machines rfl fuel alike).conclude unseen).symm

end Treewalk
