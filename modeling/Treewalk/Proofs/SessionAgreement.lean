import Treewalk.Proofs.Concatenation
import Treewalk.Proofs.ProgramSimulation
import Treewalk.Proofs.RespelledStatements

/-!
# A session agrees with the run of one text

Running two texts one after the other in a session is running the text that
joins them.  The joined program has further distances recorded from the start,
and its second half stands on later lines.  Neither shows: distances of ids
that are not yet in use are not looked at, and lines only turn up in errors.
-/

namespace Treewalk

open Scoping RuntimeError

/-! ## Joined programs -/

/-- Programs can be analysed one after the other. -/
theorem Scoping.analyse_append (program others : Program) :
    analyse (program ++ others) = analyse program ++ analyse others := by
  unfold analyse
  induction program with
  | nil => rfl
  | cons stmt stmts ih =>
    rw [List.cons_append, ofStmts, ofStmts, Context.after_of_global rfl, ih, Findings.append_assoc]

/-- Programs can be run one after the other. -/
theorem Run.executeProgram_append (access : Access) (fuel : Nat)
    (program others : Program) (machine : Machine) :
    executeProgram access fuel (program ++ others) machine = (executeProgram access fuel program >>=
        fun _ => executeProgram access fuel others) machine := by
  induction program generalizing machine with
  | nil => rfl
  | cons stmt stmts ih =>
    simp only [List.cons_append, executeProgram, Bind.bind, EStateM.bind]
    cases executeWith access fuel stmt machine with
    | ok value later => exact ih later
    | error signal later => rfl

/-- A respelling that gives no token a new name. -/
def Respelling.trivial : Respelling where
  old := ""
  new := ""
  target _ := false
  marked _ := false
  old_ne := by decide
  new_ne := by decide

variable {result : EStateM.Result Signal Machine Unit} {program : Program} {machine last : Machine}
  {text : String} {fuel : Nat}

/-- An accepted program is alike to what it becomes on other lines. -/
theorem alike_relabelled (same : Token → Token → Prop) {firstId nextId : ExprId} {ledger : Ledger}
    {change : Relabelling} (read : readProgram text firstId = (.ok program, nextId))
    (clean : (analyse program).errors = []) (resolved : Stmt.AllResolved ledger .outermost program)
    (keeps : change.KeepsLexemes) (unchanged : ∀ token, same token (change token)) :
    Stmt.AllAlike same ledger.occurrences [] program (Stmt.relabelAll change 0 program) ∧
      analyse (Stmt.relabelAll change 0 program) = analyse program := by
  have between : Respelling.Between .trivial same .identity change :=
    ⟨fun _ => rfl, keeps, unchanged⟩
  rcases readProgram_ok_iff.mp read with ⟨sound, derivation⟩
  have cut := Scan.cut_cutAll (Nat.le_refl text.toList.length)
  rw [cut.stream_eq (cut.sound_iff.mp sound)] at derivation
  have uses : ∀ use ∈ Stmt.usesAll ledger.distances [] program, use.Respelled .trivial := by
    intro use mem
    refine ⟨?_, nofun, ?_⟩
    · cases use.declaration <;> rfl
    · exact (cut.mem_tokens 1 _ (derivation.token_mem_of_mem_uses mem)).2
  have result := between.program resolved uses clean
  rw [Stmt.relabelAll_identity] at result
  exact result

/-- Tokens of one text, perhaps on different lines. -/
def Token.SameLexeme (token token' : Token) : Prop :=
  token'.lexeme = token.lexeme

/-! ## How runs end -/

theorem unseen_sameLexeme : RuntimeError.Unseen withoutLine Token.SameLexeme := by
  intro fault token token' lexeme
  simp only [withoutLine, Fault.report, ofToken,
    show token'.lexeme = token.lexeme from lexeme]

theorem Machine.Coherent.ends_program {ledger : Ledger} (coherent : machine.Coherent ledger)
    (fuel : Nat) (resolved : Stmt.AllResolved ledger .outermost program) :
    (Discipline.covering ledger machine.globals).Ends machine (fun _ _ => True) False
      (Run.executeProgram .strict fuel program machine) := by
  have agree := agree_executeProgram coherent
    ⟨fun _ _ => Run.exhausted, fun _ _ _ => Run.exhausted⟩ fuel resolved
  rw [Access.strict, agree.same]
  exact agree.ends

namespace Machine

theorem ok_of_completed {rules : Discipline} {post : Machine → Unit → Prop}
    (ends : rules.Ends machine post False result) (completed : (conclude result).1 = .completed) :
    ∃ last, result = .ok () last := by
  cases result with
  | ok value last => exact ⟨last, rfl⟩
  | error signal last =>
    cases signal with
    | fault fault token =>
      simp only [conclude, flushThen, Run.flush] at completed
      cases flushed : last.output.flush.2 <;> simp only [flushed] at completed <;> cases completed
    | stream error | exhausted => cases completed
    | returned value => exact ends.2.1.elim

end Machine

/-- Where flushes do not fail, a run adds to the output. -/
theorem Similar.output_grows {same : Token → Token → Prop} {pairing : Pairing} {world : World}
    {machine' : Machine} {post : World → Unit → Unit → Prop}
    {result' : EStateM.Result Signal Machine Unit}
    (similar : Similar same pairing world machine machine' post result result')
    (flushes : machine.output.flushes = none) :
    machine.output.Grows (Machine.conclude result).2.output := by
  cases similar with
  | ok advances holds =>
    have kept := advances.output.flushes.trans flushes
    rw [Machine.conclude, Machine.flushThen_eq kept]
    exact advances.output
  | error advances ends =>
    have kept := advances.output.flushes.trans flushes
    cases ends with
    | fault fault tokens | returned values =>
      rw [Machine.conclude, Machine.flushThen_eq kept]
      exact advances.output
    | _ => exact advances.output

/-! ## Two texts in turn -/

/-- Two texts that a new session accepts one after the other. -/
structure Consecutive (text text' : String) (program program' : Program)
    (middleId nextId : ExprId) : Prop where
  read : readProgram text 0 = (.ok program, middleId)
  clean : (analyse program).errors = []
  read' : readProgram text' middleId = (.ok program', nextId)
  clean' : (analyse program').errors = []

theorem exists_consecutive {text' : String} (accepted : isAccepted text = true)
    (accepted' : isAccepted text' = true) :
    ∃ program program' middleId nextId,
      Consecutive text text' program program' middleId nextId := by
  rcases exists_of_isAccepted accepted with ⟨program, middleId, read, clean⟩
  rcases exists_of_isAccepted accepted' with ⟨other, bound, read', clean'⟩
  refine ⟨program, Stmt.relabelAll .identity middleId other, middleId,
    bound + middleId, read, clean, readProgram_resume read' middleId, ?_⟩
  rw [analyse_relabel (fun _ => rfl)]
  exact Findings.errors_relabel.mpr clean'

namespace Consecutive

variable {text' : String} {program' : Program} {middleId nextId : ExprId}

/-- What a session has recorded after the first text. -/
def middle (program : Program) (middleId : ExprId) : Ledger :=
  Ledger.recordAll ⟨.empty, 0⟩ (analyse program).distances middleId

/-- What a session has recorded after both texts. -/
def final (program program' : Program) (middleId nextId : ExprId) : Ledger :=
  (middle program middleId).recordAll (analyse program').distances nextId

section

variable (texts : Consecutive text text' program program' middleId nextId)

include texts

theorem fresh_middle : (middle program middleId).Fresh :=
  Ledger.fresh_empty.recordAll (Nat.zero_le _) (resolve_of_readProgram texts.read)

theorem resolved_middle : Stmt.AllResolved (middle program middleId) .outermost program := by
  have resolve := resolve_of_readProgram texts.read
  exact Ledger.fresh_empty.resolved resolve texts.clean

theorem middle_le : (middle program middleId).bound ≤ nextId := by
  have increasing := readProgram_firstId_le text' middleId
  rw [texts.read'] at increasing
  exact increasing

theorem extends_final :
    (middle program middleId).Extends (final program program' middleId nextId) :=
  Ledger.extends_recordAll texts.middle_le (resolve_of_readProgram texts.read')

theorem resolved_final : Stmt.AllResolved (final program program' middleId nextId) .outermost
      program' := by
  have resolve := resolve_of_readProgram texts.read'
  exact texts.fresh_middle.resolved resolve texts.clean'

/-- The joined text is the joined program, on later lines. -/
theorem read_joined :
    ∃ lowered, readProgram (text ++ "\n" ++ text') 0 = (.ok (program ++ lowered), nextId) ∧
      analyse (program ++ lowered) = analyse program ++ analyse program' ∧
      Stmt.AllAlike Token.SameLexeme
        (final program program' middleId nextId).occurrences [] program'
        lowered := by
  have keeps : Relabelling.KeepsLexemes (.lowered (Scan.newlines text.toList + 1)) := fun _ => rfl
  rcases alike_relabelled Token.SameLexeme texts.read' texts.clean'
    texts.resolved_final keeps keeps with ⟨alike, analysed⟩
  refine ⟨_, readProgram_append texts.read texts.read', ?_, alike⟩
  rw [analyse_append, analysed]

end

section

variable (clock : Nat → Float) (output : Sink)

/-- The machine of a new session that has analysed the first text. -/
def sessionMachine (program : Program) : Machine :=
  (Machine.initial clock output).recordDistances (analyse program).distances

/-- The machine of a run that has analysed both texts. -/
def wholeMachine (program program' : Program) : Machine :=
  (sessionMachine clock output program).recordDistances (analyse program').distances

section

variable (texts : Consecutive text text' program program' middleId nextId)

include texts

theorem coherent_sessionMachine :
    (sessionMachine clock output program).Coherent (middle program middleId) :=
  (Session.coherent_start clock output).machine.recordAll (Nat.zero_le _)
    (resolve_of_readProgram texts.read)

theorem coherent_wholeMachine : (wholeMachine clock output program program').Coherent
      (final program program' middleId nextId) :=
  (texts.coherent_sessionMachine clock output).recordAll texts.middle_le
    (resolve_of_readProgram texts.read')

/-- The first program does not see the later distances. -/
theorem similar_first
    (same : Token → Token → Prop) (reflexive : ∀ token, same token token) (fuel : Nat) :
    Similar same (middle program middleId).occurrences [(0, [])]
      (sessionMachine clock output program) (wholeMachine clock output program program')
      (fun _ _ _ => True)
      (Run.executeProgram .strict fuel program (sessionMachine clock output program))
      (Run.executeProgram .strict fuel program (wholeMachine clock output program program')) := by
  have machines := Machine.alike_initial same (middle program middleId).occurrences clock output
    (fun _ id' _ _ paired =>
      ⟨paired.1.2, (texts.extends_final.same id' paired.2.1).trans paired.2.2⟩)
  have keeps : Relabelling.identity.KeepsLexemes := fun _ => rfl
  have alike := (alike_relabelled same texts.read texts.clean
    texts.resolved_middle keeps reflexive).1
  rw [Stmt.relabelAll_identity] at alike
  exact similar_program machines rfl fuel alike

theorem run_joined : ∃ lowered, Stmt.AllAlike Token.SameLexeme
        (final program program' middleId nextId).occurrences [] program' lowered ∧
      ∀ fuel, run fuel clock output (text ++ "\n" ++ text') =
        Machine.conclude ((Run.executeProgram .strict fuel program >>=
          fun _ => Run.executeProgram .strict fuel lowered)
            (wholeMachine clock output program program')) := by
  rcases texts.read_joined with ⟨lowered, read, analysed, alike⟩
  refine ⟨lowered, alike, ?_⟩
  intro fuel
  have clean : (analyse (program ++ lowered)).errors = [] := by
    rw [analysed]
    show (analyse program).errors ++ (analyse program').errors = []
    rw [texts.clean, texts.clean', List.append_nil]
  have recorded : (Machine.initial clock output).recordDistances
      (analyse (program ++ lowered)).distances = wholeMachine clock output program program' := by
    rw [analysed]
    show Machine.recordDistances _ ((analyse program).distances ++ (analyse program').distances) = _
    rw [Machine.recordDistances, Distances.recordAll, List.foldl_append]
    rfl
  rw [run_eq_conclude read clean, recorded, Run.executeProgram_append]

/-- After the first text, the session catches up on what is recorded. -/
theorem alike_resumed {same : Token → Token → Prop} {world : World} {last' : Machine}
    (alike : last.Alike same (middle program middleId).occurrences world last')
    (ran : Run.executeProgram .strict fuel program
      (sessionMachine clock output program) = .ok () last)
    (ran' : Run.executeProgram .strict fuel program
      (wholeMachine clock output program program') = .ok () last') :
    Machine.Alike same (final program program' middleId nextId).occurrences world
      (last.recordDistances (analyse program').distances) last' := by
  have ends := (texts.coherent_sessionMachine clock output).ends_program fuel texts.resolved_middle
  have ends' := (texts.coherent_wholeMachine clock output).ends_program fuel
    (texts.resolved_middle.extend texts.extends_final)
  rw [ran] at ends
  rw [ran'] at ends'
  have distances : (last.recordDistances (analyse program').distances) =
      { last with distances := (final program program' middleId nextId).distances } := by
    rw [Machine.recordDistances, ends.1.keeps.coherent.distances]
    rfl
  have distances' : last' =
      { last' with distances := (final program program' middleId nextId).distances } := by
    rw [← ends'.1.keeps.coherent.distances]
  rw [distances, distances']
  exact alike.extend (texts.extends_final.pairing texts.extends_final) (Ledger.recorded_pairing _ _)

theorem eval_first
    (ran : Run.executeProgram .strict fuel program (sessionMachine clock output program) = result) :
    (Session.start clock output).eval fuel text =
      ((Machine.conclude result).1, ⟨(Machine.conclude result).2, middleId⟩) := by
  rw [← ran]
  exact (Session.coherent_start clock output).eval_eq_conclude texts.read texts.clean fuel

/-- A first program that fails ends both. -/
theorem joined_of_error {signal : Signal} (ran : Run.executeProgram .strict fuel program
      (sessionMachine clock output program) = .error signal last) :
    (run fuel clock output (text ++ "\n" ++ text')).1 = (Machine.conclude (.error signal last)).1 ∧
      (run fuel clock output (text ++ "\n" ++ text')).2.output =
        (Machine.conclude (.error signal last)).2.output := by
  rcases texts.run_joined clock output with ⟨lowered, _, joined⟩
  have similar := texts.similar_first clock output Eq (fun _ => rfl) fuel
  have unseen : RuntimeError.Unseen id Eq := by
    rintro fault token _ rfl
    rfl
  rw [joined]
  simp only [Bind.bind, EStateM.bind]
  rw [ran] at similar
  generalize Run.executeProgram .strict fuel program
    (wholeMachine clock output program program') = result' at similar ⊢
  have ended := similar.conclude unseen
  rw [Outcome.mapRuntime_id, Outcome.mapRuntime_id] at ended
  cases similar with
  | error advances ends => exact ended

/-- If the first text is completed, the joined run goes on with the second. -/
theorem joined_of_ok (flushes : output.flushes = none)
    (ran : Run.executeProgram .strict fuel program
      (sessionMachine clock output program) = .ok () last) :
    let ended := Machine.conclude (Run.executeProgram .strict fuel program'
      (last.recordDistances (analyse program').distances))
    let joined := run fuel clock output (text ++ "\n" ++ text')
    output.Grows last.output ∧ last.output.Grows ended.2.output ∧ joined.2.output = ended.2.output ∧
      joined.1.mapRuntime withoutLine =
        ended.1.mapRuntime withoutLine := by
  intro ended joined
  rcases texts.run_joined clock output with ⟨lowered, alike, run_joined⟩
  have similar := texts.similar_first clock output Token.SameLexeme (fun _ => rfl) fuel
  cases ran' : Run.executeProgram .strict fuel program
    (wholeMachine clock output program program') with
  | error signal last' =>
    rw [ran, ran'] at similar
    cases similar
  | ok value last' =>
    rw [ran, ran'] at similar
    cases similar with
    | ok advances _ =>
      have resumed := texts.alike_resumed clock output advances.alike ran ran'
      have further := similar_program resumed (advances.found rfl) fuel alike
      have concluded := further.conclude unseen_sameLexeme
      have whole : joined = Machine.conclude (Run.executeProgram .strict fuel lowered last') := by
        simp only [joined, run_joined, Bind.bind, EStateM.bind, ran']
      rw [whole]
      exact ⟨advances.output, further.output_grows (advances.output.flushes.trans flushes),
        concluded.2, concluded.1⟩

end

end

end Consecutive

/--
A session agrees with the run of one text.  Two texts, each accepted on its
own, are run in turn in a new session, and joined on a new machine; flushes of
the output do not fail.  If the first text does not run to its end, the joined
run ends in the same way with the same output.  Otherwise it writes what the
first text has written, followed by what the second text writes in the session,
and ends like the second text: its error, if any, differs at most in its line.
-/
theorem session_agrees_with_joined_run {text text' : String}
    (accepted : isAccepted text = true) (accepted' : isAccepted text' = true)
    {output : Sink} (flushes : output.flushes = none) (fuel : Nat) (clock : Nat → Float) :
    let first := (Session.start clock output).eval fuel text
    let second := first.2.eval fuel text'
    let joined := run fuel clock output (text ++ "\n" ++ text')
    (first.1 ≠ .completed → joined.1 = first.1 ∧ joined.2.output = first.2.machine.output) ∧
    (first.1 = .completed → output.Grows first.2.machine.output ∧
      first.2.machine.output.Grows second.2.machine.output ∧
      joined.2.output = second.2.machine.output ∧
      joined.1.mapRuntime RuntimeError.withoutLine =
        second.1.mapRuntime RuntimeError.withoutLine) := by
  intro first second joined
  rcases exists_consecutive accepted accepted' with
    ⟨program, program', middleId, nextId, texts⟩
  cases ran : Run.executeProgram .strict fuel program
    (Consecutive.sessionMachine clock output program) with
  | error signal last =>
    have evaluated : first = _ := texts.eval_first clock output ran
    have stopped := texts.joined_of_error clock output ran
    refine ⟨fun _ => ?_, fun completed => ?_⟩
    · rw [evaluated]
      exact stopped
    · have ends := (texts.coherent_sessionMachine clock output).ends_program
        fuel texts.resolved_middle
      rw [evaluated] at completed
      rw [ran] at ends
      rcases Machine.ok_of_completed ends completed with ⟨_, impossible⟩
      cases impossible
  | ok value last =>
    have resumed := texts.joined_of_ok clock output flushes ran
    have evaluated : first = (.completed, ⟨last, middleId⟩) := by
      have kept := resumed.1.flushes.trans flushes
      have evaluated := texts.eval_first clock output ran
      rw [Machine.conclude, Machine.flushThen_eq kept] at evaluated
      exact evaluated
    have coherent : first.2.Coherent :=
      ((Session.coherent_start clock output).eval .recorded fuel text).2
    rw [evaluated] at coherent
    have continued :=
      coherent.eval_eq_conclude texts.read' texts.clean' fuel
    refine ⟨fun stopped => ?_, fun _ => ?_⟩
    · rw [evaluated] at stopped
      exact absurd rfl stopped
    · rw [show second = first.2.eval fuel text' from rfl, evaluated, continued]
      exact resumed

/-- A function of the first text is called, and fails, in the second. -/
theorem later_text_calls_earlier_function :
    let text := "var a = \"x\"; fun f() \x7b print a; a = b; \x7d"
    let text' := "print a;\nf();"
    let first := (Session.start (fun _ => 0) .unlimited).eval 20 text
    let second := first.2.eval 20 text'
    let joined := run 20 (fun _ => 0) .unlimited (text ++ "\n" ++ text')
    isAccepted text = true ∧ isAccepted text' = true ∧ first.1 = .completed ∧
      first.2.machine.output.Grows second.2.machine.output ∧
      joined.2.output = second.2.machine.output ∧
      joined.1.mapRuntime RuntimeError.withoutLine =
        second.1.mapRuntime RuntimeError.withoutLine := by
  intro text text'
  have accepted : isAccepted text = true := by decide +kernel
  have accepted' : isAccepted text' = true := by decide +kernel
  have completed : ((Session.start (fun _ => 0) .unlimited).eval 20 text).1 =
      .completed := by decide +kernel
  have flushes : Sink.unlimited.flushes = none := rfl
  have agreement := session_agrees_with_joined_run accepted accepted' flushes 20 (fun _ => 0)
  exact ⟨accepted, accepted', completed, (agreement.2 completed).2⟩

end Treewalk
