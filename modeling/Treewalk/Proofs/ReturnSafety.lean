import Treewalk.Proofs.Analysis
import Treewalk.Proofs.Conduct
import Treewalk.Proofs.Discipline
import Treewalk.Session

/-!
# Returns stay inside calls

A return is a signal on its way to the call that it leaves.  Every call stops
it, so the evaluation of an expression never ends with one.  A statement can
end with a return only if a return statement stands in it outside all functions
that it declares, which the scope rules forbid at the outermost level.
-/

namespace Treewalk

open Scoping

/-! ## Computations -/

namespace Run

variable {α β : Type}

/-- The computation does not end with a return. -/
def Contained (computation : Run α) : Prop :=
  ∀ machine value later, computation machine ≠ .error (.returned value) later

theorem contained_of_ok {comp : Run α} (succeeds : ∀ machine, ∃ value later,
      comp machine = .ok value later) : comp.Contained := by
  intro machine returned last ended
  rcases succeeds machine with ⟨value, later, ran⟩
  rw [ran] at ended
  cases ended

theorem contained_pure (value : α) : Contained (pure value : Run α) :=
  contained_of_ok fun machine => ⟨value, machine, rfl⟩

theorem contained_raise (fault : Fault) (token : Token) :
    Contained (raise fault token : Run α) := by
  intro machine value later ended
  cases ended

theorem contained_exhausted : Contained (exhausted : Run α) := by
  intro machine value later ended
  cases ended

/-- What is contained twice in a row is contained. -/
theorem Contained.bind {comp : Run α} {next : α → Run β} (contained : comp.Contained)
    (further : ∀ value, (next value).Contained) :
    Contained (comp >>= next) := by
  intro machine returned last
  simp only [Bind.bind, EStateM.bind]
  cases ran : comp machine with
  | ok value later => exact further value later returned last
  | error signal later =>
    intro ended
    cases ended
    exact contained machine returned last ran

theorem Contained.within {comp : Run α} (contained : comp.Contained) (scope : ScopeId) :
    Contained (Run.within scope comp) := by
  intro machine returned last ended
  unfold Run.within at ended
  cases ran : comp { machine with current := scope } with
  | ok value later =>
    rw [ran] at ended
    cases ended
  | error signal later =>
    rw [ran] at ended
    cases ended
    exact contained _ returned later ran

theorem contained_printLine (text : String) : Contained (printLine text) := by
  intro machine returned last
  unfold printLine write
  simp only
  split <;> exact nofun

/-- A call stops every return of its body. -/
theorem contained_finishCall (closure : Closure) (body : Run Unit) :
    Contained (finishCall closure body) := by
  intro machine returned last
  unfold finishCall
  cases body machine with
  | ok value later => exact nofun
  | error signal later => cases signal <;> exact nofun

theorem contained_readVariable (id : ExprId) (name : Token) : Contained (readVariable id name) := by
  intro machine returned last
  simp only [readVariable_eq, readIn]
  split <;> intro same <;> cases same

theorem contained_writeVariable (id : ExprId) (name : Token)
    (value : Value) : Contained (writeVariable id name value) := by
  intro machine returned last
  simp only [writeVariable_eq, writeIn]
  split <;> intro same <;> cases same

end Run

/-! ## Expressions -/

namespace Conduct

open Run

/-- Expressions and calls do not end with a return; statements may. -/
def containing : Conduct where
  Expression := Contained
  Statement _ := True

/-- All that expressions do is contained. -/
theorem lawful_containing : containing.Lawful .recorded where
  pure := contained_pure
  bind contained further := contained.bind further
  raise := contained_raise
  exhausted := contained_exhausted
  read := contained_readVariable
  write := contained_writeVariable
  currentScope := contained_of_ok fun _ => ⟨_, _, rfl⟩
  newScope _ _ := contained_of_ok fun _ => ⟨_, _, rfl⟩
  freshIdentity := contained_of_ok fun _ => ⟨_, _, rfl⟩
  newObject _ := contained_of_ok fun _ => ⟨_, _, rfl⟩
  field? _ _ := contained_of_ok fun _ => ⟨_, _, rfl⟩
  setField _ _ _ := contained_of_ok fun _ => ⟨_, _, rfl⟩
  readClock := contained_of_ok fun _ => ⟨_, _, rfl⟩
  finishCall _ closure := contained_finishCall closure _
  statement _ := trivial
  andThen _ _ := trivial
  within _ _ := trivial
  defineHere _ _ := trivial
  print _ := trivial
  returned _ := trivial

end Conduct

/-! ## Statements without a return of their own -/

mutual

/-- A return statement stands outside all functions that are declared. -/
def Stmt.returns : Stmt → Bool
  | .block body => Stmt.returnsAny body
  | .ifElse _ yes none => yes.returns
  | .ifElse _ yes (some no) => yes.returns || no.returns
  | .whileLoop _ body => body.returns
  | .returnValue _ _ => true
  | _ => false

/-- One of the statements returns. -/
def Stmt.returnsAny : List Stmt → Bool
  | [] => false
  | statement :: statements =>
    statement.returns || Stmt.returnsAny statements

end

mutual

/-- Outside functions, statements that keep the scope rules do not return. -/
theorem Stmt.returns_eq_false {ctx : Context} (outside : ctx.inFunction = false) : ∀ stmt : Stmt,
    (ofStmt ctx stmt).errors = [] → stmt.returns = false
  | .block body, clean => by
    have inside : (ctx.enter []).inFunction = false := outside
    exact Stmt.returnsAny_eq_false inside body clean
  | .ifElse cond yes none, clean | .whileLoop cond yes, clean =>
    Stmt.returns_eq_false outside yes (List.append_eq_nil_iff.mp clean).2
  | .ifElse cond yes (some no), clean => by
    rcases List.append_eq_nil_iff.mp clean with ⟨before, last⟩
    have first := Stmt.returns_eq_false outside yes (List.append_eq_nil_iff.mp before).2
    have second := Stmt.returns_eq_false ((ctx.after_inFunction yes).trans outside) no last
    simp [Stmt.returns, first, second]
  | .returnValue keyword value, clean => by
    have allowed := (List.append_eq_nil_iff.mp clean).1
    rw [outside] at allowed
    cases allowed
  | .expression _, _ => rfl
  | .print _, _ => rfl
  | .varDecl _ _, _ => rfl
  | .funDecl _, _ => rfl
  | .classDecl _ _ _, _ => rfl

/-- Outside functions, clean statements hold no return. -/
theorem Stmt.returnsAny_eq_false {ctx : Context}
    (outside : ctx.inFunction = false) : ∀ stmts : List Stmt,
    (ofStmts ctx stmts).errors = [] → Stmt.returnsAny stmts = false
  | [], _ => rfl
  | stmt :: stmts, clean => by
    rcases List.append_eq_nil_iff.mp clean with ⟨first, others⟩
    have here := Stmt.returns_eq_false outside stmt first
    have later := Stmt.returnsAny_eq_false
      ((ctx.after_inFunction stmt).trans outside) stmts others
    simp [Stmt.returnsAny, here, later]

end

theorem Stmt.returns_of_mem {stmts : List Stmt}
    (quiet : Stmt.returnsAny stmts = false) {stmt : Stmt}
    (mem : stmt ∈ stmts) : stmt.returns = false := by
  induction stmts with
  | nil => cases mem
  | cons first others ih =>
    rw [returnsAny, Bool.or_eq_false_iff] at quiet
    rcases List.mem_cons.mp mem with rfl | mem
    · exact quiet.1
    · exact ih quiet.2 mem

variable {machine : Machine} {fuel : Nat}

/-! ## Execution -/

namespace Run

/-- Statements without a return of their own do not end with one. -/
structure Quiet (fuel : Nat) : Prop where
  execute : ∀ statement : Stmt, statement.returns = false →
    (executeWith .recorded fuel statement).Contained
  executeAll : ∀ statements, Stmt.returnsAny statements = false →
    (executeAllWith .recorded fuel statements).Contained

theorem Quiet.execute_succ (quiet : Quiet fuel) (stmt : Stmt) (absent : stmt.returns = false) :
    (executeWith .recorded (fuel + 1) stmt).Contained := by
  have lawful := Conduct.lawful_containing
  have evaluate := (lawful.kept fuel).evaluate
  have defined (name : String) (value : Value) : Contained (defineHere name value) :=
    contained_of_ok fun _ => ⟨_, _, rfl⟩
  cases stmt with
  | expression value =>
    apply (evaluate value).bind
    intro _
    exact contained_pure ()
  | print value =>
    apply (evaluate value).bind
    intro printed
    exact contained_printLine _
  | varDecl name initial =>
    cases initial with
    | none => exact defined name.lexeme .nil
    | some initial =>
      apply (evaluate initial).bind
      intro value
      exact defined name.lexeme value
  | block body =>
    apply lawful.currentScope.bind
    intro outer
    apply (lawful.newScope outer .empty).bind
    intro scope
    exact (quiet.executeAll body absent).within scope
  | ifElse cond yes no =>
    apply (evaluate cond).bind
    intro value
    cases no with
    | none =>
      split
      · exact quiet.execute yes absent
      · exact contained_pure ()
    | some no =>
      rw [Stmt.returns, Bool.or_eq_false_iff] at absent
      split
      · exact quiet.execute yes absent.1
      · exact quiet.execute no absent.2
  | whileLoop cond body =>
    apply (evaluate cond).bind
    intro value
    split
    · apply (quiet.execute body absent).bind
      intro _
      exact quiet.execute (.whileLoop cond body) absent
    · exact contained_pure ()
  | funDecl decl =>
    apply lawful.currentScope.bind
    intro scope
    apply (lawful.newFunction _).bind
    intro function
    exact defined _ function
  | returnValue keyword value => cases absent
  | classDecl name superclass methods =>
    cases superclass with
    | none =>
      apply (lawful.newClass _ _ methods).bind
      intro value
      exact defined name.lexeme value
    | some superclass =>
      apply (evaluate superclass).bind
      intro parent
      apply (lawful.inheritedLayers _ parent).bind
      intro inherited
      apply (lawful.newClass _ inherited methods).bind
      intro value
      exact defined name.lexeme value

theorem Quiet.executeAll_succ (quiet : Quiet fuel) (stmts : List Stmt)
    (absent : Stmt.returnsAny stmts = false) :
    (executeAllWith .recorded (fuel + 1) stmts).Contained := by
  cases stmts with
  | nil => exact contained_pure ()
  | cons first others =>
    rw [Stmt.returnsAny, Bool.or_eq_false_iff] at absent
    apply (quiet.execute first absent.1).bind
    intro _
    exact quiet.executeAll others absent.2

/-- Without a return statement nothing returns. -/
theorem quiet (fuel : Nat) : Quiet fuel := by
  induction fuel with
  | zero => exact ⟨fun _ _ => contained_exhausted, fun _ _ => contained_exhausted⟩
  | succ fuel ih => exact ⟨ih.execute_succ, ih.executeAll_succ⟩

theorem contained_executeProgram (fuel : Nat) (prog : Program)
    (absent : Stmt.returnsAny prog = false) :
    (executeProgram .recorded fuel prog).Contained := by
  induction prog with
  | nil => exact contained_pure ()
  | cons stmt stmts ih =>
    rw [Stmt.returnsAny, Bool.or_eq_false_iff] at absent
    apply ((quiet fuel).execute stmt absent.1).bind
    intro _
    exact ih absent.2

end Run

/-! ## Programs and sessions -/

namespace Machine

/-- A flush ends a run as it was about to end, or with a failed stream. -/
theorem flush_of_completed {outcome : Outcome}
    (completed : (machine.flushThen outcome).1 = .completed) :
    outcome = .completed ∧ Run.flush machine = .ok () (machine.flushThen outcome).2 := by
  unfold flushThen Run.flush at completed ⊢
  simp only at completed ⊢
  cases flushed : machine.output.flush.2 with
  | none =>
    simp only [flushed] at completed ⊢
    exact ⟨completed, trivial⟩
  | some error =>
    simp only [flushed] at completed
    cases completed

/--
A run without a return is completed only if all statements have been executed
and the output is flushed.
-/
theorem executed_of_completed {prog : Program} (absent : Stmt.returnsAny prog = false)
    (completed : (machine.interpret fuel prog).1 = .completed) :
    ∃ last, Run.executeProgram .recorded fuel prog machine = .ok () last ∧
      Run.flush last = .ok () (machine.interpret fuel prog).2 := by
  rw [interpret, interpretWith_eq_conclude] at completed ⊢
  cases ran : Run.executeProgram .recorded fuel prog machine with
  | ok value last =>
    rw [ran] at completed
    exact ⟨last, rfl, (flush_of_completed completed).2⟩
  | error signal last =>
    rw [ran] at completed
    cases signal with
    | fault fault token => cases (flush_of_completed completed).1
    | stream error | exhausted => cases completed
    | returned value =>
      exact absurd ran (Run.contained_executeProgram fuel prog absent machine value last)

end Machine

/-- A text that is completed is read, accepted and executed to its end. -/
theorem Session.executed_of_completed {fuel : Nat} {text : String} {session : Session}
    (completed : (session.eval fuel text).1 = .completed) :
    ∃ prog, (readProgram text session.nextId).1 = .ok prog ∧ (analyse prog).errors = [] ∧
      ∃ last, Run.executeProgram .recorded fuel prog
          (session.machine.recordDistances (analyse prog).distances) = .ok () last ∧
        Run.flush last = .ok () (session.eval fuel text).2.machine := by
  unfold eval evalWith at completed ⊢
  cases read : readProgram text session.nextId with
  | mk result nextId =>
    rw [read] at completed
    cases result with
    | error failure => cases completed
    | ok prog =>
      simp only [Machine.runProgramWith, Machine.analyse] at completed ⊢
      cases clean : (analyse prog).errors with
      | cons error errors =>
        simp only [clean] at completed
        cases completed
      | nil =>
        simp only [clean] at completed
        refine ⟨prog, rfl, clean, ?_⟩
        exact Machine.executed_of_completed (Stmt.returnsAny_eq_false rfl prog clean) completed

/--
Returns never leave the calls they belong to.  No machine and no expression
make an evaluation end with a return, and no machine makes a statement of a
program that keeps the scope rules do so.  So a run of such a program is
completed only if all its statements were executed in turn, each to its end;
and the same holds of each text of a session, whatever texts came before it.
-/
theorem returns_never_escape (fuel : Nat) :
    (∀ machine value returned later,
      Run.evaluate fuel value machine ≠ .error (.returned returned) later) ∧
    (∀ program, (analyse program).errors = [] →
      (∀ statement ∈ program, ∀ machine returned later, Run.execute fuel statement machine ≠
          .error (.returned returned) later) ∧
      ∀ machine : Machine, (machine.interpret fuel program).1 = .completed → ∃ last,
          Run.executeProgram .recorded fuel program machine = .ok () last ∧
          Run.flush last = .ok () (machine.interpret fuel program).2) ∧
    ∀ (session : Session) (text : String), (session.eval fuel text).1 = .completed →
        ∃ program, (readProgram text session.nextId).1 = .ok program ∧
          (analyse program).errors = [] ∧ ∃ last, Run.executeProgram .recorded fuel program
              (session.machine.recordDistances (analyse program).distances) = .ok () last ∧
            Run.flush last = .ok () (session.eval fuel text).2.machine := by
  constructor
  · intro machine value
    exact (Conduct.lawful_containing.kept fuel).evaluate value machine
  constructor
  · intro program clean
    have absent := Stmt.returnsAny_eq_false rfl program clean
    constructor
    · intro statement member machine
      exact (Run.quiet fuel).execute statement (Stmt.returns_of_mem absent member) machine
    · intro machine
      exact Machine.executed_of_completed absent
  · intro session text
    exact Session.executed_of_completed

/-- A loop and an initialiser are left by returns. -/
theorem loop_and_initializer_are_left :
    let text :=
      "class A \x7b init(x) \x7b if (x) return; this.x = x; \x7d \x7d " ++
      "fun f() \x7b while (true) \x7b return A(true); \x7d \x7d f();"
    let started := Session.start (fun _ => 0) .unlimited
    (started.eval 40 text).1 = .completed ∧ ∃ program, (readProgram text 0).1 = .ok program ∧
        (analyse program).errors = [] ∧
        (∀ statement ∈ program, ∀ machine returned later, Run.execute 40 statement machine ≠
            .error (.returned returned) later) ∧ ∃ last, Run.executeProgram .recorded 40 program
            (started.machine.recordDistances (analyse program).distances) = .ok () last ∧
          Run.flush last = .ok () (started.eval 40 text).2.machine := by
  intro text started
  have completed : (started.eval 40 text).1 = .completed := by
    decide +kernel
  have contained := returns_never_escape 40
  rcases contained.2.2 started text completed with
    ⟨program, read, clean, executed⟩
  exact ⟨completed, program, read, clean, (contained.2.1 program clean).1, executed⟩

end Treewalk
