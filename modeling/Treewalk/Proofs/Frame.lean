import Treewalk.Proofs.Conduct
import Treewalk.Session

/-!
# What no computation changes

Blocks and calls make another scope the current one while they last.  However
they end, the scope that was current before is so again.  The global scope, the
recorded distances and the clock are never touched.
-/

namespace Treewalk

open Run

namespace Machine

/-- The machine that a computation leaves, however it has ended. -/
def final {α : Type} : EStateM.Result Signal Machine α → Machine
  | .ok _ machine => machine
  | .error _ machine => machine

/-- Two machines agree on all that computations have to leave as it is. -/
structure Frames (machine later : Machine) : Prop where
  current : later.current = machine.current
  globals : later.globals = machine.globals
  distances : later.distances = machine.distances
  clock : later.clock = machine.clock

theorem Frames.refl (machine : Machine) : machine.Frames machine :=
  ⟨rfl, rfl, rfl, rfl⟩

theorem Frames.trans {machine later last : Machine}
    (frames : machine.Frames later) (further : later.Frames last) : machine.Frames last where
  current := further.current.trans frames.current
  globals := further.globals.trans frames.globals
  distances := further.distances.trans frames.distances
  clock := further.clock.trans frames.clock

end Machine

namespace Run

variable {α β : Type}

/-- The computation leaves the frame of every machine as it is. -/
def Framed (computation : Run α) : Prop :=
  ∀ machine : Machine, machine.Frames (Machine.final (computation machine))

/-! ## Steps of the machine -/

theorem framed_pure (value : α) : Framed (pure value : Run α) :=
  fun machine => .refl machine

theorem framed_raise (fault : Fault) (token : Token) : Framed (raise fault token : Run α) :=
  fun machine => .refl machine

/-- What is framed twice in a row is framed. -/
theorem Framed.bind {comp : Run α} {next : α → Run β}
    (framed : comp.Framed) (further : ∀ value, (next value).Framed) :
    Framed (comp >>= next) := by
  intro machine
  have first := framed machine
  simp only [Bind.bind, EStateM.bind]
  cases ran : comp machine with
  | ok value later =>
    rw [ran] at first
    exact first.trans (further value later)
  | error signal later =>
    rw [ran] at first
    exact first

theorem framed_orRaise (token : Token) (result : Except Fault α) :
    Framed (orRaise token result) := by
  cases result with
  | ok value => exact framed_pure value
  | error fault => exact framed_raise fault token

/-- A computation in another scope leads back to the current one. -/
theorem Framed.within {comp : Run α} (framed : comp.Framed)
    (scope : ScopeId) : Framed (Run.within scope comp) := by
  intro machine
  have inner := framed { machine with current := scope }
  simp only [Run.within]
  cases ran : comp { machine with current := scope } with
  | ok value later | error signal later =>
    rw [ran] at inner
    exact ⟨rfl, inner.globals, inner.distances, inner.clock⟩

theorem framed_write (text : String) : Framed (write text) := by
  intro machine
  unfold write
  simp only
  cases (machine.output.writeText text).2 <;> exact ⟨rfl, rfl, rfl, rfl⟩

theorem framed_flush : Framed flush := by
  intro machine
  unfold flush
  simp only
  cases machine.output.flush.2 <;> exact ⟨rfl, rfl, rfl, rfl⟩

/-- A call turns a return into a value and leaves the machine as it is. -/
theorem Framed.finishCall {body : Run Unit} (framed : body.Framed)
    (closure : Closure) : Framed (Run.finishCall closure body) := by
  intro machine
  have inner := framed machine
  unfold Run.finishCall
  cases ran : body machine with
  | ok value later =>
    rw [ran] at inner
    exact inner
  | error signal later =>
    rw [ran] at inner
    cases signal <;> exact inner

end Run

/-! ## Access to variables -/

/-- Neither reading nor writing a variable changes the frame. -/
structure Access.Framed (access : Access) : Prop where
  read : ∀ id name, (access.read id name).Framed
  write : ∀ id name value, (access.write id name value).Framed

/-- Reaching variables by their distances is framed. -/
theorem Access.framed_recorded : Access.recorded.Framed where
  read := by
    intro id name machine
    simp only [recorded, readVariable]
    split <;> exact .refl machine
  write := by
    intro id name value machine
    simp only [recorded, writeVariable]
    split
    · exact ⟨rfl, rfl, rfl, rfl⟩
    · exact .refl machine

/-! ## Evaluation -/

/-- Computations leave the frame as it is. -/
def Conduct.framing : Conduct where
  Expression := Run.Framed
  Statement := Run.Framed

section

variable {access : Access}

theorem Access.Framed.lawful (framed : access.Framed) : Conduct.framing.Lawful access where
  pure := framed_pure
  bind := Run.Framed.bind
  raise := framed_raise
  exhausted machine := .refl machine
  read := framed.read
  write := framed.write
  currentScope machine := .refl machine
  newScope _ _ _ := ⟨rfl, rfl, rfl, rfl⟩
  freshIdentity _ := ⟨rfl, rfl, rfl, rfl⟩
  newObject _ _ := ⟨rfl, rfl, rfl, rfl⟩
  field? _ _ machine := .refl machine
  setField _ _ _ _ := ⟨rfl, rfl, rfl, rfl⟩
  readClock _ := ⟨rfl, rfl, rfl, rfl⟩
  finishCall := Run.Framed.finishCall
  statement := id
  andThen := Run.Framed.bind
  within := Run.Framed.within
  defineHere _ _ _ := ⟨rfl, rfl, rfl, rfl⟩
  print text := framed_write (text ++ "\n")
  returned _ machine := .refl machine

/-- Every computation of a framed access is framed. -/
theorem Access.Framed.restores (framed : access.Framed) (fuel : Nat) :
    Conduct.framing.Kept access fuel :=
  framed.lawful.kept fuel

/-! ## Programs and sessions -/

namespace Machine

theorem frames_flushThen (machine : Machine) (outcome : Outcome) :
    machine.Frames (machine.flushThen outcome).2 := by
  have flushed := framed_flush machine
  unfold flushThen
  cases ran : flush machine with
  | ok value later =>
    rw [ran] at flushed
    exact flushed
  | error signal later =>
    rw [ran] at flushed
    cases signal <;> exact flushed

/-- A program leaves the frame as it is, also if it stops halfway. -/
theorem frames_interpretWith (framed : access.Framed) (fuel : Nat)
    (prog : Program) (machine : Machine) :
    machine.Frames (machine.interpretWith access fuel prog).2 := by
  induction prog generalizing machine with
  | nil => exact machine.frames_flushThen .completed
  | cons stmt stmts ih =>
    have first := (framed.restores fuel).execute stmt machine
    rw [interpretWith]
    cases ran : executeWith access fuel stmt machine with
    | ok value later =>
      rw [ran] at first
      exact first.trans (ih later)
    | error signal later =>
      rw [ran] at first
      cases signal with
      | fault fault token | returned value => exact first.trans (frames_flushThen _ _)
      | stream error => exact first
      | exhausted => exact first

end Machine

namespace Session

/-- A text leaves the scope it was run in. -/
theorem evalWith_scopes (framed : access.Framed) (fuel : Nat) (text : String) (session : Session) :
    (session.evalWith access fuel text).2.machine.current = session.machine.current ∧
      (session.evalWith access fuel text).2.machine.globals = session.machine.globals := by
  unfold evalWith
  cases readProgram text session.nextId with
  | mk result nextId =>
    cases result with
    | error failure => exact ⟨rfl, rfl⟩
    | ok prog =>
      simp only [Machine.runProgramWith, Machine.analyse]
      cases (Scoping.analyse prog).errors with
      | nil =>
        have frames := Machine.frames_interpretWith framed fuel prog
          (session.machine.recordDistances (Scoping.analyse prog).distances)
        exact ⟨frames.current, frames.globals⟩
      | cons error errors => exact ⟨rfl, rfl⟩

theorem evalAllWith_scopes (framed : access.Framed) (fuel : Nat)
    (texts : List String) (session : Session) :
    (session.evalAllWith access fuel texts).2.machine.current = session.machine.current ∧
      (session.evalAllWith access fuel texts).2.machine.globals = session.machine.globals := by
  induction texts generalizing session with
  | nil => exact ⟨rfl, rfl⟩
  | cons text texts ih =>
    have first := session.evalWith_scopes framed fuel text
    have rest :=
      ih (session.evalWith access fuel text).2
    exact ⟨rest.1.trans first.1, rest.2.trans first.2⟩

end Session

end

/--
No computation changes the frame of the machine.  Whatever the machine, the
tree and the way it ends, evaluating an expression, executing a statement or
the statements of a block in a scope, and calling a value, with or without a
look at its arity, leave the current scope, the global scope and the recorded
distances as they were.  So whatever texts a session has run, the global scope
is current when the next one starts.
-/
theorem computations_restore_frame (fuel : Nat) :
    (∀ (machine : Machine) (value : Expr),
      machine.Frames (Machine.final (Run.evaluate fuel value machine))) ∧
    (∀ (machine : Machine) (statement : Stmt),
      machine.Frames (Machine.final (Run.execute fuel statement machine))) ∧
    (∀ (machine : Machine) (scope : ScopeId) (statements : List Stmt),
      machine.Frames (Machine.final (Run.within scope
        (Run.executeAllWith .recorded fuel statements) machine))) ∧
    (∀ (machine : Machine) (callee : Callee) (arguments : List Value),
      machine.Frames (Machine.final (Run.invokeWith .recorded fuel callee arguments machine))) ∧
    (∀ (machine : Machine) (callee : Value) (closing : Token) (arguments : List Value),
      machine.Frames (Machine.final
        ((Run.orRaise closing (Run.checkCall callee arguments.length) >>=
          fun called => Run.invokeWith .recorded fuel called arguments) machine))) ∧
    ∀ (clock : Nat → Float) (output : Sink) (texts : List String),
      let started := Session.start clock output
      let ended := (started.evalAll fuel texts).2
      ended.machine.current = started.machine.globals ∧
        ended.machine.globals = started.machine.globals := by
  have restores := Access.framed_recorded.restores fuel
  refine ⟨?_, ?_, ?_, ?_, ?_, ?_⟩
  · intro machine value
    exact restores.evaluate value machine
  · intro machine statement
    exact restores.execute statement machine
  · intro machine scope statements
    exact (restores.executeAll statements).within scope machine
  · intro machine callee arguments
    exact restores.invoke callee arguments machine
  · intro machine callee closing arguments
    exact ((framed_orRaise closing _).bind fun called =>
      restores.invoke called arguments) machine
  · intro clock output texts
    exact Session.evalAllWith_scopes Access.framed_recorded fuel texts _

end Treewalk
