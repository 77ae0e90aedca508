import Treewalk.Grammar.Statement
import Treewalk.Machine.Evaluation

/-!
# Running programs

A program text is read, its scopes are analysed, and it is executed on a
machine.  Nothing is executed unless reading and analysis find no fault.  A
fault of a statement ends the run; what was written before it stays.

The output is flushed once at the end of a run and once when a fault stops it,
but not after a stream has failed.
-/

namespace Treewalk

/-- How a run ends. -/
inductive Outcome where
  | completed
  | failed (failure : Failure)
  /-- The bound on the run was reached. -/
  | exhausted
deriving DecidableEq, Repr

namespace Machine

/-- Flush the output and end with an outcome, unless the flush fails. -/
def flushThen (machine : Machine) (outcome : Outcome) : Outcome × Machine :=
  match Run.flush machine with
  | .ok () machine => (outcome, machine)
  | .error (.stream error) machine => (.failed (.stream error), machine)
  | .error _ machine => (outcome, machine)

/-- Execute the statements of a program in turn. -/
def interpretWith (access : Access) (fuel : Nat) :
    Program → Machine → Outcome × Machine
  | [], machine => machine.flushThen .completed
  | statement :: statements, machine =>
    match Run.executeWith access fuel statement machine with
    | .ok () machine => interpretWith access fuel statements machine
    | .error (.fault fault token) machine =>
      machine.flushThen (.failed (.runtime (fault.report token)))
    | .error (.stream error) machine => (.failed (.stream error), machine)
    | .error (.returned _) machine => machine.flushThen .completed
    | .error .exhausted machine => (.exhausted, machine)

/-- Execute a program, with variables reached by their distances. -/
def interpret (fuel : Nat) (program : Program) (machine : Machine) : Outcome × Machine :=
  machine.interpretWith .recorded fuel program

/--
Analyse the scopes of a program and record its distances, also if it breaks
the scope rules.
-/
def analyse (machine : Machine) (program : Program) : List ScopingError × Machine :=
  let findings := Scoping.analyse program
  (findings.errors, machine.recordDistances findings.distances)

/-- Analyse a program and, if it keeps the scope rules, execute it. -/
def runProgramWith (access : Access) (fuel : Nat) (program : Program)
    (machine : Machine) : Outcome × Machine :=
  match machine.analyse program with
  | ([], machine) => machine.interpretWith access fuel program
  | (errors, machine) =>
    (.failed (.scoping (errors.map ScopingError.diagnostic)), machine)

end Machine

/-- Read a program from a text; the first id not handed out comes with it. -/
def readProgram (text : String) (firstId : ExprId) : Except Failure Program × ExprId :=
  let scanned := scan text
  let parsed := parse (.ofList scanned.tokens) firstId
  (accept scanned.errors parsed.result, parsed.nextId)

/-- Run a program text on a new machine. -/
def runWith (access : Access) (fuel : Nat) (clock : Nat → Float)
    (output : Sink) (text : String) : Outcome × Machine :=
  let machine := Machine.initial clock output
  match (readProgram text 0).1 with
  | .ok program => machine.runProgramWith access fuel program
  | .error failure => (.failed failure, machine)

/-- Run a program text, with variables reached by their distances. -/
def run (fuel : Nat) (clock : Nat → Float) (output : Sink) (text : String) : Outcome × Machine :=
  runWith .recorded fuel clock output text

end Treewalk
