import Treewalk.Execution

/-!
# Sessions

A session runs one program text after the other on one machine, so what
earlier texts declare stays declared.  Expression ids go on from text to text;
a distance recorded for one text is never touched by a later one.

The prompt is a session over a stream of bytes.  Each line is one program
text.  Failures are written to a stream of their own and the session goes on;
only a failing stream ends it before the input does.
-/

namespace Treewalk

/-- A machine that program texts are run on, and the next expression id. -/
structure Session where
  machine : Machine
  nextId : ExprId

namespace Session

/-- A session in which nothing has been run. -/
def start (clock : Nat → Float) (output : Sink) : Session :=
  ⟨.initial clock output, 0⟩

/-- Run one program text. -/
def evalWith (access : Access) (fuel : Nat) (text : String)
    (session : Session) : Outcome × Session :=
  match readProgram text session.nextId with
  | (.ok program, nextId) =>
    let (outcome, machine) :=
      session.machine.runProgramWith access fuel program
    (outcome, ⟨machine, nextId⟩)
  | (.error failure, nextId) =>
    (.failed failure, { session with nextId := nextId })

/-- Run program texts one after the other, whatever comes of them. -/
def evalAllWith (access : Access) (fuel : Nat) :
    List String → Session → List Outcome × Session
  | [], session => ([], session)
  | text :: texts, session =>
    let (outcome, session) := session.evalWith access fuel text
    let (outcomes, session) := evalAllWith access fuel texts session
    (outcome :: outcomes, session)

/-- Run one program text, with variables reached by their distances. -/
def eval (fuel : Nat) (text : String) (session : Session) : Outcome × Session :=
  session.evalWith .recorded fuel text

/-- Run program texts in turn, with variables reached by their distances. -/
def evalAll (fuel : Nat) (texts : List String) (session : Session) : List Outcome × Session :=
  session.evalAllWith .recorded fuel texts

end Session

/-- A session with a stream for its failures. -/
structure Prompt where
  session : Session
  errors : Sink

namespace Prompt

/-- What asks for a line. -/
def question : String :=
  "> "

/-- The failure of reading a line that is not in the encoding of texts. -/
def notText : StreamError :=
  ⟨"stream did not contain valid UTF-8"⟩

/-- Ask for a line. -/
def ask (prompt : Prompt) : Option StreamError × Prompt :=
  let asked : Run Unit := do
    Run.write question
    Run.flush
  match asked prompt.session.machine with
  | .ok () machine =>
    (none, { prompt with session.machine := machine })
  | .error (.stream error) machine =>
    (some error, { prompt with session.machine := machine })
  | .error _ machine =>
    (none, { prompt with session.machine := machine })

/--
Run one line and report its failure.  The outcome tells only what ends the
prompt: a failing stream, or the end of the fuel.
-/
def answer (fuel : Nat) (line : String) (prompt : Prompt) : Outcome × Prompt :=
  let (outcome, session) := prompt.session.eval fuel line
  let prompt := { prompt with session := session }
  match outcome with
  | .completed => (.completed, prompt)
  | .exhausted => (.exhausted, prompt)
  | .failed (.stream error) => (.failed (.stream error), prompt)
  | .failed failure =>
    match prompt.errors.writeText (failure.text ++ "\n") with
    | (errors, none) => (.completed, { prompt with errors := errors })
    | (errors, some error) =>
      (.failed (.stream error), { prompt with errors := errors })

/-- Cut bytes after each line end; what follows the last one is a line too. -/
def lines : List UInt8 → List (List UInt8)
  | [] => []
  | byte :: bytes =>
    if byte = '\n'.toUInt8 then
      [byte] :: lines bytes
    else
      match lines bytes with
      | [] => [[byte]]
      | line :: others => (byte :: line) :: others

/-- The text that bytes encode. -/
def decode? (bytes : List UInt8) : Option String :=
  String.fromUTF8? ⟨bytes.toArray⟩

/-- Ask for lines and run them until the input or a stream ends. -/
def loop (fuel : Nat) : List (List UInt8) → Prompt → Outcome × Prompt
  | [], prompt =>
    match prompt.ask with
    | (some error, prompt) => (.failed (.stream error), prompt)
    | (none, prompt) => (.completed, prompt)
  | line :: input, prompt =>
    match prompt.ask with
    | (some error, prompt) => (.failed (.stream error), prompt)
    | (none, prompt) =>
      match decode? line with
      | none => (.failed (.stream notText), prompt)
      | some text =>
        match prompt.answer fuel text with
        | (.completed, prompt) => loop fuel input prompt
        | ended => ended

/-- Run a prompt over a stream of bytes. -/
def run (fuel : Nat) (input : List UInt8) (prompt : Prompt) : Outcome × Prompt :=
  prompt.loop fuel (lines input)

end Prompt

end Treewalk
