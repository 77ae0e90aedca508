import Treewalk.Folder
import Treewalk.Session
import Treewalk.Tree.Document
import Treewalk.Tree.Form

/-!
# Commands

The command line shows the tokens or the tree of a program file, or runs it.
Without a file to run, the lines of the standard input are run as a session.

A command is performed on what the files hold and on the bytes of the standard
input; what it yields is what it writes and the exit code.
-/

namespace Treewalk

/-- What the command line can be asked for. -/
inductive Command where
  | tokenize (file : Option String)
  | parse (file : Option String) (json : Bool)
  | run (file : Option String)
deriving DecidableEq, Repr

/-- A command, and whether a log file is kept. -/
structure Invocation where
  command : Command
  log : Bool
deriving DecidableEq, Repr

namespace Invocation

/-- How the command line is used. -/
def usage : String :=
  "Usage: [--log] tokenize [FILE] | parse [--json] [FILE] | run [FILE]"

/-- Take a flag out of the arguments; it may be given once. -/
def takeFlag (flag : String) (arguments : List String) : Option (Bool × List String) :=
  match arguments.count flag with
  | 0 => some (false, arguments)
  | 1 => some (true, arguments.filter (· != flag))
  | _ => none

/-- The argument is a name and not a flag. -/
def isName (argument : String) : Bool :=
  !argument.startsWith "-" || argument == "-"

/--
At most one file name, which is not empty.  The arguments behind a double dash
are names in any case.
-/
def fileName (arguments names : List String) : Option (Option String) :=
  if arguments.all isName then
    match arguments ++ names with
    | [] => some none
    | [name] => if name.isEmpty then none else some (some name)
    | _ => none
  else
    none

/-- Read a command from its word, its arguments and the names behind them. -/
def readCommand (word : String) (arguments names : List String) :
    Option Command :=
  match word with
  | "tokenize" => do
      let file ← fileName arguments names
      return .tokenize file
  | "parse" => do
      let (json, arguments) ← takeFlag "--json" arguments
      let file ← fileName arguments names
      return .parse file json
  | "run" => do
      let file ← fileName arguments names
      return .run file
  | _ => none

/--
Read the arguments of the command line.  The flag for the log file may stand
once in front of the command and once behind it.  Behind a double dash there
are no flags.
-/
def ofArguments (arguments : List String) : Option Invocation := do
  let isLog := fun (argument : String) => argument == "--log"
  let isPlain := fun (argument : String) => argument != "--"
  let (before, _) ← takeFlag "--log" (arguments.takeWhile isLog)
  match arguments.dropWhile isLog with
  | [] => none
  | word :: operands =>
    let names := (operands.dropWhile isPlain).drop 1
    let (behind, operands) ←
      takeFlag "--log" (operands.takeWhile isPlain)
    let command ← readCommand word operands names
    return ⟨command, before || behind⟩

end Invocation

/-- What a command writes, and its exit code. -/
structure Transcript where
  output : ByteArray
  errors : ByteArray
  exitCode : Nat

namespace Transcript

/-- A transcript of texts. -/
def ofText (output errors : String) (exitCode : Nat) : Transcript :=
  ⟨output.toUTF8, errors.toUTF8, exitCode⟩

/-- A command that could not do its work, and the cause. -/
def aborted (context cause : String) : Transcript :=
  .ofText "" ("Error: " ++ context ++ "\n\nCaused by:\n    " ++ cause ++ "\n") 1

end Transcript

namespace Command

/-- The file that a command names. -/
def file? : Command → Option String
  | tokenize file => file
  | parse file _ => file
  | run file => file

/-- Texts, each on a line. -/
def asLines (texts : List String) : String :=
  String.join (texts.map (· ++ "\n"))

/-- What is written when there is no file to read. -/
def noFile : Transcript :=
  .ofText "No input filepath was provided. Exiting...\n" "" 0

/-- The tokens of a text, one a line; lexical faults go to the errors. -/
def showTokens (text : String) : Transcript :=
  let scanned := scan text
  .ofText (asLines (scanned.tokens.map Token.listing))
    (asLines (scanned.errors.map fun error => error.diagnostic.text))
    (if scanned.errors.isEmpty then 0 else 65)

/-- The failure of a text, and its exit code. -/
def showFailure (output : ByteArray) (failure : Failure) : Transcript :=
  ⟨output, (failure.text ++ "\n").toUTF8, failure.exitCode⟩

/-- The tree of a text, as JSON or one statement a line. -/
def showTree (json : Bool) (text : String) : Transcript :=
  match (readProgram text 0).1 with
  | .error failure => showFailure .empty failure
  | .ok program =>
    if json then
      .ofText (Program.documentText program ++ "\n") "" 0
    else
      .ofText (asLines (program.map Stmt.formText)) "" 0

/-- The exit code of a run that its bound ended. -/
def exhaustedCode : Nat := 75

/-- Run a program text. -/
def runText (fuel : Nat) (clock : Nat → Float) (text : String) : Transcript :=
  let (outcome, machine) := Treewalk.run fuel clock .unlimited text
  match outcome with
  | .completed => ⟨machine.output.written, .empty, 0⟩
  | .failed failure => showFailure machine.output.written failure
  | .exhausted => ⟨machine.output.written, .empty, exhaustedCode⟩

/-- What is written when a prompt ends, after all its answers. -/
def promptEnd : Outcome → Transcript
  | .completed => .ofText "" "" 0
  | .exhausted => .ofText "" "" exhaustedCode
  | .failed failure => .aborted "REPL input/output failed" failure.text

/-- Run the lines of the standard input. -/
def runPrompt (fuel : Nat) (clock : Nat → Float) (input : List UInt8) :
    Transcript :=
  let prompt : Prompt := ⟨.start clock .unlimited, .unlimited⟩
  let (outcome, prompt) := prompt.run fuel input
  let ending := promptEnd outcome
  { ending with
    output := prompt.session.machine.output.written
    errors := prompt.errors.written ++ ending.errors }

/-- Do something with the text of a file, if it can be read. -/
def withFile (read : String → Except ReadFault String) (name : String)
    (use : String → Transcript) : Transcript :=
  match read name with
  | .ok text => use text
  | .error cause =>
    .aborted ("Failed to read file " ++ Quoted.text name) cause.message

/--
Perform a command.  `read` gives the text of a file, or why it cannot be read.
-/
def perform (fuel : Nat) (clock : Nat → Float)
    (read : String → Except ReadFault String) (input : List UInt8) :
    Command → Transcript
  | tokenize none => noFile
  | tokenize (some name) => withFile read name showTokens
  | parse none _ => noFile
  | parse (some name) json => withFile read name (showTree json)
  | run none => runPrompt fuel clock input
  | run (some name) => withFile read name (runText fuel clock)

end Command

end Treewalk
