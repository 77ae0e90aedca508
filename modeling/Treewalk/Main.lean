import Std.Time.DateTime.Timestamp
import Treewalk.Command

/-!
# The command line

The outer layer reads the arguments, the program file and the standard input,
and writes what the commands yield.  The prompt is asked and answered line by
line, so that each answer shows before the next line is read; every other
command is performed as a whole.
-/

namespace Treewalk

/-- The bound on the depth of a run, out of reach in practice. -/
def runBound : Nat :=
  Nat.pow 10 15

/-- Write bytes to a stream at once. -/
def emit (stream : IO.FS.Stream) (bytes : ByteArray) : IO Unit := do
  stream.write bytes
  stream.flush

/-- An error number of the host, which may come with either sign. -/
def errorNumber (code : UInt32) : Nat :=
  min code.toNat (Nat.pow 2 32 - code.toNat)

/-- The cause of a failure to read a file. -/
def readFault (error : IO.Error) : ReadFault :=
  match error with
  | .noFileOrDirectory .. => .missing
  | .inappropriateType _ code _ =>
    if errorNumber code = 21 then .isFolder else .notFolder
  | .invalidArgument _ code _ =>
    if errorNumber code = 36 then .nameTooLong else .other (toString error)
  | _ => .other (toString error)

/-- The text of a file, or why it cannot be read. -/
def readText (name : String) : IO (Except ReadFault String) := do
  try
    let bytes ← IO.FS.readBinFile name
    match String.fromUTF8? bytes with
    | some text => return .ok text
    | none => return .error .notText
  catch error =>
    return .error (readFault error)

/-- The clock of a run, which shows the time at its start in seconds. -/
def startClock : IO (Nat → Float) := do
  let now ← Std.Time.Timestamp.now
  let elapsed := Float.ofInt now.toNanosecondsSinceUnixEpoch.val
  return fun _ => elapsed / 1000000000

/-- Write what a prompt has written so far, and forget it. -/
def emitPrompt (prompt : Prompt) : IO Prompt := do
  emit (← IO.getStdout) prompt.session.machine.output.written
  emit (← IO.getStderr) prompt.errors.written
  return { prompt with
    session.machine.output.written := .empty
    errors.written := .empty }

/-- Write a transcript. -/
def emitTranscript (transcript : Transcript) : IO UInt32 := do
  emit (← IO.getStdout) transcript.output
  emit (← IO.getStderr) transcript.errors
  return transcript.exitCode.toUInt32

/-- One line of a stream with its line end; nothing at the end of the input. -/
partial def readLine (stream : IO.FS.Stream) : IO ByteArray :=
  let rec collect (line : ByteArray) : IO ByteArray := do
    let bytes ← stream.read 1
    if bytes.isEmpty then
      return line
    else
      let line := line ++ bytes
      if bytes.toList == ['\n'.toUInt8] then
        return line
      else
        collect line
  collect .empty

/-- Ask for lines and run them until the input or a stream ends. -/
partial def interact (input : IO.FS.Stream) (prompt : Prompt) :
    IO UInt32 := do
  let (refused, asked) := prompt.ask
  let prompt ← emitPrompt asked
  match refused with
  | some error => emitTranscript (Command.promptEnd (.failed (.stream error)))
  | none =>
    let line ← readLine input
    if line.isEmpty then
      emitTranscript (Command.promptEnd .completed)
    else
      match Prompt.decode? line.toList with
      | none =>
        emitTranscript (Command.promptEnd (.failed (.stream Prompt.notText)))
      | some text =>
        let (outcome, answered) := prompt.answer runBound text
        let prompt ← emitPrompt answered
        match outcome with
        | .completed => interact input prompt
        | ended => emitTranscript (Command.promptEnd ended)

/-- Perform a command on the files and streams of the host. -/
def performHere (command : Command) : IO UInt32 := do
  let clock ← startClock
  match command.file? with
  | some name =>
    let contents ← readText name
    emitTranscript (command.perform runBound clock (fun _ => contents) [])
  | none =>
    match command with
    | .run _ =>
      interact (← IO.getStdin) ⟨.start clock .unlimited, .unlimited⟩
    | other =>
      emitTranscript (other.perform runBound clock (fun _ => .error .missing) [])

end Treewalk

/-- The entry point of the command line. -/
def main (arguments : List String) : IO UInt32 := do
  match Treewalk.Invocation.ofArguments arguments with
  | none =>
    IO.eprintln Treewalk.Invocation.usage
    return 2
  | some invocation =>
    if invocation.log then
      IO.FS.writeFile "app.log" ""
    Treewalk.performHere invocation.command
