import Treewalk.Token.Basic

/-!
# Diagnostics and failures

A `Diagnostic` is one thing that is wrong, with the place it points at.  A
`Failure` is why a program as a whole did not succeed: its text or its scopes
were rejected, with all diagnostics found, or it ran and one error stopped it.

Both are reported by a text; failures also have the exit code of a process
that ends with them.
-/

namespace Treewalk

/-- The class of an error that stops a running program. -/
inductive RuntimeErrorKind where
  | undefinedVariable
  | undefinedProperty
  /-- An operand or a superclass is of the wrong kind. -/
  | typeError
  | notCallable
  | arityMismatch
  | divisionByZero
deriving DecidableEq, Repr

/-- An error that stops a running program, at the token it is about. -/
structure RuntimeError where
  kind : RuntimeErrorKind
  lexeme : String
  line : Nat
  message : String
deriving DecidableEq, Repr

namespace RuntimeError

/-- An error of a given kind at a token. -/
def ofToken (kind : RuntimeErrorKind) (token : Token) (message : String) :
    RuntimeError :=
  ⟨kind, token.lexeme, token.line, message⟩

/-- The message, and the line below it. -/
def text (error : RuntimeError) : String :=
  error.message ++ "\n[line " ++ Nat.repr error.line ++ "]"

end RuntimeError

/-- A stream could not be read or written. -/
structure StreamError where
  message : String
deriving DecidableEq, Repr

/-- One thing that is wrong with a program or its run. -/
inductive Diagnostic where
  | lexical (line : Nat) (message : String)
  | grammar (line : Nat) (location message : String)
  | scoping (line : Nat) (location message : String)
  | runtime (error : RuntimeError)
  | stream (error : StreamError)
deriving DecidableEq, Repr

namespace Diagnostic

/-- A grammar diagnostic that points at a token. -/
def grammarAt (token : Token) (message : String) : Diagnostic :=
  grammar token.line token.location message

/-- A scoping diagnostic that points at a token. -/
def scopingAt (token : Token) (message : String) : Diagnostic :=
  scoping token.line token.location message

/-- The line a diagnostic points at, if it points at one. -/
def line? : Diagnostic → Option Nat
  | lexical line _ => some line
  | grammar line _ _ => some line
  | scoping line _ _ => some line
  | runtime error => some error.line
  | stream _ => none

/-- A message after the line and the place it is about. -/
def placed (line : Nat) (location message : String) : String :=
  "[line " ++ Nat.repr line ++ "] Error" ++ location ++ ": " ++ message

/-- The text of a diagnostic. -/
def text : Diagnostic → String
  | lexical line message => placed line "" message
  | grammar line location message => placed line location message
  | scoping line location message => placed line location message
  | runtime error => error.text
  | stream error => error.message

/-- Diagnostics in the order of their lines; one line keeps its order. -/
def sortByLine (diagnostics : List Diagnostic) : List Diagnostic :=
  diagnostics.mergeSort fun left right =>
    left.line?.getD 0 ≤ right.line?.getD 0

end Diagnostic

/-- Why a program did not succeed. -/
inductive Failure where
  /-- The text is no program; nothing ran. -/
  | grammar (diagnostics : List Diagnostic)
  /-- Scope rules are broken; nothing ran. -/
  | scoping (diagnostics : List Diagnostic)
  /-- An error stopped the run. -/
  | runtime (error : RuntimeError)
  /-- A stream failed during the run. -/
  | stream (error : StreamError)
deriving DecidableEq, Repr

namespace Failure

/-- The text of a failure: one diagnostic a line. -/
def text : Failure → String
  | grammar diagnostics => "\n".intercalate (diagnostics.map Diagnostic.text)
  | scoping diagnostics => "\n".intercalate (diagnostics.map Diagnostic.text)
  | runtime error => error.text
  | stream error => error.message

/-- The exit code of a process that ends with a failure. -/
def exitCode : Failure → Nat
  | grammar _ => 65
  | scoping _ => 65
  | runtime _ => 70
  | stream _ => 74

/-- The failure that a single diagnostic amounts to. -/
def ofDiagnostic : Diagnostic → Failure
  | .lexical line message => grammar [.lexical line message]
  | .grammar line location message => grammar [.grammar line location message]
  | .scoping line location message => scoping [.scoping line location message]
  | .runtime error => runtime error
  | .stream error => stream error

end Failure

end Treewalk
