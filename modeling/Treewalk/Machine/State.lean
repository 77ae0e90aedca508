import Treewalk.Machine.Sink
import Treewalk.Machine.Store
import Treewalk.Scoping

/-!
# The machine

The state of a running program: the scopes and the fields of all instances,
the scope that is current, the recorded distances of name occurrences, the
sink that takes the output and the clock.

A computation on the machine yields a value or ends with a signal: a fault of
the program, a failed stream, a return on its way to the call it leaves, or
the end of the fuel that bounds the computation.  The machine is kept in all
cases, so effects that came before a signal stay.
-/

namespace Treewalk

/-- What can be wrong with a step of a running program. -/
inductive Fault where
  | undefinedVariable (name : String)
  | undefinedProperty (name : String)
  | operandNotNumber
  | operandsNotNumbers
  | operandsNotAddable
  | unknownOperator
  | divisionByZero
  | notCallable
  | arityMismatch (expected given : Nat)
  | superclassNotClass
  | noProperties
  | noFields
deriving DecidableEq, Repr

namespace Fault

/-- The class of a fault. -/
def kind : Fault → RuntimeErrorKind
  | undefinedVariable _ => .undefinedVariable
  | undefinedProperty _ => .undefinedProperty
  | operandNotNumber => .typeError
  | operandsNotNumbers => .typeError
  | operandsNotAddable => .typeError
  | unknownOperator => .typeError
  | divisionByZero => .divisionByZero
  | notCallable => .notCallable
  | arityMismatch _ _ => .arityMismatch
  | superclassNotClass => .typeError
  | noProperties => .typeError
  | noFields => .typeError

/-- The wording of a fault. -/
def message : Fault → String
  | undefinedVariable name => "Undefined variable '" ++ name ++ "'."
  | undefinedProperty name => "Undefined property '" ++ name ++ "'."
  | operandNotNumber => "Operand must be a number."
  | operandsNotNumbers => "Operands must be numbers."
  | operandsNotAddable => "Operands must be numbers or strings."
  | unknownOperator => "Unknown binary operator."
  | divisionByZero => "Cannot divide by 0."
  | notCallable => "Can only call functions and classes."
  | arityMismatch expected given =>
    "Expected " ++ Nat.repr expected ++ " arguments but got " ++ Nat.repr given ++ "."
  | superclassNotClass => "Superclass must be a class."
  | noProperties => "Only instances have properties."
  | noFields => "Only instances have fields."

/-- The report of a fault at a token. -/
def report (fault : Fault) (token : Token) : RuntimeError :=
  .ofToken fault.kind token fault.message

end Fault

/-- How a computation can end other than with a value. -/
inductive Signal where
  | fault (fault : Fault) (token : Token)
  | stream (error : StreamError)
  /-- A return statement, on its way to the call it leaves. -/
  | returned (value : Value)
  /-- The bound on the computation was reached. -/
  | exhausted

/-- The text of a signal. -/
def Signal.text : Signal → String
  | fault cause token => (cause.report token).text
  | stream error => error.message
  | returned value => "Return signal with value: " ++ value.text
  | exhausted => "The bound on the computation was reached."

/-- The state of a running program. -/
structure Machine where
  store : Store
  /-- The fields of the instances, by identity. -/
  fields : Array Bindings
  /-- The identity of the next function or class. -/
  nextIdentity : Nat
  globals : ScopeId
  /-- The scope in which names are looked up. -/
  current : ScopeId
  distances : Distances
  output : Sink
  /-- What the clock shows at each reading, in seconds. -/
  clock : Nat → Float
  /-- How often the clock has been read. -/
  readings : Nat

/-- Computations on the machine. -/
abbrev Run := EStateM Signal Machine

namespace Machine

/-- The machine before any program: one scope, with the provided functions. -/
def initial (clock : Nat → Float) (output : Sink) : Machine where
  store :=
    (Store.empty.push ⟨.empty, none⟩).define 0 Native.clock.name (.native .clock)
  fields := #[]
  nextIdentity := 0
  globals := 0
  current := 0
  distances := .empty
  output := output
  clock := clock
  readings := 0

/-- Record distances of name occurrences. -/
def recordDistances (machine : Machine) (found : List (ExprId × Nat)) :
    Machine :=
  { machine with distances := machine.distances.recordAll found }

/-- Nothing but the provided functions is bound before any program. -/
theorem bound_initial (clock : Nat → Float) (output : Sink) {scope : ScopeId}
    {name : String} {value : Value}
    (found : (initial clock output).store.getLocal? scope name =
      some value) : scope = 0 ∧ value = .native .clock := by
  simp only [initial, Store.getLocal?_define, Store.getLocal?_push] at found
  split at found
  · next same => exact ⟨same.1.symm, (Option.some.inj found).symm⟩
  · split at found <;> cases found

theorem parent?_initial (clock : Nat → Float) (output : Sink) (scope : ScopeId) :
    (initial clock output).store.parent? scope = none := by
  simp only [initial, Store.parent?_define, Store.parent?_push]
  split <;> rfl

end Machine

namespace Run

variable {α : Type}

/-- End with a fault at a token. -/
def raise (fault : Fault) (token : Token) : Run α := fun machine =>
  .error (.fault fault token) machine

/-- End because the bound on the computation was reached. -/
def exhausted : Run α := fun machine =>
  .error .exhausted machine

/-- The value of a step, or its fault at a token. -/
def orRaise (token : Token) (result : Except Fault α) : Run α :=
  match result with
  | .ok value => pure value
  | .error fault => raise fault token

/-- Bind a name in the current scope. -/
def defineHere (name : String) (value : Value) : Run Unit := fun machine =>
  .ok () { machine with store := machine.store.define machine.current name value }

/-- Make a scope inside another one. -/
def newScope (parent : ScopeId) (bindings : Bindings) : Run ScopeId :=
  fun machine =>
    .ok machine.store.size { machine with store := machine.store.push ⟨bindings, some parent⟩ }

/-- The current scope. -/
def currentScope : Run ScopeId := fun machine =>
  .ok machine.current machine

/--
Compute with another scope as the current one.  However the computation ends,
the scope that was current before is so again.
-/
def within (scope : ScopeId) (computation : Run α) : Run α := fun machine =>
  let before := machine.current
  match computation { machine with current := scope } with
  | .ok value after => .ok value { after with current := before }
  | .error signal after => .error signal { after with current := before }

/-- A new identity for a function or class. -/
def freshIdentity : Run Nat := fun machine =>
  .ok machine.nextIdentity { machine with nextIdentity := machine.nextIdentity + 1 }

/-- A new function. -/
def newFunction (closure : Closure) : Run Value := do
  let identity ← freshIdentity
  return .function identity closure

/-- A new instance of a class, without fields. -/
def newObject (origin : Class) : Run Value := fun machine =>
  .ok (.object machine.fields.size origin) { machine with fields := machine.fields.push .empty }

/-- The closure of a method, in a new scope that binds the receiver. -/
def bindReceiver (method : Closure) (receiver : Value) : Run Closure := do
  let scope ← newScope method.scope (Bindings.empty.set "this" receiver)
  return { method with scope := scope }

/-- The value of the variable that an occurrence of a name refers to. -/
def readVariable (id : ExprId) (name : Token) : Run Value := fun machine =>
  let found :=
    match machine.distances.find? id with
    | some distance =>
      machine.store.getAt? machine.current distance name.lexeme
    | none => machine.store.get? machine.globals name.lexeme
  match found with
  | some value => .ok value machine
  | none => raise (.undefinedVariable name.lexeme) name machine

/--
Give the variable that an occurrence of a name refers to a new value.  A
global variable has to exist; a local one is bound in the scope found by its
distance.
-/
def writeVariable (id : ExprId) (name : Token) (value : Value) : Run Unit :=
  fun machine =>
    let target :=
      match machine.distances.find? id with
      | some distance => machine.store.ancestor? machine.current distance
      | none => machine.store.binder? machine.globals name.lexeme
    match target with
    | some scope =>
      .ok () { machine with store := machine.store.define scope name.lexeme value }
    | none => raise (.undefinedVariable name.lexeme) name machine

/-- The field of an instance under a name. -/
def field? (identity : Nat) (name : String) : Run (Option Value) :=
  fun machine =>
    let value :=
      match machine.fields[identity]? with
      | some bindings => bindings.get? name
      | none => none
    .ok value machine

/-- Give a field of an instance a new value. -/
def setField (identity : Nat) (name : String) (value : Value) : Run Unit :=
  fun machine =>
    .ok ()
      { machine with
        fields := machine.fields.modify identity fun bindings =>
          bindings.set name value }

/--
A property of a value.  Instances have their fields and the methods of their
class, bound to them; other values have no properties.
-/
def readProperty (object : Value) (property : Token) : Run Value :=
  match object with
  | .object identity origin => do
      match ← field? identity property.lexeme with
      | some value => return value
      | none =>
        match origin.findMethod? property.lexeme with
        | some method =>
          let closure ← bindReceiver method object
          newFunction closure
        | none => raise (.undefinedProperty property.lexeme) property
  | _ => raise .noProperties property

/-- Write to the output. -/
def write (text : String) : Run Unit := fun machine =>
  let (output, failure) := machine.output.writeText text
  let machine := { machine with output := output }
  match failure with
  | none => .ok () machine
  | some error => .error (.stream error) machine

/-- Write a line of output. -/
def printLine (text : String) : Run Unit :=
  write (text ++ "\n")

/-- Flush the output. -/
def flush : Run Unit := fun machine =>
  let (output, failure) := machine.output.flush
  let machine := { machine with output := output }
  match failure with
  | none => .ok () machine
  | some error => .error (.stream error) machine

/-- Read the clock. -/
def readClock : Run Value := fun machine =>
  .ok (.number (machine.clock machine.readings)) { machine with readings := machine.readings + 1 }

end Run

/-- How the variables that occurrences of names refer to are reached. -/
structure Access where
  read : ExprId → Token → Run Value
  write : ExprId → Token → Value → Run Unit

namespace Access

/-- Variables are reached by the recorded distances. -/
def recorded : Access where
  read := Run.readVariable
  write := Run.writeVariable

end Access

end Treewalk
