import Treewalk.Machine.Operator

/-!
# Evaluation

Expressions are evaluated and statements executed on the machine.  All
functions take fuel, which every nested call and every round of a loop uses
up; so they are total, and a computation that needs more ends with the signal
that its fuel is exhausted.  More fuel never changes a computation that ended
otherwise.

A call makes a scope inside the scope of its closure, binds the parameters
there and executes the body in that same scope.  A return statement ends the
body with a signal that the call turns into its value.  Initialisers yield the
receiver, whatever they return.

How variables are reached is left open: all functions take an `Access`.  The
machine itself goes by the recorded distances.
-/

namespace Treewalk

namespace Closure

/-- The scope contents of a call: parameters with their arguments. -/
def argumentBindings (closure : Closure) (arguments : List Value) : Bindings :=
  (closure.declaration.parameters.zip arguments).foldl
    (fun bindings (parameter, argument) =>
      bindings.set parameter.lexeme argument)
    .empty

/-- The receiver that a closure is bound to. -/
def receiver (closure : Closure) (store : Store) : Value :=
  (store.getLocal? closure.scope "this").getD .nil

/-- The value of a call whose body returned a value. -/
def outcome (closure : Closure) (store : Store) (returned : Value) : Value :=
  if closure.isInitializer then closure.receiver store else returned

end Closure

namespace Run

/-- The value of a call, after its body has ended. -/
def finishCall (closure : Closure) (body : Run Unit) : Run Value :=
  fun machine =>
    match body machine with
    | .ok () after => .ok (closure.outcome after.store .nil) after
    | .error (.returned value) after =>
      .ok (closure.outcome after.store value) after
    | .error signal after => .error signal after

/-- The token a fault with the superclass of a class points at. -/
def superclassToken (name : Token) : Expr → Token
  | .name _ token => token
  | _ => name

/-- The layers a class inherits from the value of its superclass. -/
def inheritedLayers (token : Token) : Value → Run (List ClassLayer)
  | .classValue parent => pure parent.layers
  | _ => raise .superclassNotClass token

/-- The methods of a class declared in a scope. -/
def closeMethods (scope : ScopeId) (methods : List FunctionDecl) : List (String × Closure) :=
  methods.map fun method =>
    (method.name.lexeme, ⟨method, scope, method.name.lexeme == Class.initializerName⟩)

/-- A new class declared in the current scope. -/
def newClass (name : String) (inherited : List ClassLayer)
    (methods : List FunctionDecl) : Run Value := do
  let scope ← currentScope
  let identity ← freshIdentity
  return .classValue ⟨identity, ⟨name, closeMethods scope methods⟩, inherited⟩

/-- What a call with a number of arguments runs, or the fault in it. -/
def checkCall (callee : Value) (given : Nat) : Except Fault Callee :=
  match callee.callee? with
  | none => .error .notCallable
  | some callee =>
    if given = callee.arity then
      .ok callee
    else
      .error (.arityMismatch callee.arity given)

mutual

/-- The value of an expression. -/
def evaluateWith (access : Access) : Nat → Expr → Run Value
  | 0, _ => exhausted
  | _ + 1, .literal value => pure (.ofLiteral value)
  | fuel + 1, .grouping inner => evaluateWith access fuel inner
  | fuel + 1, .unary operator operand => do
      let value ← evaluateWith access fuel operand
      orRaise operator (Operator.unary operator.kind value)
  | fuel + 1, .binary left operator right => do
      let leftValue ← evaluateWith access fuel left
      let rightValue ← evaluateWith access fuel right
      orRaise operator (Operator.binary operator.kind leftValue rightValue)
  | fuel + 1, .logical left operator right => do
      let leftValue ← evaluateWith access fuel left
      if Operator.decides operator.kind leftValue then
        return leftValue
      else
        evaluateWith access fuel right
  | _ + 1, .name id token => access.read id token
  | _ + 1, .receiver id keyword => access.read id keyword
  | fuel + 1, .assign id target value => do
      let assigned ← evaluateWith access fuel value
      access.write id target assigned
      return assigned
  | fuel + 1, .call callee closing arguments => do
      let function ← evaluateWith access fuel callee
      let values ← evaluateAllWith access fuel arguments
      let called ← orRaise closing (checkCall function values.length)
      invokeWith access fuel called values
  | fuel + 1, .get object property => do
      let value ← evaluateWith access fuel object
      readProperty value property
  | fuel + 1, .set object property value => do
      match ← evaluateWith access fuel object with
      | .object identity _ =>
        let assigned ← evaluateWith access fuel value
        setField identity property.lexeme assigned
        return assigned
      | _ => raise .noFields property

/-- The values of a list of expressions, from the left. -/
def evaluateAllWith (access : Access) : Nat → List Expr → Run (List Value)
  | 0, _ => exhausted
  | _ + 1, [] => pure []
  | fuel + 1, first :: others => do
      let value ← evaluateWith access fuel first
      let values ← evaluateAllWith access fuel others
      return value :: values

/-- Run what is called, with as many arguments as it takes. -/
def invokeWith (access : Access) : Nat → Callee → List Value → Run Value
  | 0, _, _ => exhausted
  | fuel + 1, .closure closure, arguments =>
    applyWith access fuel closure arguments
  | _ + 1, .native .clock, _ => readClock
  | fuel + 1, .construct origin, arguments => do
      let object ← newObject origin
      match origin.initializer? with
      | none => return object
      | some method =>
        let closure ← bindReceiver method object
        let _ ← applyWith access fuel closure arguments
        return object

/-- Call a closure with as many arguments as it takes. -/
def applyWith (access : Access) : Nat → Closure → List Value → Run Value
  | 0, _, _ => exhausted
  | fuel + 1, closure, arguments => do
      let scope ←
        newScope closure.scope (closure.argumentBindings arguments)
      finishCall closure (within scope (executeAllWith access fuel closure.declaration.body))

/-- Execute a statement. -/
def executeWith (access : Access) : Nat → Stmt → Run Unit
  | 0, _ => exhausted
  | fuel + 1, .expression value => do
      let _ ← evaluateWith access fuel value
  | fuel + 1, .print value => do
      let printed ← evaluateWith access fuel value
      printLine printed.text
  | fuel + 1, .varDecl name (some initial) => do
      let value ← evaluateWith access fuel initial
      defineHere name.lexeme value
  | _ + 1, .varDecl name none => defineHere name.lexeme .nil
  | fuel + 1, .block body => do
      let outer ← currentScope
      let scope ← newScope outer .empty
      within scope (executeAllWith access fuel body)
  | fuel + 1, .ifElse condition yes no => do
      let value ← evaluateWith access fuel condition
      if value.truthy then
        executeWith access fuel yes
      else
        match no with
        | some no => executeWith access fuel no
        | none => return ()
  | fuel + 1, .whileLoop condition body => do
      let value ← evaluateWith access fuel condition
      if value.truthy then
        executeWith access fuel body
        executeWith access fuel (.whileLoop condition body)
      else
        return ()
  | _ + 1, .funDecl declaration => do
      let scope ← currentScope
      let function ← newFunction ⟨declaration, scope, false⟩
      defineHere declaration.name.lexeme function
  | fuel + 1, .returnValue _ (some value) => do
      let returned ← evaluateWith access fuel value
      throw (.returned returned)
  | _ + 1, .returnValue _ none => throw (.returned .nil)
  | fuel + 1, .classDecl name (some superclass) methods => do
      let parent ← evaluateWith access fuel superclass
      let inherited ← inheritedLayers (superclassToken name superclass) parent
      let value ← newClass name.lexeme inherited methods
      defineHere name.lexeme value
  | _ + 1, .classDecl name none methods => do
      let value ← newClass name.lexeme [] methods
      defineHere name.lexeme value

/-- Execute statements one after the other. -/
def executeAllWith (access : Access) : Nat → List Stmt → Run Unit
  | 0, _ => exhausted
  | _ + 1, [] => pure ()
  | fuel + 1, first :: others => do
      executeWith access fuel first
      executeAllWith access fuel others

end

/-- The value of an expression, with variables reached by their distances. -/
def evaluate : Nat → Expr → Run Value :=
  evaluateWith .recorded

/-- Execute a statement, with variables reached by their distances. -/
def execute : Nat → Stmt → Run Unit :=
  executeWith .recorded

end Run

end Treewalk
