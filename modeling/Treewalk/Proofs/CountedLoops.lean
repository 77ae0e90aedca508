import Treewalk.Execution

/-!
# Loops with a counter as statements of their own

Closures hold functions as trees, so a loop with a counter that is executed as
such has to be a tree.  The parser builds none for it, and no operator is a
keyword.  `Stmt.rounds` therefore marks a choice with the keyword of the loop.
As long as the condition holds, which an absent one does, the loop executes its
body and then its step, both in the scope that the loop stands in.  What a
return, a fault or a failed stream ends, it ends at once.

The operators that mark a loop are a parameter.  Everything else is evaluated as
without marks, and with no operator as a mark nothing changes.
-/

namespace Treewalk

/-- The condition of a loop, if the condition of a choice is marked. -/
def Expr.loop? (marks : Token → Bool) : Expr → Option Expr
  | unary operator condition => if marks operator then some condition else none
  | _ => none

/-- The keyword of a loop with a counter. -/
def Token.marksLoop (token : Token) : Bool :=
  token.isWord .forWord

namespace Stmt

/-- The rounds of a loop with a counter, as a choice that its keyword marks. -/
def rounds (condition step : Option Expr) (body : Stmt) : Stmt :=
  .ifElse
    (.unary ⟨.keyword .forWord, "for", 0⟩
      (condition.getD (.literal (.boolean true))))
    body
    (step.map .expression)

/-- A loop with a counter; its first clause has a scope around the rounds. -/
def forLoop (initial : Option Stmt) (condition step : Option Expr) (body : Stmt) : Stmt :=
  match initial with
  | none => rounds condition step body
  | some initial => .block [initial, rounds condition step body]

end Stmt

namespace Run.Counted

variable (marks : Token → Bool) (access : Access)

mutual

/-- The value of an expression. -/
def evaluate : Nat → Expr → Run Value
  | 0, _ => exhausted
  | _ + 1, .literal value => pure (.ofLiteral value)
  | fuel + 1, .grouping inner => evaluate fuel inner
  | fuel + 1, .unary operator operand => do
    let value ← evaluate fuel operand
    orRaise operator (Operator.unary operator.kind value)
  | fuel + 1, .binary left operator right => do
    let leftValue ← evaluate fuel left
    let rightValue ← evaluate fuel right
    orRaise operator (Operator.binary operator.kind leftValue rightValue)
  | fuel + 1, .logical left operator right => do
    let leftValue ← evaluate fuel left
    if Operator.decides operator.kind leftValue then
      return leftValue
    else
      evaluate fuel right
  | _ + 1, .name id token => access.read id token
  | _ + 1, .receiver id keyword => access.read id keyword
  | fuel + 1, .assign id target value => do
    let assigned ← evaluate fuel value
    access.write id target assigned
    return assigned
  | fuel + 1, .call callee closing arguments => do
    let function ← evaluate fuel callee
    let values ← evaluateAll fuel arguments
    let called ← orRaise closing (checkCall function values.length)
    invoke fuel called values
  | fuel + 1, .get object property => do
    let value ← evaluate fuel object
    readProperty value property
  | fuel + 1, .set object property value => do
    match ← evaluate fuel object with
    | .object identity _ =>
      let assigned ← evaluate fuel value
      setField identity property.lexeme assigned
      return assigned
    | _ => raise .noFields property

/-- The values of a list of expressions, from the left. -/
def evaluateAll : Nat → List Expr → Run (List Value)
  | 0, _ => exhausted
  | _ + 1, [] => pure []
  | fuel + 1, first :: others => do
    let value ← evaluate fuel first
    let values ← evaluateAll fuel others
    return value :: values

/-- Run what is called, with as many arguments as it takes. -/
def invoke : Nat → Callee → List Value → Run Value
  | 0, _, _ => exhausted
  | fuel + 1, .closure closure, arguments => apply fuel closure arguments
  | _ + 1, .native .clock, _ => readClock
  | fuel + 1, .construct origin, arguments => do
    let object ← newObject origin
    match origin.initializer? with
    | none => return object
    | some method =>
      let closure ← bindReceiver method object
      let _ ← apply fuel closure arguments
      return object

/-- Call a closure with as many arguments as it takes. -/
def apply : Nat → Closure → List Value → Run Value
  | 0, _, _ => exhausted
  | fuel + 1, closure, arguments => do
    let scope ← newScope closure.scope (closure.argumentBindings arguments)
    finishCall closure (within scope (executeAll fuel closure.declaration.body))

/-- Execute a statement. -/
def execute : Nat → Stmt → Run Unit
  | 0, _ => exhausted
  | fuel + 1, .expression value => do
    let _ ← evaluate fuel value
  | fuel + 1, .print value => do
    let printed ← evaluate fuel value
    printLine printed.text
  | fuel + 1, .varDecl name (some initial) => do
    let value ← evaluate fuel initial
    defineHere name.lexeme value
  | _ + 1, .varDecl name none => defineHere name.lexeme .nil
  | fuel + 1, .block body => do
    let outer ← currentScope
    let scope ← newScope outer .empty
    within scope (executeAll fuel body)
  | fuel + 1, .ifElse condition body step =>
    match condition.loop? marks with
    | some continues => do
      let value ← evaluate fuel continues
      if value.truthy then
        match step with
        | none => execute fuel body
        | some step => sequence fuel [body, step]
        execute fuel (.ifElse condition body step)
      else
        return ()
    | none => do
      let value ← evaluate fuel condition
      if value.truthy then
        execute fuel body
      else
        match step with
        | some no => execute fuel no
        | none => return ()
  | fuel + 1, .whileLoop condition body => do
    let value ← evaluate fuel condition
    if value.truthy then
      execute fuel body
      execute fuel (.whileLoop condition body)
    else
      return ()
  | _ + 1, .funDecl declaration => do
    let scope ← currentScope
    let function ← newFunction ⟨declaration, scope, false⟩
    defineHere declaration.name.lexeme function
  | fuel + 1, .returnValue _ (some value) => do
    let returned ← evaluate fuel value
    throw (.returned returned)
  | _ + 1, .returnValue _ none => throw (.returned .nil)
  | fuel + 1, .classDecl name (some superclass) methods => do
    let parent ← evaluate fuel superclass
    let inherited ← inheritedLayers (superclassToken name superclass) parent
    let value ← newClass name.lexeme inherited methods
    defineHere name.lexeme value
  | _ + 1, .classDecl name none methods => do
    let value ← newClass name.lexeme [] methods
    defineHere name.lexeme value

/-- Execute statements one after the other. -/
def executeAll : Nat → List Stmt → Run Unit
  | 0, _ => exhausted
  | _ + 1, [] => pure ()
  | fuel + 1, first :: others => do
    execute fuel first
    executeAll fuel others

/-- Execute statements as a block does, but in the current scope. -/
def sequence : Nat → List Stmt → Run Unit
  | 0, _ => exhausted
  | fuel + 1, statements => executeAll fuel statements

end

/-- Execute the statements of a program in turn. -/
def executeProgram (fuel : Nat) : Program → Run Unit
  | [] => pure ()
  | statement :: statements => do
    execute marks access fuel statement
    executeProgram fuel statements

/--
The rounds of a loop: while the condition holds, the body and then the step are
executed in the scope around the loop.
-/
theorem execute_rounds (fuel : Nat) (condition step : Option Expr) (body : Stmt) :
    execute Token.marksLoop access (fuel + 1) (.rounds condition step body) = (do
      let value ←
        evaluate Token.marksLoop access fuel (condition.getD (.literal (.boolean true)))
      if value.truthy then
        match step with
        | none => execute Token.marksLoop access fuel body
        | some step => sequence Token.marksLoop access fuel [body, .expression step]
        execute Token.marksLoop access fuel (.rounds condition step body)
      else
        return ()) := by
  cases step <;> rfl

/-- With no operator as a mark, nothing changes. -/
theorem unmarked (fuel : Nat) : evaluate (fun _ => false) access fuel = evaluateWith access fuel ∧
      evaluateAll (fun _ => false) access fuel = evaluateAllWith access fuel ∧
      invoke (fun _ => false) access fuel = invokeWith access fuel ∧
      apply (fun _ => false) access fuel = applyWith access fuel ∧
      execute (fun _ => false) access fuel = executeWith access fuel ∧
      executeAll (fun _ => false) access fuel = executeAllWith access fuel := by
  induction fuel with
  | zero => exact ⟨rfl, rfl, rfl, rfl, rfl, rfl⟩
  | succ fuel ih =>
    rcases ih with ⟨evaluated, listed, invoked, applied, executed, finished⟩
    refine ⟨funext fun value => ?_, funext fun values => ?_, funext fun callee => ?_,
      funext fun closure => ?_, funext fun stmt => ?_, funext fun stmts => ?_⟩
    · cases value <;> simp only [evaluate, evaluated, listed, invoked] <;> rfl
    · cases values <;> simp only [evaluateAll, evaluateAllWith, evaluated, listed]
    · funext args
      cases callee with
      | closure function => simp only [invoke, invokeWith, applied]
      | native provided =>
        cases provided
        rfl
      | construct origin =>
        simp only [invoke, applied]
        rfl
    · funext args
      simp only [apply, applyWith, finished]
    · cases stmt with
      | ifElse cond yes no =>
        have plain : cond.loop? (fun _ => false) = none := by cases cond <;> rfl
        rw [execute.eq_def]
        simp only [plain, evaluated, executed]
        rfl
      | varDecl name initial | returnValue keyword initial | classDecl name initial methods =>
        cases initial <;> simp only [execute, executeWith, evaluated]
      | _ => simp only [execute, executeWith, evaluated, executed, finished]
    · cases stmts <;> simp only [executeAll, executeAllWith, executed, finished]

end Run.Counted

end Treewalk
