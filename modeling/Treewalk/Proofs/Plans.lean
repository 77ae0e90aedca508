import Treewalk.Proofs.Tasks

/-!
# Plans

What a task does is a plan: steps of its own and tasks that it begins, each
chosen by what those before it have yielded.  The computation of a task, with
any access to variables, is that of its plan, and the tasks it begins are those
of its plan.  So what is shown of plans step by step holds of both.
-/

namespace Treewalk

open Run

variable {α : Type}

namespace Task

/-- What a task yields. -/
@[reducible]
def Result : Task → Type
  | evaluate _ => Value
  | evaluateAll _ => List Value
  | invoke _ _ => Value
  | apply _ _ => Value
  | execute _ => Unit
  | executeAll _ => Unit

/-- The computation of a task. -/
@[simp]
def run (access : Access) (fuel : Nat) : (task : Task) → Run task.Result
  | evaluate value => evaluateWith access fuel value
  | evaluateAll values => evaluateAllWith access fuel values
  | invoke callee arguments => invokeWith access fuel callee arguments
  | apply closure arguments => applyWith access fuel closure arguments
  | execute statement => executeWith access fuel statement
  | executeAll statements => executeAllWith access fuel statements

/-- A task is left on the machine its run ends with. -/
theorem after_eq_final (fuel : Nat) (task : Task) (machine : Machine) :
    task.after fuel machine = Machine.final (task.run .recorded fuel machine) := by
  cases task <;> rfl

theorem run_zero (access : Access) (task : Task) : task.run access 0 = exhausted := by
  cases task <;> rfl

end Task

/-- One step of a task: what it does itself, or another task that it begins. -/
inductive Step : Type → Type 1 where
  | own {α : Type} (computation : Access → Run α) : Step α
  | start (task : Task) : Step task.Result
  /-- Statements in a scope of their own. -/
  | enter (scope : ScopeId) (body : List Stmt) : Step Unit
  /-- The body of a closure, in the scope of a call. -/
  | call (closure : Closure) (scope : ScopeId) : Step Value

/-- The steps of a task, each chosen by what those before it have yielded. -/
inductive Plan (α : Type) : Type 1 where
  | done (value : α)
  | step {β : Type} (first : Step β) (next : β → Plan α)

namespace Step

/-- The computation of a step. -/
@[simp]
def run (access : Access) (fuel : Nat) : Step α → Run α
  | own computation => computation access
  | start task => task.run access fuel
  | enter scope body => within scope (executeAllWith access fuel body)
  | call closure scope =>
    finishCall closure (within scope (executeAllWith access fuel closure.declaration.body))

/-- The task that a step begins. -/
@[simp]
def begun (machine : Machine) : Step α → Option (Task × Machine)
  | own _ => none
  | start task => some (task, machine)
  | enter scope body => some (.executeAll body, { machine with current := scope })
  | call closure scope =>
    some (.executeAll closure.declaration.body, { machine with current := scope })

end Step

namespace Plan

/-- Something that a task does itself, in the midst of a plan. -/
abbrev own {β : Type} (computation : Run β) (next : β → Plan α) : Plan α :=
  .step (.own fun _ => computation) next

/-- Another task, in the midst of a plan. -/
abbrev start (task : Task) (next : task.Result → Plan α) : Plan α :=
  .step (.start task) next

/-- What a task does itself in the end. -/
abbrev last (computation : Run α) : Plan α :=
  .own computation .done

/-- The computation of a plan. -/
@[simp]
def run (access : Access) (fuel : Nat) : Plan α → Run α
  | done value => pure value
  | step first next => first.run access fuel >>= fun value => (next value).run access fuel

/-- The tasks that a plan begins, in turn. -/
@[simp]
def steps (fuel : Nat) : Plan α → Machine → List (Task × Machine)
  | done _, _ => []
  | step first next, machine =>
    (first.begun machine).toList ++
      Task.entered (first.run .recorded fuel machine) fun value later =>
        (next value).steps fuel later

end Plan

/-! ## The plans of tasks -/

/-- How an expression is evaluated. -/
def Expr.plan : Expr → Plan Value
  | literal value => .done (.ofLiteral value)
  | grouping inner => .start (.evaluate inner) .done
  | unary operator operand =>
    .start (.evaluate operand) fun value =>
    .last (orRaise operator (Operator.unary operator.kind value))
  | binary left operator right =>
    .start (.evaluate left) fun leftValue =>
    .start (.evaluate right) fun rightValue =>
    .last (orRaise operator (Operator.binary operator.kind leftValue rightValue))
  | logical left operator right =>
    .start (.evaluate left) fun leftValue =>
      if Operator.decides operator.kind leftValue then
        .done leftValue
      else
        .start (.evaluate right) .done
  | name id token => .step (.own fun access => access.read id token) .done
  | receiver id keyword => .step (.own fun access => access.read id keyword) .done
  | assign id target value =>
    .start (.evaluate value) fun assigned =>
    .step (.own fun access => access.write id target assigned) fun _ =>
    .done assigned
  | call callee closing arguments =>
    .start (.evaluate callee) fun function =>
    .start (.evaluateAll arguments) fun values =>
    .own (orRaise closing (checkCall function values.length)) fun called =>
    .start (.invoke called values) .done
  | get object property =>
    .start (.evaluate object) fun value =>
    .last (readProperty value property)
  | set object property value =>
    .start (.evaluate object) fun owner =>
      match owner with
      | .object identity _ =>
        .start (.evaluate value) fun assigned =>
        .own (setField identity property.lexeme assigned) fun _ =>
        .done assigned
      | _ => .last (raise .noFields property)

/-- How a statement is executed. -/
def Stmt.plan : Stmt → Plan Unit
  | expression value =>
    .start (.evaluate value) fun _ =>
    .done ()
  | print value =>
    .start (.evaluate value) fun printed =>
    .last (printLine printed.text)
  | varDecl name (some initial) =>
    .start (.evaluate initial) fun value =>
    .last (defineHere name.lexeme value)
  | varDecl name none => .last (defineHere name.lexeme .nil)
  | block body =>
    .own currentScope fun outer =>
    .own (newScope outer .empty) fun scope =>
    .step (.enter scope body) .done
  | ifElse condition yes no =>
    .start (.evaluate condition) fun value =>
      if value.truthy then
        .start (.execute yes) .done
      else
        match no with
        | some no => .start (.execute no) .done
        | none => .done ()
  | whileLoop condition body =>
    .start (.evaluate condition) fun value =>
      if value.truthy then
        .start (.execute body) fun _ =>
        .start (.execute (.whileLoop condition body)) .done
      else
        .done ()
  | funDecl declaration =>
    .own currentScope fun scope =>
    .own (newFunction ⟨declaration, scope, false⟩) fun function =>
    .last (defineHere declaration.name.lexeme function)
  | returnValue _ (some value) =>
    .start (.evaluate value) fun returned =>
    .last (throw (.returned returned))
  | returnValue _ none => .last (throw (.returned .nil))
  | classDecl name (some superclass) methods =>
    .start (.evaluate superclass) fun parent =>
    .own (inheritedLayers (superclassToken name superclass) parent) fun inherited =>
    .own (newClass name.lexeme inherited methods) fun value =>
    .last (defineHere name.lexeme value)
  | classDecl name none methods =>
    .own (newClass name.lexeme [] methods) fun value =>
    .last (defineHere name.lexeme value)

/-- How a task is done. -/
def Task.plan : (task : Task) → Plan task.Result
  | evaluate value => value.plan
  | evaluateAll [] => .done []
  | evaluateAll (first :: others) =>
    .start (.evaluate first) fun value =>
    .start (.evaluateAll others) fun values =>
    .done (value :: values)
  | invoke (.closure closure) arguments => .start (.apply closure arguments) .done
  | invoke (.native .clock) _ => .last readClock
  | invoke (.construct origin) arguments =>
    .own (newObject origin) fun object =>
      match origin.initializer? with
      | none => .done object
      | some method =>
        .own (bindReceiver method object) fun closure =>
        .start (.apply closure arguments) fun _ =>
        .done object
  | apply closure arguments =>
    .own (newScope closure.scope (closure.argumentBindings arguments)) fun scope =>
    .step (.call closure scope) .done
  | execute statement => statement.plan
  | executeAll [] => .done ()
  | executeAll (first :: others) =>
    .start (.execute first) fun _ =>
    .start (.executeAll others) .done



/-! ## Tasks are done as planned -/

/-- A step leaves the scopes as the task that it begins. -/
theorem Step.store_after {step : Step α} {machine : Machine} {inner : Task × Machine} {fuel : Nat}
    (begins : inner ∈ step.begun machine) :
    (inner.1.after fuel inner.2).store =
      (Machine.final (step.run .recorded fuel machine)).store := by
  cases step with
  | own computation => cases begins
  | start task =>
    cases begins
    rw [Task.after_eq_final, run]
  | enter scope body =>
    cases begins
    exact (Machine.store_final_within _ _ _).symm
  | call closure scope =>
    cases begins
    rw [run, Machine.final_finishCall]
    exact (Machine.store_final_within _ _ _).symm

namespace Plan

variable (fuel : Nat) (cond : Prop) [Decidable cond] (yes no : Plan α)

@[simp]
theorem run_ite (access : Access) :
    (if cond then yes else no).run access fuel =
      if cond then yes.run access fuel else no.run access fuel :=
  apply_ite (Plan.run access fuel) cond yes no

@[simp]
theorem steps_ite (machine : Machine) :
    (if cond then yes else no).steps fuel machine =
      if cond then yes.steps fuel machine else no.steps fuel machine :=
  apply_ite (Plan.steps fuel · machine) cond yes no

end Plan

/-- Running the plan of an expression evaluates it. -/
theorem Expr.run_plan (access : Access) (fuel : Nat) (value : Expr) :
    value.plan.run access fuel = evaluateWith access (fuel + 1) value := by
  cases value with
  | set object property value =>
    simp only [plan, Plan.run, evaluateWith]
    congr 1
    funext owner
    cases owner <;> simp
  | _ => simp [plan, evaluateWith]

/-- Running the plan of a statement executes it. -/
theorem Stmt.run_plan (access : Access) (fuel : Nat) (stmt : Stmt) :
    stmt.plan.run access fuel = executeWith access (fuel + 1) stmt := by
  cases stmt with
  | ifElse cond yes no | varDecl name no | returnValue keyword no | classDecl name no methods =>
    cases no <;> simp [plan, executeWith]
  | _ => simp [plan, executeWith]

/-- With one more unit of fuel a task is done as planned. -/
theorem Task.run_plan (access : Access) (fuel : Nat) (task : Task) :
    task.plan.run access fuel = task.run access (fuel + 1) := by
  cases task with
  | evaluate value | execute value => exact value.run_plan access fuel
  | evaluateAll values => cases values <;> simp [plan, evaluateAllWith]
  | invoke callee args =>
    cases callee with
    | closure closure => simp [plan, invokeWith]
    | native provided =>
      cases provided
      simp [plan, invokeWith]
    | construct origin => cases found : origin.initializer? <;> simp [plan, invokeWith, found]
  | apply closure args => simp [plan, applyWith]
  | executeAll stmts => cases stmts <;> simp [plan, executeAllWith]

/-! ## Tasks begin what is planned -/

@[simp]
theorem Task.entered_nil (result : EStateM.Result Signal Machine α) :
    entered result (fun _ _ => []) = [] := by
  cases result <;> rfl

theorem Expr.steps_plan (fuel : Nat) (machine : Machine) (value : Expr) :
    value.plan.steps fuel machine = Task.stepsOfExpr fuel machine value := by
  cases value with
  | set object property value =>
    simp only [plan, Plan.steps, Task.stepsOfExpr, Task.followed]
    refine congrArg (List.cons _) (congrArg (Task.entered _) ?_)
    funext owner later
    cases owner <;> simp
  | call callee closing arguments =>
    simp only [plan, Plan.steps, Task.stepsOfExpr, Task.followed]
    refine congrArg (List.cons _) (congrArg (Task.entered _) ?_)
    funext function later
    refine congrArg (List.cons _) (congrArg (Task.entered _) ?_)
    funext values last
    cases checkCall function values.length with
    | error fault => rfl
    | ok called => exact congrArg (List.cons _) (Task.entered_nil _)
  | _ => simp [plan, Task.stepsOfExpr, Task.followed]

theorem Stmt.steps_plan (fuel : Nat) (machine : Machine) (stmt : Stmt) :
    stmt.plan.steps fuel machine = Task.stepsOfStmt fuel machine stmt := by
  cases stmt with
  | block body => exact congrArg (List.cons _) (Task.entered_nil _)
  | ifElse cond yes no => cases no <;> simp [plan, Task.stepsOfStmt, Task.followed]
  | varDecl name initial | returnValue keyword initial | classDecl name initial methods =>
    cases initial <;> simp [plan, Task.stepsOfStmt]
  | _ => simp [plan, Task.stepsOfStmt, Task.followed]

/-- The steps of a plan are those of the task. -/
theorem Task.steps_plan (fuel : Nat) (machine : Machine) (task : Task) :
    task.plan.steps fuel machine = task.steps fuel machine := by
  cases task with
  | evaluate value | execute value => exact value.steps_plan fuel machine
  | evaluateAll values | executeAll values => cases values <;> simp [plan, steps, followed]
  | invoke callee args =>
    cases callee with
    | closure closure => simp [plan, steps]
    | native provided =>
      cases provided
      simp [plan, steps]
    | construct origin =>
      cases found : origin.initializer? with
      | none => simp [plan, steps, found]
      | some method =>
        simp [plan, steps, found]
        rfl
  | apply closure args => simp [plan, steps]

end Treewalk
