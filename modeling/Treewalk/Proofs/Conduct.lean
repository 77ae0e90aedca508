import Treewalk.Machine.Evaluation

/-!
# Conducts

A conduct is what all computations of the machine do, whatever the code and the
machine: what they leave as it is, how they can end, how they write.  It is
given by laws about single steps and about sequencing.  Whole computations
follow by one induction on the fuel.
-/

namespace Treewalk

/-- What expressions and calls do, and what statements do. -/
structure Conduct where
  Expression : ∀ {α : Type}, Run α → Prop
  Statement : ∀ {α : Type}, Run α → Prop

namespace Conduct

open Run

/--
The laws of a conduct.  They name the steps that have an effect on the machine
or end a computation; a call may rely on the conduct of its body.
-/
structure Lawful (conduct : Conduct) (access : Access) : Prop where
  pure : ∀ {α : Type} (value : α), conduct.Expression (Pure.pure value : Run α)
  bind : ∀ {α β : Type} {computation : Run α} {next : α → Run β},
    conduct.Expression computation →
    (∀ value, conduct.Expression (next value)) →
      conduct.Expression (computation >>= next)
  raise : ∀ {α : Type} (fault : Fault) (token : Token),
    conduct.Expression (Run.raise fault token : Run α)
  exhausted : ∀ {α : Type}, conduct.Expression (Run.exhausted : Run α)
  read : ∀ id name, conduct.Expression (access.read id name)
  write : ∀ id name value, conduct.Expression (access.write id name value)
  currentScope : conduct.Expression Run.currentScope
  newScope : ∀ parent bindings, conduct.Expression (Run.newScope parent bindings)
  freshIdentity : conduct.Expression Run.freshIdentity
  newObject : ∀ origin, conduct.Expression (Run.newObject origin)
  field? : ∀ identity name, conduct.Expression (Run.field? identity name)
  setField : ∀ identity name value, conduct.Expression (Run.setField identity name value)
  readClock : conduct.Expression Run.readClock
  finishCall : ∀ {body : Run Unit}, conduct.Statement body → ∀ closure,
    conduct.Expression (Run.finishCall closure body)
  statement : ∀ {α : Type} {computation : Run α},
    conduct.Expression computation → conduct.Statement computation
  andThen : ∀ {α β : Type} {computation : Run α} {next : α → Run β},
    conduct.Statement computation →
    (∀ value, conduct.Statement (next value)) →
      conduct.Statement (computation >>= next)
  within : ∀ {α : Type} {computation : Run α}, conduct.Statement computation → ∀ scope,
      conduct.Statement (Run.within scope computation)
  defineHere : ∀ name value, conduct.Statement (Run.defineHere name value)
  print : ∀ text, conduct.Statement (Run.printLine text)
  returned : ∀ value, conduct.Statement (throw (.returned value) : Run Unit)

variable {conduct : Conduct} {access : Access}

/-! ## Steps -/

namespace Lawful

section

variable (lawful : conduct.Lawful access)

include lawful

theorem orRaise {α : Type} (token : Token) (result : Except Fault α) :
    conduct.Expression (Run.orRaise token result) := by
  cases result with
  | ok value => exact lawful.pure value
  | error fault => exact lawful.raise fault token

theorem newFunction (closure : Closure) : conduct.Expression (Run.newFunction closure) := by
  apply lawful.bind lawful.freshIdentity
  intro identity
  exact lawful.pure _

theorem bindReceiver (method : Closure) (receiver : Value) :
    conduct.Expression (Run.bindReceiver method receiver) := by
  apply lawful.bind (lawful.newScope _ _)
  intro scope
  exact lawful.pure _

/-- Properties are read by steps that keep the conduct. -/
theorem readProperty (object : Value) (property : Token) :
    conduct.Expression (Run.readProperty object property) := by
  cases object with
  | object identity origin =>
    apply lawful.bind (lawful.field? identity property.lexeme)
    intro found
    cases found with
    | some value => exact lawful.pure value
    | none =>
      simp only
      cases origin.findMethod? property.lexeme with
      | some method =>
        apply lawful.bind (lawful.bindReceiver method _)
        intro closure
        exact lawful.newFunction closure
      | none => exact lawful.raise _ property
  | _ => exact lawful.raise _ property

theorem inheritedLayers (token : Token) (parent : Value) :
    conduct.Expression (Run.inheritedLayers token parent) := by
  cases parent with
  | classValue parent => exact lawful.pure parent.layers
  | _ => exact lawful.raise _ token

theorem newClass (name : String) (inherited : List ClassLayer) (methods : List FunctionDecl) :
    conduct.Expression (Run.newClass name inherited methods) := by
  apply lawful.bind lawful.currentScope
  intro scope
  apply lawful.bind lawful.freshIdentity
  intro identity
  exact lawful.pure _

/-- An expression is followed by statements. -/
theorem after {α β : Type} {comp : Run α} {next : α → Run β} (expr : conduct.Expression comp)
    (stmt : ∀ value, conduct.Statement (next value)) : conduct.Statement (comp >>= next) :=
  lawful.andThen (lawful.statement expr) stmt

end

end Lawful

/-! ## Evaluation -/

/-- All computations with a bound of fuel keep to the conduct. -/
structure Kept (conduct : Conduct) (access : Access) (fuel : Nat) :
    Prop where
  evaluate : ∀ value, conduct.Expression (evaluateWith access fuel value)
  evaluateAll : ∀ values, conduct.Expression (evaluateAllWith access fuel values)
  invoke : ∀ callee arguments, conduct.Expression (invokeWith access fuel callee arguments)
  apply : ∀ closure arguments, conduct.Expression (applyWith access fuel closure arguments)
  execute : ∀ statement, conduct.Statement (executeWith access fuel statement)
  executeAll : ∀ statements, conduct.Statement (executeAllWith access fuel statements)

namespace Lawful

variable {fuel : Nat}

section

variable (lawful : conduct.Lawful access)

include lawful

/-- Without fuel nothing is done. -/
theorem kept_zero : conduct.Kept access 0 where
  evaluate _ := lawful.exhausted
  evaluateAll _ := lawful.exhausted
  invoke _ _ := lawful.exhausted
  apply _ _ := lawful.exhausted
  execute _ := lawful.statement lawful.exhausted
  executeAll _ := lawful.statement lawful.exhausted

section

variable (kept : conduct.Kept access fuel)

include kept

/-- Expressions keep the conduct if all is kept with less fuel. -/
theorem evaluate_succ (value : Expr) :
    conduct.Expression (evaluateWith access (fuel + 1) value) := by
  cases value with
  | literal value => exact lawful.pure _
  | grouping inner => exact kept.evaluate inner
  | unary op operand =>
    apply lawful.bind (kept.evaluate operand)
    intro value
    exact lawful.orRaise op _
  | binary left op right =>
    apply lawful.bind (kept.evaluate left)
    intro leftValue
    apply lawful.bind (kept.evaluate right)
    intro rightValue
    exact lawful.orRaise op _
  | logical left op right =>
    apply lawful.bind (kept.evaluate left)
    intro leftValue
    split
    · exact lawful.pure leftValue
    · exact kept.evaluate right
  | name id token | receiver id token => exact lawful.read id token
  | assign id target value =>
    apply lawful.bind (kept.evaluate value)
    intro assigned
    apply lawful.bind (lawful.write id target assigned)
    intro _
    exact lawful.pure assigned
  | call callee closing args =>
    apply lawful.bind (kept.evaluate callee)
    intro function
    apply lawful.bind (kept.evaluateAll args)
    intro values
    apply lawful.bind (lawful.orRaise closing _)
    intro called
    exact kept.invoke called values
  | get object property =>
    apply lawful.bind (kept.evaluate object)
    intro value
    exact lawful.readProperty value property
  | set object property value =>
    apply lawful.bind (kept.evaluate object)
    intro owner
    cases owner with
    | object identity origin =>
      apply lawful.bind (kept.evaluate value)
      intro assigned
      apply lawful.bind (lawful.setField identity _ assigned)
      intro _
      exact lawful.pure assigned
    | _ => exact lawful.raise _ property

theorem evaluateAll_succ (values : List Expr) :
    conduct.Expression (evaluateAllWith access (fuel + 1) values) := by
  cases values with
  | nil => exact lawful.pure []
  | cons first others =>
    apply lawful.bind (kept.evaluate first)
    intro value
    apply lawful.bind (kept.evaluateAll others)
    intro values
    exact lawful.pure (value :: values)

theorem apply_succ (closure : Closure) (args : List Value) :
    conduct.Expression (applyWith access (fuel + 1) closure args) := by
  apply lawful.bind (lawful.newScope _ _)
  intro scope
  exact lawful.finishCall (lawful.within (kept.executeAll _) scope) closure

theorem invoke_succ (callee : Callee) (args : List Value) :
    conduct.Expression (invokeWith access (fuel + 1) callee args) := by
  cases callee with
  | closure closure => exact kept.apply closure args
  | native provided =>
    cases provided
    exact lawful.readClock
  | construct origin =>
    apply lawful.bind (lawful.newObject origin)
    intro object
    cases origin.initializer? with
    | none => exact lawful.pure object
    | some method =>
      apply lawful.bind (lawful.bindReceiver method object)
      intro closure
      apply lawful.bind (kept.apply closure args)
      intro _
      exact lawful.pure object

/-- Statements keep the conduct if all is kept with less fuel. -/
theorem execute_succ (stmt : Stmt) : conduct.Statement (executeWith access (fuel + 1) stmt) := by
  cases stmt with
  | expression value =>
    apply lawful.after (kept.evaluate value)
    intro _
    exact lawful.statement (lawful.pure ())
  | print value =>
    apply lawful.after (kept.evaluate value)
    intro printed
    exact lawful.print _
  | varDecl name initial =>
    cases initial with
    | none => exact lawful.defineHere name.lexeme .nil
    | some initial =>
      apply lawful.after (kept.evaluate initial)
      intro value
      exact lawful.defineHere name.lexeme value
  | block body =>
    apply lawful.after lawful.currentScope
    intro outer
    apply lawful.after (lawful.newScope outer .empty)
    intro scope
    exact lawful.within (kept.executeAll body) scope
  | ifElse cond yes no =>
    apply lawful.after (kept.evaluate cond)
    intro value
    split
    · exact kept.execute yes
    · cases no with
      | some no => exact kept.execute no
      | none => exact lawful.statement (lawful.pure ())
  | whileLoop cond body =>
    apply lawful.after (kept.evaluate cond)
    intro value
    split
    · apply lawful.andThen (kept.execute body)
      intro _
      exact kept.execute (.whileLoop cond body)
    · exact lawful.statement (lawful.pure ())
  | funDecl decl =>
    apply lawful.after lawful.currentScope
    intro scope
    apply lawful.after (lawful.newFunction _)
    intro function
    exact lawful.defineHere _ function
  | returnValue keyword value =>
    cases value with
    | none => exact lawful.returned .nil
    | some value =>
      apply lawful.after (kept.evaluate value)
      intro returned
      exact lawful.returned returned
  | classDecl name superclass methods =>
    cases superclass with
    | none =>
      apply lawful.after (lawful.newClass _ _ methods)
      intro value
      exact lawful.defineHere name.lexeme value
    | some superclass =>
      apply lawful.after (kept.evaluate superclass)
      intro parent
      apply lawful.after (lawful.inheritedLayers _ parent)
      intro inherited
      apply lawful.after (lawful.newClass _ inherited methods)
      intro value
      exact lawful.defineHere name.lexeme value

theorem executeAll_succ (stmts : List Stmt) :
    conduct.Statement (executeAllWith access (fuel + 1) stmts) := by
  cases stmts with
  | nil => exact lawful.statement (lawful.pure ())
  | cons first others =>
    apply lawful.andThen (kept.execute first)
    intro _
    exact kept.executeAll others

end

/-- Computations keep to a conduct that their steps keep to. -/
theorem kept (fuel : Nat) : conduct.Kept access fuel := by
  induction fuel with
  | zero => exact lawful.kept_zero
  | succ fuel ih =>
    exact {
      evaluate := lawful.evaluate_succ ih
      evaluateAll := lawful.evaluateAll_succ ih
      invoke := lawful.invoke_succ ih
      apply := lawful.apply_succ ih
      execute := lawful.execute_succ ih
      executeAll := lawful.executeAll_succ ih }

end

end Lawful

end Conduct

end Treewalk
