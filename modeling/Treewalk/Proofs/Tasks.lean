import Treewalk.Proofs.Frame
import Treewalk.Proofs.TreeShapes

/-!
# The computations of a run

While a session runs it evaluates expressions, executes statements and calls
closures.  A task is one such computation; tasks begin other tasks, on machines
that tasks before them have left.  What is said of all tasks that a session
visits is said of every moment of its runs.
-/

namespace Treewalk

open Run Scoping List Machine

/-- A machine holds a value in a scope or in a field. -/
inductive Machine.Holds (machine : Machine) : Value → Prop where
  | bound {scope name value} :
      machine.store.getLocal? scope name = some value → Holds machine value
  | field {bindings name value} :
      bindings ∈ machine.fields → bindings.get? name = some value → Holds machine value

/-- A computation with the code and the values it is about. -/
inductive Task where
  | evaluate (value : Expr)
  | evaluateAll (values : List Expr)
  | invoke (callee : Callee) (arguments : List Value)
  | apply (closure : Closure) (arguments : List Value)
  | execute (statement : Stmt)
  | executeAll (statements : List Stmt)

namespace Task

/-- The machine that a task leaves, however it ends. -/
def after (fuel : Nat) : Task → Machine → Machine
  | evaluate value, machine =>
    final (evaluateWith .recorded fuel value machine)
  | evaluateAll values, machine =>
    final (evaluateAllWith .recorded fuel values machine)
  | invoke callee arguments, machine =>
    final (invokeWith .recorded fuel callee arguments machine)
  | apply closure arguments, machine =>
    final (applyWith .recorded fuel closure arguments machine)
  | execute statement, machine =>
    final (executeWith .recorded fuel statement machine)
  | executeAll statements, machine =>
    final (executeAllWith .recorded fuel statements machine)

/--
A task begins another one.  The fuel is that of the task begun; the other one
has one more.
-/
inductive Begins (fuel : Nat) : Task → Machine → Task → Machine → Prop where
  | firstPart {value part others machine} :
      value.parts = part :: others → Begins fuel (.evaluate value) machine (.evaluate part) machine
  | rightOperand {left right operator value machine later} :
      evaluateWith .recorded fuel left machine = .ok value later →
      Begins fuel (.evaluate (.binary left operator right)) machine (.evaluate right) later
  | undecided {left right operator value machine later} :
      evaluateWith .recorded fuel left machine = .ok value later →
      Operator.decides operator.kind value = false →
      Begins fuel (.evaluate (.logical left operator right)) machine (.evaluate right) later
  | fieldValue {object value property identity origin machine later} :
      evaluateWith .recorded fuel object machine = .ok (.object identity origin) later →
      Begins fuel (.evaluate (.set object property value)) machine (.evaluate value) later
  | arguments {callee closing arguments function machine later} :
      evaluateWith .recorded fuel callee machine = .ok function later →
      Begins fuel (.evaluate (.call callee closing arguments)) machine
        (.evaluateAll arguments) later
  | call {callee closing arguments function values called machine later last} :
      evaluateWith .recorded fuel callee machine = .ok function later →
      evaluateAllWith .recorded fuel arguments later = .ok values last →
      checkCall function values.length = .ok called →
      Begins fuel (.evaluate (.call callee closing arguments)) machine (.invoke called values) last
  | firstValue {first others machine} :
      Begins fuel (.evaluateAll (first :: others)) machine (.evaluate first) machine
  | otherValues {first others value machine later} :
      evaluateWith .recorded fuel first machine = .ok value later →
      Begins fuel (.evaluateAll (first :: others)) machine (.evaluateAll others) later
  | closure {closure arguments machine} :
      Begins fuel (.invoke (.closure closure) arguments) machine (.apply closure arguments) machine
  | initializer {origin method closure arguments machine later} :
      origin.initializer? = some method → (newObject origin >>= bindReceiver method) machine =
        .ok closure later → Begins fuel (.invoke (.construct origin) arguments) machine
        (.apply closure arguments) later
  | body {closure arguments scope machine later} :
      newScope closure.scope (closure.argumentBindings arguments) machine = .ok scope later →
      Begins fuel (.apply closure arguments) machine (.executeAll closure.declaration.body)
        { later with current := scope }
  | operand {statement value machine} :
      value ∈ statement.operands →
      Begins fuel (.execute statement) machine (.evaluate value) machine
  | block {body scope machine later} :
      newScope machine.current .empty machine = .ok scope later →
      Begins fuel (.execute (.block body)) machine (.executeAll body)
        { later with current := scope }
  | yes {condition yes no value machine later} :
      evaluateWith .recorded fuel condition machine = .ok value later → value.truthy = true →
      Begins fuel (.execute (.ifElse condition yes no)) machine (.execute yes) later
  | no {condition yes no value machine later} :
      evaluateWith .recorded fuel condition machine = .ok value later → value.truthy = false →
      Begins fuel (.execute (.ifElse condition yes (some no))) machine (.execute no) later
  | round {condition body value machine later} :
      evaluateWith .recorded fuel condition machine = .ok value later → value.truthy = true →
      Begins fuel (.execute (.whileLoop condition body)) machine (.execute body) later
  | again {condition body value machine later last} :
      evaluateWith .recorded fuel condition machine = .ok value later → value.truthy = true →
      executeWith .recorded fuel body later = .ok () last →
      Begins fuel (.execute (.whileLoop condition body)) machine
        (.execute (.whileLoop condition body)) last
  | firstStatement {first others machine} :
      Begins fuel (.executeAll (first :: others)) machine (.execute first) machine
  | otherStatements {first others machine later} :
      executeWith .recorded fuel first machine = .ok () later →
      Begins fuel (.executeAll (first :: others)) machine (.executeAll others) later

/-- The tasks that a task begins, those that they begin, and so on. -/
inductive Reaches : Nat → Task → Machine → Nat → Task → Machine → Prop where
  | here {fuel task machine} :
      Reaches fuel task machine fuel task machine
  | through {fuel left task inner last machine later final} :
      Begins fuel task machine inner later → Reaches fuel inner later left last final →
      Reaches (fuel + 1) task machine left last final

end Task

/-- A task that declares a class, and the class it makes. -/
inductive Task.Declares : Nat → Task → Machine → Class → Prop where
  | root {fuel name methods machine} :
      Declares (fuel + 1) (.execute (.classDecl name none methods)) machine
        ⟨machine.nextIdentity, ⟨name.lexeme, closeMethods machine.current methods⟩, []⟩
  | heir {fuel name superclass methods parent machine later} :
      evaluateWith .recorded fuel superclass machine = .ok (.classValue parent) later →
      Declares (fuel + 1) (.execute (.classDecl name (some superclass) methods)) machine
        ⟨later.nextIdentity, ⟨name.lexeme, closeMethods machine.current methods⟩, parent.layers⟩

/-- The tasks of a program whose statements are executed in turn. -/
inductive Program.Visits (fuel : Nat) :
    Program → Machine → Nat → Task → Machine → Prop where
  | first {statement statements left task machine later} :
      Task.Reaches fuel (.execute statement) machine left task later →
      Visits fuel (statement :: statements) machine left task later
  | others {statement statements left task machine later last} :
      Run.executeWith .recorded fuel statement machine = .ok () later →
      Visits fuel statements later left task last →
      Visits fuel (statement :: statements) machine left task last

/-- The tasks of texts that a session runs one after the other. -/
inductive Session.Visits (fuel : Nat) :
    List String → Session → Nat → Task → Machine → Prop where
  | first {text texts session program nextId left task machine} :
      readProgram text session.nextId = (.ok program, nextId) → (analyse program).errors = [] →
      Program.Visits fuel program (session.machine.recordDistances (analyse program).distances) left
        task machine → Visits fuel (text :: texts) session left task machine
  | others {text texts session left task machine} :
      Visits fuel texts (session.eval fuel text).2 left task machine →
      Visits fuel (text :: texts) session left task machine

variable {later machine : Machine} {value : Expr} {left fuel : Nat} {α β : Type} {stmt : Stmt}
  {task inner : Task}

theorem Task.Reaches.trans {least : Nat} {last : Task} {final : Machine}
    (reaches : Reaches fuel task machine left inner later)
    (further : Reaches left inner later least last final) :
    Reaches fuel task machine least last final := by
  induction reaches with
  | here => exact further
  | through begins _ ih => exact .through begins (ih further)

section

variable {least : Nat}

theorem Program.Visits.reaches {prog : Program} {start : Machine}
    (visits : Visits fuel prog start left task machine)
    (reaches : Task.Reaches left task machine least inner later) :
    Visits fuel prog start least inner later := by
  induction visits with
  | first reached => exact .first (reached.trans reaches)
  | others ran _ ih => exact .others ran (ih reaches)

theorem Session.Visits.reaches {texts : List String} {session : Session}
    (visits : Visits fuel texts session left task machine)
    (reaches : Task.Reaches left task machine least inner later) :
    Visits fuel texts session least inner later := by
  induction visits with
  | first read clean visited => exact .first read clean (visited.reaches reaches)
  | others _ ih => exact .others (ih reaches)

theorem Session.Visits.begins {texts : List String} {session : Session}
    (visits : Visits fuel texts session (left + 1) task machine)
    (begins : Task.Begins left task machine inner later) :
    Visits fuel texts session left inner later :=
  visits.reaches (.through begins .here)

end

theorem Run.bind_of_ok {comp : Run α} {next : α → Run β} {value : α}
    (ran : comp machine = .ok value later) : (comp >>= next) machine = next value later := by
  simp only [Bind.bind, EStateM.bind, ran]

theorem Run.exists_of_bind {comp : Run α} {next : α → Run β} {value : β}
    (ran : (comp >>= next) machine = .ok value later) :
    ∃ first middle, comp machine = .ok first middle ∧ next first middle = .ok value later := by
  simp only [Bind.bind, EStateM.bind] at ran
  cases first : comp machine with
  | ok result middle =>
    rw [first] at ran
    exact ⟨result, middle, rfl, ran⟩
  | error signal middle =>
    rw [first] at ran
    cases ran

namespace Machine

theorem store_final_within (scope : ScopeId) (comp : Run α) (machine : Machine) :
    (final (Run.within scope comp machine)).store =
      (final (comp { machine with current := scope })).store := by
  unfold Run.within
  cases comp { machine with current := scope } <;> rfl

theorem final_finishCall (closure : Closure) (body : Run Unit) (machine : Machine) :
    final (Run.finishCall closure body machine) = final (body machine) := by
  unfold Run.finishCall
  cases body machine with
  | ok value later => rfl
  | error signal later => cases signal <;> rfl

end Machine

/-! ## Steps in turn -/

namespace Task

/-- What follows a computation that ends with a value. -/
def entered (result : EStateM.Result Signal Machine α)
    (next : α → Machine → List (Task × Machine)) : List (Task × Machine) :=
  match result with
  | .ok value later => next value later
  | .error _ _ => []

/-- A task and, if it ends with a value, what follows. -/
def followed (task : Task) (machine : Machine) (result : EStateM.Result Signal Machine α)
    (next : α → Machine → List (Task × Machine)) : List (Task × Machine) :=
  (task, machine) :: entered result next

/-- What an expression begins, in turn. -/
def stepsOfExpr (fuel : Nat) (machine : Machine) :
    Expr → List (Task × Machine)
  | .literal _ => []
  | .grouping inner => [(.evaluate inner, machine)]
  | .unary _ operand => [(.evaluate operand, machine)]
  | .binary left _ right =>
    followed (.evaluate left) machine (evaluateWith .recorded fuel left machine) fun _ later =>
        [(.evaluate right, later)]
  | .logical left operator right =>
    followed (.evaluate left) machine (evaluateWith .recorded fuel left machine) fun value later =>
        if Operator.decides operator.kind value then
          []
        else
          [(.evaluate right, later)]
  | .name _ _ => []
  | .receiver _ _ => []
  | .assign _ _ value => [(.evaluate value, machine)]
  | .call callee _ arguments =>
    followed (.evaluate callee) machine
      (evaluateWith .recorded fuel callee machine) fun function later =>
        followed (.evaluateAll arguments) later
          (evaluateAllWith .recorded fuel arguments later) fun values last =>
            match checkCall function values.length with
            | .ok called => [(.invoke called values, last)]
            | .error _ => []
  | .get object _ => [(.evaluate object, machine)]
  | .set object _ value =>
    followed (.evaluate object) machine
      (evaluateWith .recorded fuel object machine) fun owner later =>
        match owner with
        | .object _ _ => [(.evaluate value, later)]
        | _ => []

/-- What a statement begins, in turn. -/
def stepsOfStmt (fuel : Nat) (machine : Machine) :
    Stmt → List (Task × Machine)
  | .expression value => [(.evaluate value, machine)]
  | .print value => [(.evaluate value, machine)]
  | .varDecl _ initial =>
    initial.toList.map fun value => (.evaluate value, machine)
  | .block body =>
    entered (newScope machine.current .empty machine) fun scope later =>
      [(.executeAll body, { later with current := scope })]
  | .ifElse condition yes no =>
    followed (.evaluate condition) machine
      (evaluateWith .recorded fuel condition machine) fun value later =>
        if value.truthy then
          [(.execute yes, later)]
        else
          no.toList.map fun no => (.execute no, later)
  | .whileLoop condition body =>
    followed (.evaluate condition) machine
      (evaluateWith .recorded fuel condition machine) fun value later =>
        if value.truthy then
          followed (.execute body) later (executeWith .recorded fuel body later) fun _ last =>
              [(.execute (.whileLoop condition body), last)]
        else
          []
  | .funDecl _ => []
  | .returnValue _ value =>
    value.toList.map fun value => (.evaluate value, machine)
  | .classDecl _ superclass _ =>
    superclass.toList.map fun value => (.evaluate value, machine)

/-- What a task begins, in turn. -/
def steps (fuel : Nat) (machine : Machine) : Task → List (Task × Machine)
  | evaluate value => stepsOfExpr fuel machine value
  | evaluateAll [] => []
  | evaluateAll (first :: others) =>
    followed (.evaluate first) machine (evaluateWith .recorded fuel first machine) fun _ later =>
        [(.evaluateAll others, later)]
  | invoke (.closure closure) arguments => [(.apply closure arguments, machine)]
  | invoke (.native _) _ => []
  | invoke (.construct origin) arguments =>
    match origin.initializer? with
    | none => []
    | some method =>
      entered ((newObject origin >>= bindReceiver method) machine)
        fun closure later => [(.apply closure arguments, later)]
  | apply closure arguments =>
    entered (newScope closure.scope (closure.argumentBindings arguments) machine) fun scope later =>
        [(.executeAll closure.declaration.body, { later with current := scope })]
  | execute statement => stepsOfStmt fuel machine statement
  | executeAll [] => []
  | executeAll (first :: others) =>
    followed (.execute first) machine (executeWith .recorded fuel first machine) fun _ later =>
        [(.executeAll others, later)]

/-! ### Steps are what a task begins -/

theorem mem_entered {result : EStateM.Result Signal Machine α}
    {next : α → Machine → List (Task × Machine)} {step : Task × Machine} :
    step ∈ entered result next ↔
      ∃ value later, result = .ok value later ∧ step ∈ next value later := by
  cases result with
  | ok value later =>
    constructor
    · intro mem
      exact ⟨value, later, rfl, mem⟩
    · rintro ⟨_, _, ⟨⟩, mem⟩
      exact mem
  | error signal later =>
    constructor
    · intro mem
      cases mem
    · rintro ⟨_, _, ⟨⟩, _⟩

theorem mem_followed {result : EStateM.Result Signal Machine α}
    {next : α → Machine → List (Task × Machine)} {step : Task × Machine} :
    step ∈ followed task machine result next ↔
      step = (task, machine) ∨ ∃ value later, result = .ok value later ∧
          step ∈ next value later := by
  rw [followed, mem_cons, mem_entered]

theorem begins_of_mem_stepsOfExpr (mem : (inner, later) ∈ stepsOfExpr fuel machine value) :
    Begins fuel (.evaluate value) machine inner later := by
  cases value with
  | literal value => cases mem
  | grouping inner | unary op operand | assign id target value | get object property =>
    cases mem_singleton.mp mem
    exact .firstPart rfl
  | binary left op right =>
    rcases mem_followed.mp mem with same | ⟨_, _, ran, mem⟩
    · cases same
      exact .firstPart rfl
    · cases mem_singleton.mp mem
      exact .rightOperand ran
  | logical left op right =>
    rcases mem_followed.mp mem with same | ⟨value, _, ran, mem⟩
    · cases same
      exact .firstPart rfl
    · cases decided : Operator.decides op.kind value with
      | true =>
        rw [decided] at mem
        cases mem
      | false =>
        rw [decided] at mem
        cases mem_singleton.mp mem
        exact .undecided ran decided
  | name id token => cases mem
  | receiver id keyword => cases mem
  | call callee closing args =>
    rcases mem_followed.mp mem with same | ⟨function, _, ran, mem⟩
    · cases same
      exact .firstPart rfl
    · rcases mem_followed.mp mem with same | ⟨values, _, listed, mem⟩
      · cases same
        exact .arguments ran
      · cases checked : checkCall function values.length with
        | error fault =>
          rw [checked] at mem
          cases mem
        | ok called =>
          rw [checked] at mem
          cases mem_singleton.mp mem
          exact .call ran listed checked
  | set object property value =>
    rcases mem_followed.mp mem with same | ⟨owner, _, ran, mem⟩
    · cases same
      exact .firstPart rfl
    · cases owner with
      | object identity origin =>
        cases mem_singleton.mp mem
        exact .fieldValue ran
      | _ => cases mem

theorem begins_of_mem_stepsOfStmt {stmt : Stmt}
    (mem : (inner, later) ∈ stepsOfStmt fuel machine stmt) :
    Begins fuel (.execute stmt) machine inner later := by
  cases stmt with
  | expression value | print value =>
    cases mem_singleton.mp mem
    exact .operand (.head _)
  | varDecl name initial | classDecl name superclass methods =>
    rcases mem_map.mp mem with ⟨value, inside, same⟩
    cases same
    exact .operand inside
  | block body =>
    rw [stepsOfStmt, mem_entered] at mem
    rcases mem with ⟨_, _, pushed, mem⟩
    cases mem_singleton.mp mem
    exact .block pushed
  | ifElse cond yes no =>
    rcases mem_followed.mp mem with same | ⟨value, _, ran, mem⟩
    · cases same
      exact .operand (.head _)
    · cases truth : value.truthy with
      | true =>
        rw [truth] at mem
        cases mem_singleton.mp mem
        exact .yes ran truth
      | false =>
        rw [truth] at mem
        rcases mem_map.mp mem with ⟨branch, inside, same⟩
        cases same
        cases Option.mem_toList.mp inside
        exact .no ran truth
  | whileLoop cond body =>
    rcases mem_followed.mp mem with same | ⟨value, _, ran, mem⟩
    · cases same
      exact .operand (.head _)
    · cases truth : value.truthy with
      | false =>
        rw [truth] at mem
        cases mem
      | true =>
        rw [truth] at mem
        rcases mem_followed.mp mem with same | ⟨_, _, again, mem⟩
        · cases same
          exact .round ran truth
        · cases mem_singleton.mp mem
          exact .again ran truth again
  | funDecl decl => cases mem
  | returnValue keyword value =>
    rcases mem_map.mp mem with ⟨value, inside, same⟩
    cases same
    exact .operand inside

theorem begins_of_mem_steps (mem : (inner, later) ∈ steps fuel machine task) :
    Begins fuel task machine inner later := by
  cases task with
  | evaluate value => exact begins_of_mem_stepsOfExpr mem
  | evaluateAll values =>
    cases values with
    | nil => cases mem
    | cons first others =>
      rcases mem_followed.mp mem with same | ⟨_, _, ran, mem⟩
      · cases same
        exact .firstValue
      · cases mem_singleton.mp mem
        exact .otherValues ran
  | invoke callee args =>
    cases callee with
    | closure closure =>
      cases mem_singleton.mp mem
      exact .closure
    | native provided => cases mem
    | construct origin =>
      rw [steps] at mem
      cases found : origin.initializer? with
      | none =>
        rw [found] at mem
        cases mem
      | some method =>
        rw [found] at mem
        rcases mem_entered.mp mem with ⟨_, _, bound, mem⟩
        cases mem_singleton.mp mem
        exact .initializer found bound
  | apply closure args =>
    rw [steps, mem_entered] at mem
    rcases mem with ⟨_, _, pushed, mem⟩
    cases mem_singleton.mp mem
    exact .body pushed
  | execute stmt => exact begins_of_mem_stepsOfStmt mem
  | executeAll stmts =>
    cases stmts with
    | nil => cases mem
    | cons first others =>
      rcases mem_followed.mp mem with same | ⟨_, _, ran, mem⟩
      · cases same
        exact .firstStatement
      · cases mem_singleton.mp mem
        exact .otherStatements ran

theorem mem_stepsOfExpr_firstPart {part : Expr} {others : List Expr}
    (parts : value.parts = part :: others) :
    (.evaluate part, machine) ∈ stepsOfExpr fuel machine value := by
  cases value <;> cases parts <;> exact .head _

theorem mem_stepsOfStmt_operand {stmt : Stmt} (mem : value ∈ stmt.operands) :
    (.evaluate value, machine) ∈ stepsOfStmt fuel machine stmt := by
  cases stmt with
  | varDecl name initial | returnValue keyword value | classDecl name superclass methods =>
    exact mem_map_of_mem mem
  | block body => cases mem
  | funDecl decl => cases mem
  | _ =>
    cases mem_singleton.mp mem
    exact .head _

/-- The steps of a task are the tasks that it begins. -/
theorem mem_steps_iff :
    (inner, later) ∈ steps fuel machine task ↔ Begins fuel task machine inner later := by
  refine ⟨begins_of_mem_steps, ?_⟩
  intro begins
  cases begins with
  | firstPart parts => exact mem_stepsOfExpr_firstPart parts
  | rightOperand ran | fieldValue ran | otherValues ran | otherStatements ran =>
    exact mem_followed.mpr (.inr ⟨_, _, ran, .head _⟩)
  | undecided ran decided | yes ran decided | no ran decided =>
    refine mem_followed.mpr (.inr ⟨_, _, ran, ?_⟩)
    rw [decided]
    exact .head _
  | arguments ran => exact mem_followed.mpr (.inr ⟨_, _, ran, mem_followed.mpr (.inl rfl)⟩)
  | call ran listed checked =>
    refine mem_followed.mpr (.inr ⟨_, _, ran, mem_followed.mpr (.inr ⟨_, _, listed, ?_⟩)⟩)
    rw [checked]
    exact .head _
  | firstValue | firstStatement => exact mem_followed.mpr (.inl rfl)
  | closure => exact .head _
  | initializer found bound =>
    rw [steps, found, mem_entered]
    exact ⟨_, _, bound, .head _⟩
  | body pushed =>
    rw [steps, mem_entered]
    exact ⟨_, _, pushed, .head _⟩
  | operand mem => exact mem_stepsOfStmt_operand mem
  | block pushed =>
    rw [steps, stepsOfStmt, mem_entered]
    exact ⟨_, _, pushed, .head _⟩
  | round ran truth =>
    refine mem_followed.mpr (.inr ⟨_, _, ran, ?_⟩)
    rw [truth]
    exact mem_followed.mpr (.inl rfl)
  | again ran truth repeated =>
    refine mem_followed.mpr (.inr ⟨_, _, ran, ?_⟩)
    rw [truth]
    exact mem_followed.mpr (.inr ⟨_, _, repeated, .head _⟩)

end Task

/-! ## Classes that are declared -/

/-- The classes that a task and those it begins declare are declared. -/
def Task.Covers (declared : Class → Prop) (fuel : Nat) (task : Task) (machine : Machine) : Prop :=
  ∀ left inner later value, Reaches fuel task machine left inner later →
    inner.Declares left later value → declared value

variable {declared : Class → Prop}

theorem Task.Covers.begins (covers : Covers declared (fuel + 1) task machine)
    (begins : Begins fuel task machine inner later) : Covers declared fuel inner later := by
  intro left last final value reaches declares
  exact covers left last final value (.through begins reaches) declares

/-- The classes that a program declares are declared. -/
def Program.Covers (declared : Class → Prop) (fuel : Nat) (program : Program)
    (machine : Machine) : Prop :=
  ∀ left task later value, Visits fuel program machine left task later →
    task.Declares left later value → declared value

theorem Program.Covers.first {stmts : Program}
    (covers : Covers declared fuel (stmt :: stmts) machine) :
    Task.Covers declared fuel (.execute stmt) machine := by
  intro left task later value reaches declares
  exact covers left task later value (.first reaches) declares

theorem Program.Covers.others {stmts : Program}
    (covers : Covers declared fuel (stmt :: stmts) machine)
    (ran : executeWith .recorded fuel stmt machine = .ok () later) :
    Covers declared fuel stmts later := by
  intro left task last value visits declares
  exact covers left task last value (.others ran visits) declares

/-! ## Programs -/

/-- The statements of a program in turn, each with a bound of its own. -/
def Run.executeProgram (access : Access) (fuel : Nat) : Program → Run Unit
  | [] => pure ()
  | statement :: statements => do
      executeWith access fuel statement
      executeProgram access fuel statements

namespace Machine

/-- A flush that does not fail leaves all as it is. -/
theorem flushThen_eq (flushes : machine.output.flushes = none) (outcome : Outcome) :
    machine.flushThen outcome = (outcome, machine) := by
  simp only [flushThen, Run.flush, Sink.flush, flushes]

/-- End a run as its last computation ended. -/
def conclude : EStateM.Result Signal Machine Unit → Outcome × Machine
  | .ok () machine => machine.flushThen .completed
  | .error (.fault fault token) machine =>
    machine.flushThen (.failed (.runtime (fault.report token)))
  | .error (.stream error) machine => (.failed (.stream error), machine)
  | .error (.returned _) machine => machine.flushThen .completed
  | .error .exhausted machine => (.exhausted, machine)

theorem interpretWith_eq_conclude (access : Access) (fuel : Nat)
    (prog : Program) (machine : Machine) :
    machine.interpretWith access fuel prog =
      conclude (Run.executeProgram access fuel prog machine) := by
  induction prog generalizing machine with
  | nil => rfl
  | cons stmt stmts ih =>
    rw [interpretWith, Run.executeProgram]
    simp only [Bind.bind, EStateM.bind]
    cases Run.executeWith access fuel stmt machine with
    | ok value later => exact ih later
    | error signal later => cases signal <;> rfl

end Machine

/-- A run leaves what its statements leave, but for the output. -/
theorem Machine.conclude_eq_final (result : EStateM.Result Signal Machine Unit) :
    ∃ output, (Machine.conclude result).2 = { final result with output := output } := by
  have flushed (machine : Machine) (outcome : Outcome) :
      ∃ output, (machine.flushThen outcome).2 = { machine with output := output } := by
    unfold flushThen Run.flush
    simp only
    cases machine.output.flush.2 <;> exact ⟨_, rfl⟩
  cases result with
  | ok value later => exact flushed later _
  | error signal later =>
    cases signal with
    | fault fault token | returned value => exact flushed later _
    | stream error | exhausted => exact ⟨_, rfl⟩

theorem Machine.store_conclude (result : EStateM.Result Signal Machine Unit) :
    (Machine.conclude result).2.store = (final result).store := by
  rcases conclude_eq_final result with ⟨output, same⟩
  rw [same]

theorem Session.eval_of_accepted {session : Session} {text : String}
    {prog : Program} {nextId : ExprId}
    (read : readProgram text session.nextId = (.ok prog, nextId))
    (clean : (analyse prog).errors = []) (fuel : Nat) :
    (session.eval fuel text).2 = ⟨(Machine.conclude (Run.executeProgram .recorded fuel prog
        (session.machine.recordDistances (analyse prog).distances))).2, nextId⟩ := by
  simp only [Session.eval, Session.evalWith, read, Machine.runProgramWith,
    Machine.analyse, clean, Machine.interpretWith_eq_conclude]

end Treewalk
