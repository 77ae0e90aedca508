import Treewalk.Proofs.Discipline

/-!
# The timeline of a session

The timeline of a session lists its tasks in the order in which they end.  What
a task does itself, after the last task it began, is done between two
neighbours of the timeline.  Of that, only assigning to a field changes a
field; all else is quiet: it keeps the fields and takes numbers away at most.
-/

namespace Treewalk

open Run Plan Machine

variable {later machine : Machine} {task inner : Task} {value : Expr} {fuel left : Nat}
  {session : Session}

/-! ## Quiet steps -/

namespace Machine

/-- The field of an instance under a name. -/
def fieldOf? (machine : Machine) (identity : Nat) (name : String) :
    Option Value :=
  machine.fields[identity]?.bind fun bindings => bindings.get? name

/-- A later machine with the same fields. -/
structure Quiet (machine later : Machine) : Prop where
  fields : ∀ identity name, later.fieldOf? identity name = machine.fieldOf? identity name
  identity : machine.nextIdentity ≤ later.nextIdentity

theorem Quiet.refl (machine : Machine) : machine.Quiet machine :=
  ⟨fun _ _ => rfl, Nat.le_refl _⟩

theorem Quiet.trans {machine later last : Machine}
    (quiet : machine.Quiet later) (further : later.Quiet last) : machine.Quiet last where
  fields identity name :=
    (further.fields identity name).trans (quiet.fields identity name)
  identity := Nat.le_trans quiet.identity further.identity

theorem quiet_of_eq (fields : later.fields = machine.fields)
    (identity : later.nextIdentity = machine.nextIdentity) : machine.Quiet later where
  fields other name := by rw [fieldOf?, fieldOf?, fields]
  identity := Nat.le_of_eq identity.symm

theorem quiet_pushFields (machine : Machine) :
    machine.Quiet { machine with fields := machine.fields.push .empty } where
  fields identity name := by
    rw [fieldOf?, fieldOf?, Array.getElem?_push]
    split
    · next newest =>
      rw [newest, Array.getElem?_eq_none (Nat.le_refl _)]
      rfl
    · rfl
  identity := Nat.le_refl _

end Machine

namespace Run

variable {α β : Type}

/-- The computation is quiet on every machine. -/
def KeepsFields (computation : Run α) : Prop :=
  ∀ machine : Machine, machine.Quiet (final (computation machine))

theorem keepsFields_pure (value : α) : KeepsFields (pure value : Run α) :=
  fun machine => .refl machine

theorem keepsFields_raise (fault : Fault) (token : Token) :
    KeepsFields (raise fault token : Run α) :=
  fun machine => .refl machine

theorem keepsFields_throw (signal : Signal) : KeepsFields (throw signal : Run α) :=
  fun machine => .refl machine

/-- What is quiet twice in a row is quiet. -/
theorem KeepsFields.bind {comp : Run α} {next : α → Run β}
    (keeps : comp.KeepsFields) (further : ∀ value, (next value).KeepsFields) :
    KeepsFields (comp >>= next) := by
  intro machine
  have first := keeps machine
  simp only [Bind.bind, EStateM.bind]
  cases ran : comp machine with
  | ok value later =>
    rw [ran] at first
    exact first.trans (further value later)
  | error signal later =>
    rw [ran] at first
    exact first

theorem keepsFields_orRaise (token : Token) (result : Except Fault α) :
    KeepsFields (orRaise token result) := by
  cases result with
  | ok value => exact keepsFields_pure value
  | error fault => exact keepsFields_raise fault token

theorem keepsFields_readVariable (id : ExprId) (name : Token) :
    KeepsFields (readVariable id name) := by
  intro machine
  rw [readVariable_eq]
  unfold readIn
  split <;> exact .refl machine

theorem keepsFields_writeVariable (id : ExprId) (name : Token) (value : Value) :
    KeepsFields (writeVariable id name value) := by
  intro machine
  rw [writeVariable_eq]
  unfold writeIn
  split
  · exact quiet_of_eq rfl rfl
  · exact .refl machine

theorem keepsFields_newScope (parent : ScopeId) (bindings : Bindings) :
    KeepsFields (newScope parent bindings) :=
  fun _ => quiet_of_eq rfl rfl

theorem keepsFields_defineHere (name : String) (value : Value) :
    KeepsFields (defineHere name value) :=
  fun _ => quiet_of_eq rfl rfl

theorem keepsFields_newFunction (closure : Closure) : KeepsFields (newFunction closure) :=
  KeepsFields.bind
    (show KeepsFields freshIdentity from fun _ => ⟨fun _ _ => rfl, Nat.le_succ _⟩)
    fun _ => keepsFields_pure _

theorem keepsFields_newObject (origin : Class) : KeepsFields (newObject origin) :=
  fun machine => machine.quiet_pushFields

theorem keepsFields_bindReceiver (method : Closure) (receiver : Value) :
    KeepsFields (bindReceiver method receiver) :=
  (keepsFields_newScope _ _).bind fun _ => keepsFields_pure _

theorem keepsFields_readProperty (object : Value) (property : Token) :
    KeepsFields (readProperty object property) := by
  cases object with
  | object identity origin =>
    apply KeepsFields.bind (show KeepsFields (field? identity property.lexeme) from .refl)
    intro field
    cases field with
    | some value => exact keepsFields_pure value
    | none =>
      simp only
      cases origin.findMethod? property.lexeme with
      | none => exact keepsFields_raise _ property
      | some method =>
        exact (keepsFields_bindReceiver method _).bind fun closure =>
          keepsFields_newFunction closure
  | _ => exact keepsFields_raise _ property

theorem keepsFields_printLine (text : String) : KeepsFields (printLine text) := by
  intro machine
  unfold printLine write
  simp only
  split <;> exact quiet_of_eq rfl rfl

/-- Entering and leaving a scope touches no field. -/
theorem quiet_within (scope : ScopeId) (comp : Run α) (machine : Machine) :
    (final (comp { machine with current := scope })).Quiet
      (final (within scope comp machine)) := by
  unfold within
  cases comp { machine with current := scope } <;> exact quiet_of_eq rfl rfl

end Run

/-! ## From step to step -/

namespace Task

/-- Steps lead to a machine: each begins as the one before it has ended. -/
def Leads (fuel : Nat) : Machine → List (Task × Machine) → Machine → Prop
  | machine, [], last => machine.Quiet last
  | machine, (task, start) :: steps, last =>
    machine.Quiet start ∧ Leads fuel (task.after fuel start) steps last

/-- The machine that the last one of some steps leaves. -/
def brink (fuel : Nat) : Machine → List (Task × Machine) → Machine
  | machine, [] => machine
  | _, (task, start) :: steps => brink fuel (task.after fuel start) steps

variable {steps : List (Task × Machine)} {last : Machine}

theorem Leads.after_quiet (leads : Leads fuel later steps last) (quiet : machine.Quiet later) :
    Leads fuel machine steps last := by
  cases steps with
  | nil => exact quiet.trans leads
  | cons step steps => exact ⟨quiet.trans leads.1, leads.2⟩

theorem Leads.brink (leads : Leads fuel machine steps last) :
    Leads fuel machine steps (brink fuel machine steps) ∧
      (Task.brink fuel machine steps).Quiet last := by
  induction steps generalizing machine with
  | nil => exact ⟨Machine.Quiet.refl machine, leads⟩
  | cons step steps ih =>
    rcases ih leads.2 with ⟨inner, quiet⟩
    exact ⟨⟨leads.1, inner⟩, quiet⟩

theorem Leads.append {others : List (Task × Machine)} (leads : Leads fuel machine steps later)
    (further : Leads fuel later others last) : Leads fuel machine (steps ++ others) last := by
  induction steps generalizing machine with
  | nil => exact further.after_quiet leads
  | cons step steps ih => exact ⟨leads.1, ih leads.2⟩

theorem leads_self (task : Task) (machine : Machine) :
    Leads fuel machine [(task, machine)] (task.after fuel machine) :=
  ⟨.refl machine, .refl _⟩

/-- The task assigns to a field. -/
def AssignsField : Task → Prop
  | evaluate (.set _ _ _) => True
  | _ => False

end Task

section

variable {α : Type}

/-- What a step does itself is quiet. -/
def Step.Quiet : Step α → Prop
  | own computation => (computation .recorded).KeepsFields
  | _ => True

/-- What a plan does itself is quiet. -/
def Plan.Quiet : Plan α → Prop
  | done _ => True
  | step first next => first.Quiet ∧ ∀ value, (next value).Quiet

theorem Step.Quiet.leads {step : Step α} (quiet : step.Quiet) :
    Task.Leads fuel machine (step.begun machine).toList
      (final (step.run .recorded fuel machine)) := by
  cases step with
  | own computation => exact quiet machine
  | start task =>
    have leads : Task.Leads fuel machine [(task, machine)] _ := Task.leads_self task machine
    rw [Task.after_eq_final] at leads
    exact leads
  | enter scope body => exact ⟨quiet_of_eq rfl rfl, quiet_within scope _ machine⟩
  | call closure scope =>
    rw [run, final_finishCall]
    exact ⟨quiet_of_eq rfl rfl, quiet_within scope _ machine⟩

/-- A quiet plan leads from task to task. -/
theorem Plan.Quiet.leads {plan : Plan α} (quiet : plan.Quiet) :
    Task.Leads fuel machine (plan.steps fuel machine)
      (final (plan.run .recorded fuel machine)) := by
  induction plan generalizing machine with
  | done value => exact Machine.Quiet.refl machine
  | step first next ih =>
    apply quiet.1.leads.append
    rw [run]
    cases ran : first.run .recorded fuel machine with
    | ok value later =>
      rw [bind_of_ok ran]
      exact ih value (quiet.2 value)
    | error signal later =>
      simp only [Bind.bind, EStateM.bind, ran]
      exact Machine.Quiet.refl later

theorem Plan.Quiet.ite {cond : Prop} [Decidable cond] {yes no : Plan α} (yes_quiet : yes.Quiet)
    (no_quiet : no.Quiet) : (if cond then yes else no).Quiet := by
  split
  · exact yes_quiet
  · exact no_quiet

theorem Plan.quiet_own {comp : Run α} (keeps : comp.KeepsFields) : (last comp).Quiet :=
  ⟨keeps, fun _ => trivial⟩

theorem Plan.quiet_start (task : Task) : (start task .done).Quiet :=
  ⟨trivial, fun _ => trivial⟩

end

theorem Expr.quiet_plan (other : ¬ Task.AssignsField (.evaluate value)) : value.plan.Quiet := by
  cases value with
  | literal value => trivial
  | grouping inner => exact quiet_start _
  | unary op operand => exact ⟨trivial, fun _ => quiet_own (keepsFields_orRaise op _)⟩
  | binary left op right =>
    exact ⟨trivial, fun _ => ⟨trivial, fun _ => quiet_own (keepsFields_orRaise op _)⟩⟩
  | logical left op right => exact ⟨trivial, fun _ => .ite trivial (quiet_start _)⟩
  | name id token | receiver id token => exact ⟨keepsFields_readVariable id token, fun _ => trivial⟩
  | assign id target value =>
    exact ⟨trivial, fun _ => ⟨keepsFields_writeVariable id target _, fun _ => trivial⟩⟩
  | call callee closing args =>
    exact ⟨trivial, fun _ => ⟨trivial, fun _ => ⟨keepsFields_orRaise closing _,
      fun _ => quiet_start _⟩⟩⟩
  | get object property =>
    exact ⟨trivial, fun value => quiet_own (keepsFields_readProperty value property)⟩
  | set object property value => exact absurd trivial other

theorem Stmt.quiet_plan (stmt : Stmt) : stmt.plan.Quiet := by
  cases stmt with
  | expression value => exact ⟨trivial, fun _ => trivial⟩
  | print value => exact ⟨trivial, fun _ => quiet_own (keepsFields_printLine _)⟩
  | varDecl name initial =>
    cases initial with
    | none => exact quiet_own (keepsFields_defineHere _ _)
    | some initial => exact ⟨trivial, fun _ => quiet_own (keepsFields_defineHere _ _)⟩
  | block body =>
    exact ⟨Machine.Quiet.refl, fun _ => ⟨keepsFields_newScope _ _, fun _ => ⟨trivial,
      fun _ => trivial⟩⟩⟩
  | ifElse cond yes no =>
    cases no with
    | none => exact ⟨trivial, fun _ => .ite (quiet_start _) trivial⟩
    | some no => exact ⟨trivial, fun _ => .ite (quiet_start _) (quiet_start _)⟩
  | whileLoop cond body =>
    exact ⟨trivial, fun _ => .ite ⟨trivial, fun _ => quiet_start _⟩ trivial⟩
  | funDecl decl =>
    exact ⟨Machine.Quiet.refl, fun _ => ⟨keepsFields_newFunction _,
      fun _ => quiet_own (keepsFields_defineHere _ _)⟩⟩
  | returnValue keyword value =>
    cases value with
    | none => exact quiet_own (keepsFields_throw _)
    | some value => exact ⟨trivial, fun _ => quiet_own (keepsFields_throw _)⟩
  | classDecl name superclass methods =>
    have declared (inherited : List ClassLayer) : Plan.Quiet (.own (newClass name.lexeme inherited
        methods) fun value => .last (defineHere name.lexeme value)) :=
      ⟨fun _ => ⟨fun _ _ => rfl, Nat.le_succ _⟩, fun _ => quiet_own (keepsFields_defineHere _ _)⟩
    cases superclass with
    | none => exact declared []
    | some superclass =>
      refine ⟨trivial, fun parent => ⟨?_, declared⟩⟩
      cases parent with
      | classValue parent => exact keepsFields_pure _
      | _ => exact keepsFields_raise _ _

namespace Task

/-- Only assigning to a field is not quiet. -/
theorem quiet_plan (other : ¬ task.AssignsField) : task.plan.Quiet := by
  cases task with
  | evaluate value => exact value.quiet_plan other
  | evaluateAll values =>
    cases values with
    | nil => trivial
    | cons first others => exact ⟨trivial, fun _ => ⟨trivial, fun _ => trivial⟩⟩
  | invoke callee args =>
    cases callee with
    | closure closure => exact quiet_start _
    | native provided =>
      cases provided
      exact quiet_own fun _ => quiet_of_eq rfl rfl
    | construct origin =>
      refine ⟨keepsFields_newObject origin, fun object => ?_⟩
      cases origin.initializer? with
      | none => trivial
      | some method =>
        exact ⟨keepsFields_bindReceiver method object, fun _ => ⟨trivial, fun _ => trivial⟩⟩
  | apply closure args => exact ⟨keepsFields_newScope _ _, fun _ => ⟨trivial, fun _ => trivial⟩⟩
  | execute stmt => exact stmt.quiet_plan
  | executeAll stmts =>
    cases stmts with
    | nil => trivial
    | cons first others => exact ⟨trivial, fun _ => quiet_start _⟩

/-- What a task does itself is quiet, unless it assigns to a field. -/
theorem leads_steps (other : ¬ task.AssignsField) :
    Leads fuel machine (steps fuel machine task) (task.after (fuel + 1) machine) := by
  rw [← steps_plan, after_eq_final, ← run_plan]
  exact (quiet_plan other).leads

/-- What a task does before it assigns to a field is quiet. -/
theorem leads_set (object value : Expr) (property : Token) :
    Leads fuel machine (stepsOfExpr fuel machine (.set object property value))
      (brink fuel machine (stepsOfExpr fuel machine (.set object property value))) := by
  refine ⟨.refl machine, ?_⟩
  rw [Task.after, stepsOfExpr, followed, brink, Task.after]
  cases evaluateWith .recorded fuel object machine with
  | error signal later => exact Machine.Quiet.refl later
  | ok owner later =>
    cases owner with
    | object identity origin => exact leads_self _ later
    | _ => exact Machine.Quiet.refl later

/-- The steps of a task begin as those before them have ended. -/
theorem leads_brink (task : Task) : Leads fuel machine (steps fuel machine task)
      (brink fuel machine (steps fuel machine task)) := by
  by_cases assigns : task.AssignsField
  · cases task with
    | evaluate value =>
      cases value with
      | set object property value => exact leads_set object value property
      | _ => cases assigns
    | _ => cases assigns
  · exact (leads_steps assigns).brink.1

end Task

/-! ## Moments -/

/-- A task at its end, with the machine that it began on. -/
structure Moment where
  left : Nat
  task : Task
  machine : Machine

namespace Moment

/-- The machine that a task leaves. -/
def last (moment : Moment) : Machine :=
  moment.task.after moment.left moment.machine

/-- The machine that the last one of the tasks begun has left. -/
def brink (moment : Moment) : Machine :=
  match moment.left with
  | 0 => moment.machine
  | fuel + 1 =>
    Task.brink fuel moment.machine (moment.task.steps fuel moment.machine)

end Moment

/-- A task and those that it begins, as they end. -/
def Task.timeline : Nat → Task → Machine → List Moment
  | 0, task, machine => [⟨0, task, machine⟩]
  | fuel + 1, task, machine =>
    ((task.steps fuel machine).flatMap fun step =>
      Task.timeline fuel step.1 step.2) ++ [⟨fuel + 1, task, machine⟩]

/-- The tasks of a program, as they end. -/
def Program.timeline (fuel : Nat) : Program → Machine → List Moment
  | [], _ => []
  | statement :: statements, machine =>
    Task.timeline fuel (.execute statement) machine ++
      match executeWith .recorded fuel statement machine with
      | .ok () later => Program.timeline fuel statements later
      | .error _ _ => []

namespace Session

/-- The tasks of one text, as they end. -/
def moments (fuel : Nat) (text : String) (session : Session) : List Moment :=
  match readProgram text session.nextId with
  | (.ok program, _) =>
    if (Scoping.analyse program).errors = [] then
      Program.timeline fuel program
        (session.machine.recordDistances (Scoping.analyse program).distances)
    else
      []
  | (.error _, _) => []

/-- The tasks of a session, as they end. -/
def timeline (fuel : Nat) : List String → Session → List Moment
  | [], _ => []
  | text :: texts, session =>
    session.moments fuel text ++ timeline fuel texts (session.eval fuel text).2

end Session

/-! ### All tasks have their moments -/

/-- The timeline of a task holds the tasks it reaches. -/
theorem Task.mem_timeline_iff :
    ⟨left, inner, later⟩ ∈ Task.timeline fuel task machine ↔
      Reaches fuel task machine left inner later := by
  induction fuel generalizing task machine with
  | zero =>
    constructor
    · intro mem
      cases List.mem_singleton.mp mem
      exact .here
    · intro reaches
      cases reaches
      exact .head _
  | succ fuel ih =>
    rw [timeline, List.mem_append, List.mem_flatMap, List.mem_singleton]
    constructor
    · rintro (⟨⟨begun, start⟩, mem, inside⟩ | same)
      · exact .through (mem_steps_iff.mp mem) (ih.mp inside)
      · cases same
        exact .here
    · intro reaches
      cases reaches with
      | here => exact .inr rfl
      | through begins further => exact .inl ⟨_, mem_steps_iff.mpr begins, ih.mpr further⟩

theorem Program.mem_timeline_iff {fuel left : Nat} {prog : Program}
    {task : Task} {machine later : Machine} :
    ⟨left, task, later⟩ ∈ prog.timeline fuel machine ↔
      prog.Visits fuel machine left task later := by
  induction prog generalizing machine with
  | nil =>
    constructor
    · intro mem
      cases mem
    · intro visits
      cases visits
  | cons stmt stmts ih =>
    rw [timeline, List.mem_append, Task.mem_timeline_iff]
    constructor
    · rintro (reaches | mem)
      · exact .first reaches
      · cases ran : executeWith .recorded fuel stmt machine with
        | ok value next =>
          rw [ran] at mem
          exact .others ran (ih.mp mem)
        | error signal next =>
          rw [ran] at mem
          cases mem
    · intro visits
      cases visits with
      | first reaches => exact .inl reaches
      | others ran further =>
        rw [ran]
        exact .inr (ih.mpr further)

theorem Session.mem_moments_iff {text : String} :
    ⟨left, task, machine⟩ ∈ session.moments fuel text ↔ ∃ prog nextId,
        readProgram text session.nextId = (.ok prog, nextId) ∧
        (Scoping.analyse prog).errors = [] ∧
        prog.Visits fuel (session.machine.recordDistances
          (Scoping.analyse prog).distances) left task machine := by
  unfold moments
  split
  · next prog nextId read =>
    rw [read]
    split
    · next clean =>
      rw [Program.mem_timeline_iff]
      constructor
      · intro visits
        exact ⟨prog, nextId, rfl, clean, visits⟩
      · rintro ⟨_, _, ⟨⟩, _, visits⟩
        exact visits
    · next broken =>
      constructor
      · intro mem
        cases mem
      · rintro ⟨_, _, ⟨⟩, clean, _⟩
        exact absurd clean broken
  · next failure nextId read =>
    rw [read]
    constructor
    · intro mem
      cases mem
    · rintro ⟨_, _, ⟨⟩, _⟩

/-- The moments of a session are those of the tasks that it visits. -/
theorem Session.mem_timeline_iff {texts : List String} :
    ⟨left, task, machine⟩ ∈ session.timeline fuel texts ↔
      Visits fuel texts session left task machine := by
  induction texts generalizing session with
  | nil =>
    constructor
    · intro mem
      cases mem
    · intro visits
      cases visits
  | cons text texts ih =>
    rw [timeline, List.mem_append, mem_moments_iff, ih]
    constructor
    · rintro (⟨_, _, read, clean, visits⟩ | visits)
      · exact .first read clean visits
      · exact .others visits
    · intro visits
      cases visits with
      | first read clean visits => exact .inl ⟨_, _, read, clean, visits⟩
      | others visits => exact .inr visits

/-! ### From moment to moment -/

/-- Moments lead to a machine, with quiet between them. -/
def Recounted : Machine → List Moment → Machine → Prop
  | machine, [], last => machine.Quiet last
  | machine, moment :: moments, last =>
    machine.Quiet moment.brink ∧ Recounted moment.last moments last

namespace Recounted

variable {last : Machine} {moments others : List Moment}

theorem after_quiet (told : Recounted later moments last)
    (quiet : machine.Quiet later) : Recounted machine moments last := by
  cases moments with
  | nil => exact quiet.trans told
  | cons moment moments => exact ⟨quiet.trans told.1, told.2⟩

theorem append (told : Recounted machine moments later) (further : Recounted later others last) :
    Recounted machine (moments ++ others) last := by
  induction moments generalizing machine with
  | nil => exact further.after_quiet told
  | cons moment moments ih => exact ⟨told.1, ih told.2⟩

theorem then_quiet (told : Recounted machine moments later)
    (quiet : later.Quiet last) : Recounted machine moments last := by
  have quieted : Recounted later [] last := quiet
  have whole := told.append quieted
  rw [List.append_nil] at whole
  exact whole

/-- What came before a moment leads to what its task does itself. -/
theorem before {moment : Moment} (told : Recounted machine (moments ++ moment :: others) last) :
    Recounted machine moments moment.brink := by
  induction moments generalizing machine with
  | nil => exact told.1
  | cons first moments ih => exact ⟨told.1, ih told.2⟩

end Recounted

/-- The timeline tells all that happens to fields. -/
theorem Task.recounted_timeline (fuel : Nat) (task : Task) (machine : Machine) :
    Recounted machine (Task.timeline fuel task machine) (task.after fuel machine) := by
  induction fuel generalizing task machine with
  | zero => exact ⟨.refl machine, .refl _⟩
  | succ fuel ih =>
    have begun (steps : List (Task × Machine)) (start last : Machine)
        (leads : Leads fuel start steps last) :
        Recounted start (steps.flatMap fun step => Task.timeline fuel step.1 step.2) last := by
      induction steps generalizing start with
      | nil => exact leads
      | cons step steps further =>
        exact ((ih step.1 step.2).after_quiet leads.1).append (further _ leads.2)
    exact (begun _ machine _ (leads_brink task)).append ⟨.refl _, .refl _⟩

theorem Program.recounted_timeline (fuel : Nat) (prog : Program) (machine : Machine) :
    Recounted machine (prog.timeline fuel machine)
      (final (executeProgram .recorded fuel prog machine)) := by
  induction prog generalizing machine with
  | nil => exact .refl machine
  | cons stmt stmts ih =>
    have first := Task.recounted_timeline fuel (.execute stmt) machine
    rw [Task.after] at first
    rw [timeline, executeProgram]
    simp only [Bind.bind, EStateM.bind]
    cases ran : executeWith .recorded fuel stmt machine with
    | ok value later =>
      rw [ran] at first
      exact first.append (ih later)
    | error signal later =>
      rw [ran] at first
      rw [List.append_nil]
      exact first

namespace Session

theorem told_moments (fuel : Nat) (text : String) (session : Session) :
    Recounted session.machine (session.moments fuel text) (session.eval fuel text).2.machine := by
  unfold moments
  split
  · next prog nextId read =>
    have recorded : session.machine.Quiet (session.machine.recordDistances
        (Scoping.analyse prog).distances) :=
      quiet_of_eq rfl rfl
    split
    · next clean =>
      rw [eval_of_accepted read clean fuel]
      rcases conclude_eq_final (executeProgram .recorded fuel prog
        (session.machine.recordDistances (Scoping.analyse prog).distances)) with ⟨output, same⟩
      rw [same]
      exact ((Program.recounted_timeline fuel prog _).after_quiet
        recorded).then_quiet (quiet_of_eq rfl rfl)
    · next broken =>
      cases errors : (Scoping.analyse prog).errors with
      | nil => exact absurd errors broken
      | cons error errors' =>
        simp only [Session.eval, evalWith, read, runProgramWith, analyse, errors]
        exact recorded
  · next failure nextId read =>
    simp only [Session.eval, evalWith, read]
    exact Machine.Quiet.refl session.machine

/-- The timeline of a session leads from its start to its end. -/
theorem recounted_timeline (fuel : Nat) (texts : List String) (session : Session) :
    Recounted session.machine (session.timeline fuel texts)
      (session.evalAll fuel texts).2.machine := by
  induction texts generalizing session with
  | nil => exact Machine.Quiet.refl session.machine
  | cons text texts ih => exact (told_moments fuel text session).append (ih _)

end Session

end Treewalk
