import Treewalk.Proofs.ClassOrigins
import Treewalk.Proofs.ReceiverScopes

/-!
# Methods and their receivers

Reading a method from an instance binds it: the closure read lies in a new
scope that holds the receiver, inside the scope in which the class that
declares the method was declared.  Nothing ever changes what such a scope
holds, so a method finds its receiver wherever its closure is stored, passed or
called.
-/

namespace Treewalk

open Scoping Run

/-! ## Bound methods -/

/-- A closure is a method bound to a receiver. -/
structure Closure.BoundTo (closure : Closure) (store : Store)
    (method : Closure) (receiver : Value) : Prop where
  declaration : closure.declaration = method.declaration
  isInitializer : closure.isInitializer = method.isInitializer
  receiver : store.getLocal? closure.scope "this" = some receiver
  around : store.parent? closure.scope = some method.scope

variable {machine later : Machine} {closure method : Closure} {args : List Value}
  {texts : List String} {origin : Class} {fuel identity : Nat} {session : Session}
  {task inner : Task} {receiver : Value} {property : Token} {store : Store}

/-- A bound method stays bound. -/
theorem Closure.BoundTo.preserve {later : Store} (bound : closure.BoundTo store method receiver)
    (preserves : store.Preserves later) : closure.BoundTo later method receiver := by
  have existing : closure.scope < store.size :=
    Store.lt_size_of_getLocal? bound.receiver
  constructor
  · exact bound.declaration
  · exact bound.isInitializer
  · rw [preserves.receiver _ existing]
    exact bound.receiver
  · rw [preserves.around _ existing]
    exact bound.around

theorem Run.bindReceiver_boundTo (bound : bindReceiver method receiver machine = .ok closure later)
    : closure.BoundTo later.store method receiver := by
  cases bound
  constructor
  · rfl
  · rfl
  · rw [Store.getLocal?_push, if_pos rfl, Bindings.get?_set, if_pos rfl]
  · rw [Store.parent?_push, if_pos rfl]

/-- Reading a method binds it to the instance. -/
theorem Run.readProperty_method (unset : field? identity property.lexeme machine = .ok none machine)
    (found : origin.findMethod? property.lexeme = some method) :
    ∃ function closure later, readProperty (.object identity origin) property machine =
        .ok (.function function closure) later ∧
      closure.BoundTo later.store method (.object identity origin) := by
  cases bound : bindReceiver method (.object identity origin) machine with
  | error signal later => cases bound
  | ok closure later =>
    have held := bindReceiver_boundTo bound
    refine ⟨later.nextIdentity, closure,
      { later with nextIdentity := later.nextIdentity + 1 }, ?_, held⟩
    rw [readProperty, bind_of_ok unset]
    simp only [found]
    rw [bind_of_ok bound]
    rfl

/-! ## Where methods are declared -/

namespace Session

/--
A method that instances of a class have was declared by a class declaration
that has been executed in the scope the method closes over.
-/
def Declares (fuel : Nat) (texts : List String) (session : Session)
    (origin : Class) (method : Closure) : Prop :=
  ∃ left name superclass methods machine later, Visits fuel texts session left
      (.execute (.classDecl name superclass methods)) machine ∧
    executeWith .recorded left (.classDecl name superclass methods) machine = .ok () later ∧
    ⟨name.lexeme, closeMethods machine.current methods⟩ ∈ origin.layers ∧
    method.declaration ∈ methods ∧ method.scope = machine.current ∧
    method.isInitializer = (method.name == Class.initializerName)

theorem Lineage.exists_declaration {value : Class} (lineage : Lineage fuel texts session value)
    {layer : ClassLayer} (mem : layer ∈ value.layers) :
    ∃ left name superclass methods machine later, Visits fuel texts session left
        (.execute (.classDecl name superclass methods)) machine ∧
      executeWith .recorded left (.classDecl name superclass methods) machine = .ok () later ∧
      layer = ⟨name.lexeme, closeMethods machine.current methods⟩ := by
  induction lineage with
  | root visits =>
    cases List.mem_singleton.mp mem
    exact ⟨_, _, _, _, _, _, visits, rfl, rfl⟩
  | @heir left name superclass methods _ machine _ visits ran _ ih =>
    have executed : ∃ last, executeWith .recorded (left + 1)
        (.classDecl name (some superclass) methods) machine = .ok () last := by
      rw [executeWith, bind_of_ok ran]
      exact ⟨_, rfl⟩
    rcases executed with ⟨last, executed⟩
    rcases List.mem_cons.mp mem with rfl | mem
    · exact ⟨_, _, _, _, _, last, visits, executed, rfl⟩
    · exact ih mem

theorem declares_of_findMethod? {clock : Nat → Float} {output : Sink} {name : String}
    (made : Declared fuel texts (start clock output) origin)
    (found : origin.findMethod? name = some method) :
    Declares fuel texts (start clock output) origin method ∧ method.name = name := by
  rcases List.exists_of_findSome?_eq_some found with ⟨layer, mem, found⟩
  rcases (lineage_of_declared made).exists_declaration mem with
    ⟨left, declared, superclass, methods, machine, later, visits, ran, rfl⟩
  rcases List.lookup_eq_some_iff.mp found with ⟨before, after, split, _⟩
  have listed : (name, method) ∈ closeMethods machine.current methods := by
    rw [← List.mem_reverse, split]
    simp
  rcases List.mem_map.mp listed with ⟨decl, inside, same⟩
  cases same
  exact ⟨⟨left, declared, superclass, methods, machine, later, visits,
    ran, mem, inside, rfl, rfl⟩, rfl⟩

end Session

/-! ## The receiver in force -/

/-- The scope in which the code of a task looks for names. -/
def Task.scope (machine : Machine) : Task → ScopeId
  | .apply closure _ => closure.scope
  | _ => machine.current

/-- The tasks of a task that belong to no call it makes. -/
inductive Task.Inside : Nat → Task → Machine → Nat → Task → Machine → Prop where
  | here {fuel : Nat} {task : Task} {machine : Machine} :
      Inside fuel task machine fuel task machine
  | through {fuel left : Nat} {task inner last : Task} {machine later final : Machine} :
      Begins fuel task machine inner later →
      (∀ closure arguments, inner ≠ .apply closure arguments) →
      Inside fuel inner later left last final → Inside (fuel + 1) task machine left last final

theorem Task.scope_of_not_apply (machine : Machine)
    (notCall : ∀ closure args, task ≠ .apply closure args) :
    task.scope machine = machine.current := by
  cases task with
  | apply closure args => exact absurd rfl (notCall closure args)
  | _ => rfl

theorem Task.Begins.not_invoke (begins : Begins fuel task machine inner later)
    (notCall : ∀ closure args, inner ≠ .apply closure args) (callee : Callee) (args : List Value) :
    task ≠ .invoke callee args := by
  rintro rfl
  cases begins with
  | closure | initializer _ _ => exact notCall _ _ rfl

/-- The receiver that is found from a new scope which binds none. -/
theorem Store.Nested.get?_push {bindings : Bindings} {parent : ScopeId} (nested : store.Nested)
    (unbound : bindings.get? "this" = none) (existing : parent < store.size) :
    (store.push ⟨bindings, some parent⟩).get? store.size "this" = store.get? parent "this" := by
  have nested' : (store.push ⟨bindings, some parent⟩).Nested :=
    nested.push existing
  have enclosed : (store.push ⟨bindings, some parent⟩).parent? store.size = some parent := by
    rw [parent?_push, if_pos rfl]
  have hidden : ¬ ((store.push ⟨bindings, some parent⟩).getLocal? store.size "this").isSome := by
    rw [getLocal?_push, if_pos rfl, unbound]
    exact Bool.false_ne_true
  rw [nested'.get?_of_unbound enclosed hidden,
    (preserves_push store _).get?_receiver nested nested' existing]

namespace Discipline

variable {ledger : Ledger} {globals : ScopeId}

theorem Hosts.argumentBindings {closure : Closure} {args : List Value}
    (hosts : (receiving ledger globals).Hosts machine (.apply closure args)) :
    (closure.argumentBindings args).get? "this" = none := by
  rcases hosts.fits with ⟨_, ⟨⟨ctx, _, proper, _⟩, _⟩, _, _⟩
  cases found : (closure.argumentBindings args).get? "this" with
  | none => rfl
  | some value =>
    rcases Closure.exists_of_argumentBindings found with ⟨parameter, mem, same, _⟩
    exact absurd same (proper.parameters parameter mem)

theorem Hosts.scope_lt (hosts : (receiving ledger globals).Hosts machine task)
    (code : ∀ callee args, task ≠ .invoke callee args) :
    task.scope machine < machine.store.size := by
  have existing {scope : ScopeId} {ctx : Context}
      (fits : machine.store.Fits globals scope ctx.scopes) : scope < machine.store.size :=
    Store.lt_size_of_ancestor? fits.outermost
  cases task with
  | evaluate value | evaluateAll values | execute stmt | executeAll stmts =>
    rcases hosts.fits with ⟨ctx, stands, _⟩
    exact existing stands
  | apply closure args =>
    rcases hosts.fits with ⟨_, ⟨⟨ctx, _, _, fits⟩, _⟩, _, _⟩
    exact existing fits
  | invoke callee args => exact absurd rfl (code callee args)

/-- The receiver in force changes only where a call is entered. -/
theorem Hosts.begins_receiver (hosts : (receiving ledger globals).Hosts machine task)
    (begins : Task.Begins fuel task machine inner later)
    (notCall : ∀ closure args, inner ≠ .apply closure args) :
    later.current < later.store.size ∧ later.store.get? later.current "this" =
        machine.store.get? (task.scope machine) "this" := by
  have existing := hosts.scope_lt (begins.not_invoke notCall)
  rcases (lawful_receiving ledger globals).begins begins (fun _ _ _ _ _ _ => trivial) hosts with
    ⟨inner_hosts, grows, _⟩
  have preserves : machine.store.Preserves later.store := grows
  have nested : machine.store.Nested := hosts.keeps.orderly
  have stays (same : later.current = task.scope machine) :
      later.current < later.store.size ∧ later.store.get? later.current "this" =
          machine.store.get? (task.scope machine) "this" := by
    rw [same]
    exact ⟨Nat.lt_of_lt_of_le existing preserves.size_le,
      preserves.get?_receiver nested inner_hosts.keeps.orderly existing⟩
  have enters {bindings : Bindings} (unbound : bindings.get? "this" = none) :
      machine.store.size < (machine.store.push ⟨bindings, some (task.scope machine)⟩).size ∧
        (machine.store.push ⟨bindings, some (task.scope machine)⟩).get? machine.store.size "this" =
          machine.store.get? (task.scope machine) "this" := by
    refine ⟨?_, nested.get?_push unbound existing⟩
    rw [Store.size_push]
    exact Nat.lt_succ_self _
  have restores := Access.framed_recorded.restores fuel
  have evaluated {value : Expr} {result : Value} {after : Machine}
      (ran : evaluateWith .recorded fuel value machine =
        .ok result after) : after.current = machine.current := by
    have frames := restores.evaluate value machine
    rw [ran] at frames
    exact frames.current
  cases begins with
  | firstPart _ | firstValue | operand _ | firstStatement => exact stays rfl
  | rightOperand ran | undecided ran _ | fieldValue ran | arguments ran | otherValues ran
  | yes ran _ | no ran _ | round ran _ => exact stays (evaluated ran)
  | @call callee closing args function values called _ middle _ ran listed _ =>
    have frames := restores.evaluateAll args middle
    rw [listed] at frames
    exact stays (frames.current.trans (evaluated ran))
  | closure => exact absurd rfl (notCall _ _)
  | initializer _ _ => exact absurd rfl (notCall _ _)
  | body entered =>
    cases entered
    exact enters hosts.argumentBindings
  | block entered =>
    cases entered
    exact enters rfl
  | @again cond body _ _ middle _ ran _ repeated =>
    have frames := restores.execute body middle
    rw [repeated] at frames
    exact stays (frames.current.trans (evaluated ran))
  | @otherStatements first _ _ _ ran =>
    have frames := restores.execute first machine
    rw [ran] at frames
    exact stays frames.current

/-- The receiver is read where a search outwards finds it. -/
theorem Hosts.evaluate_receiver {id : ExprId} {keyword : Token}
    (hosts : (receiving ledger globals).Hosts machine
      (.evaluate (.receiver id keyword))) (fuel : Nat) :
    ∃ receiver, machine.store.get? machine.current "this" = some receiver ∧
      evaluateWith .recorded (fuel + 1) (.receiver id keyword) machine =
        .ok receiver machine := by
  rcases hosts.fits with ⟨ctx, fits, ⟨⟨_, placed⟩, readable, spelled⟩, received⟩
  rw [spelled] at placed readable
  have fits : machine.store.Fits globals machine.current ctx.scopes := fits
  rcases Option.isSome_iff_exists.mp received with ⟨dist, nearest⟩
  rcases readable dist nearest with ⟨names, inside, declared⟩
  rcases fits.covers.ancestor inside with ⟨scope, reached, binds⟩
  rcases Option.isSome_iff_exists.mp (binds "this" declared) with
    ⟨receiver, bound⟩
  have distances : machine.distances = ledger.distances :=
    hosts.keeps.distances
  have target : machine.target? id keyword.lexeme = some scope := by
    simp only [Machine.target?, distances, placed, nearest, reached]
  have binder : machine.store.binder? machine.current "this" =
      some scope := by
    rw [fits.binder?_receiver hosts.keeps.orderly readable nearest, reached]
  refine ⟨receiver, ?_, ?_⟩
  · simp only [Store.get?, binder, bound]
  · show readVariable id keyword machine = _
    rw [readVariable_eq, target, readIn, spelled]
    simp [bound]

end Discipline

/-! ## Calls -/

namespace Run

variable {value : Value}

theorem finishCall_initializer {body : Run Unit} (initializes : closure.isInitializer = true)
    (ran : finishCall closure body machine = .ok value later) :
    value = closure.receiver later.store := by
  unfold finishCall at ran
  split at ran
  · cases ran
    exact if_pos initializes
  · cases ran
    exact if_pos initializes
  · cases ran

/-- Calls of initialisers yield the receiver, whatever their body returns. -/
theorem applyWith_initializer (initializes : closure.isInitializer = true)
    (ran : applyWith .recorded fuel closure args machine = .ok value later) :
    value = closure.receiver later.store := by
  cases fuel with
  | zero => cases ran
  | succ fuel => exact finishCall_initializer initializes ran

/-- Calls of classes yield the instance made for them. -/
theorem invokeWith_construct
    (ran : invokeWith .recorded fuel (.construct origin) args machine = .ok value later) :
    value = .object machine.fields.size origin := by
  cases fuel with
  | zero => cases ran
  | succ fuel =>
    cases found : origin.initializer? with
    | none =>
      simp only [invokeWith, found] at ran
      cases ran
      rfl
    | some method =>
      simp only [invokeWith, found] at ran
      rcases exists_of_bind ran with ⟨object, _, made, bound⟩
      rcases exists_of_bind bound with ⟨closure, _, _, called⟩
      rcases exists_of_bind called with ⟨_, _, _, ended⟩
      cases made
      cases ended
      rfl

end Run

/-! ## Sessions -/

namespace Session

/-- The receiver that is found from a scope, when a session has ended. -/
def receiverAt? (fuel : Nat) (texts : List String) (session : Session)
    (scope : ScopeId) : Option Value :=
  (session.evalAll fuel texts).2.machine.store.get? scope "this"

section

variable {clock : Nat → Float} {output : Sink} {left : Nat}

section

variable (visits : Visits fuel texts (start clock output) left task machine)

include visits

theorem Visits.hosts : ∃ ledger globals, (Discipline.receiving ledger globals).Hosts machine task :=
  (receiving_start clock output).visits visits

/-- While a task lasts, scopes that exist keep their receivers. -/
theorem Visits.preserves : machine.store.Preserves (task.after left machine).store := by
  rcases visits.hosts with ⟨ledger, globals, hosts⟩
  exact ((Discipline.lawful_receiving ledger globals).leads
    (fun _ _ _ _ _ _ => trivial) hosts).grows

/-- After a task, scopes that exist keep their receivers to the end. -/
theorem Visits.preserves_after :
    (task.after left machine).store.Preserves
      ((start clock output).evalAll fuel texts).2.machine.store :=
  (receiving_start clock output).visits_after visits

/-- What a visited machine finds for the receiver is found to the end. -/
theorem Visits.receiverAt?_eq {scope : ScopeId} (existing : scope < machine.store.size) :
    receiverAt? fuel texts (start clock output) scope = machine.store.get? scope "this" := by
  rcases visits.hosts with ⟨ledger, globals, keeps, _⟩
  have ended := ((receiving_start clock output).evalAll fuel texts).1
  exact (visits.preserves.trans visits.preserves_after).get?_receiver
    keeps.orderly ended.keeps.orderly existing

end

variable {rest : Nat}

theorem receiverAt?_of_boundTo (bound : closure.BoundTo store method receiver)
    (preserves : store.Preserves (session.evalAll fuel texts).2.machine.store) :
    receiverAt? fuel texts session closure.scope = some receiver := by
  have held := (bound.preserve preserves).receiver
  rw [receiverAt?, Store.get?_of_bound (by rw [held]; rfl), held]

/-- All code of a call finds the same receiver. -/
theorem Visits.inside {rest : Nat} {inner : Task} {later : Machine}
    (visits : Visits fuel texts (start clock output) left task machine)
    (inside : Task.Inside left task machine rest inner later) :
    receiverAt? fuel texts (start clock output) (inner.scope later) =
      receiverAt? fuel texts (start clock output) (task.scope machine) := by
  induction inside with
  | here => rfl
  | @through _ _ task inner _ machine later _ begins notCall _ ih =>
    rcases visits.hosts with ⟨ledger, globals, hosts⟩
    have begun := visits.begins begins
    rcases hosts.begins_receiver begins notCall with ⟨existing, same⟩
    rw [ih begun, Task.scope_of_not_apply _ notCall, begun.receiverAt?_eq existing, same,
      visits.receiverAt?_eq (hosts.scope_lt (begins.not_invoke notCall))]

/-- The value of an initialiser is the receiver it is bound to. -/
theorem Visits.initializer {closure : Closure} {args : List Value} {value : Value} {later : Machine}
    (visits : Visits fuel texts (start clock output) left (.apply closure args) machine)
    (initializes : closure.isInitializer = true)
    (ran : applyWith .recorded left closure args machine = .ok value later) :
    machine.store.getLocal? closure.scope "this" = some value := by
  rcases visits.hosts with ⟨ledger, globals, keeps, _, ⟨_, bound⟩, _, _⟩
  rcases Option.isSome_iff_exists.mp (bound initializes) with ⟨receiver, held⟩
  have preserves := visits.preserves
  rw [Task.after, ran] at preserves
  have kept : later.store.getLocal? closure.scope "this" = some receiver := by
    rw [← held]
    exact preserves.receiver _ (Store.lt_size_of_getLocal? held)
  rw [applyWith_initializer initializes ran, Closure.receiver, kept, held]
  rfl

/-- Methods that an instance has are those of class declarations. -/
theorem Visits.declares {value : Expr} {name : String}
    (visits : Visits fuel texts (start clock output) left (.evaluate value) machine)
    (ran : evaluateWith .recorded left value machine = .ok (.object identity origin) later)
    (found : origin.findMethod? name = some method) :
    Declares fuel texts (start clock output) origin method ∧ method.name = name := by
  rcases ends_of_visits visits with ⟨site, ends⟩
  exact declares_of_findMethod? (ends.of_ok ran).2.2.1 found

theorem Visits.method_read {object : Expr}
    (visits : Visits fuel texts (start clock output) (rest + 1)
      (.evaluate (.get object property)) machine)
    (owner : evaluateWith .recorded rest object machine = .ok (.object identity origin) later)
    (unset : field? identity property.lexeme later = .ok none later)
    (found : origin.findMethod? property.lexeme = some method) :
    ∃ function closure last, evaluateWith .recorded (rest + 1) (.get object property) machine =
        .ok (.function function closure) last ∧
      closure.BoundTo last.store method (.object identity origin) ∧
      receiverAt? fuel texts (start clock output) closure.scope = some (.object identity origin) ∧
      Declares fuel texts (start clock output) origin method := by
  have ran : evaluateWith .recorded (rest + 1) (.get object property)
      machine = readProperty (.object identity origin) property later := by
    rw [evaluateWith, bind_of_ok owner]
  rcases readProperty_method unset found with ⟨function, closure, last, read, bound⟩
  rw [read] at ran
  have preserves := visits.preserves_after
  rw [Task.after, ran] at preserves
  exact ⟨function, closure, last, ran, bound, receiverAt?_of_boundTo bound preserves,
    ((visits.begins (.firstPart rfl)).declares owner found).1⟩

/-- The initialiser that a construction begins is bound to the instance. -/
theorem Visits.initializer_begun (visits : Visits fuel texts (start clock output) (rest + 1)
      (.invoke (.construct origin) args) machine)
    (begins : Task.Begins rest (.invoke (.construct origin) args) machine inner later) :
    ∃ method closure, origin.initializer? = some method ∧ inner = .apply closure args ∧
      closure.BoundTo later.store method (.object machine.fields.size origin) ∧
      receiverAt? fuel texts (start clock output) closure.scope =
        some (.object machine.fields.size origin) ∧
      Declares fuel texts (start clock output) origin method := by
  have begun := visits.begins begins
  cases begins with
  | @initializer _ method closure _ _ _ found bound =>
    have held : closure.BoundTo later.store method (.object machine.fields.size origin) :=
      bindReceiver_boundTo bound
    rcases (hosts_of_visits visits).fits with ⟨_, ⟨made, _⟩, _, _⟩
    exact ⟨method, closure, found, rfl, held, receiverAt?_of_boundTo held
        (begun.preserves.trans begun.preserves_after), (declares_of_findMethod? made found).1⟩

theorem Visits.receiver_read {id : ExprId} {keyword : Token}
    (visits : Visits fuel texts (start clock output) (rest + 1)
      (.evaluate (.receiver id keyword)) machine) :
    ∃ receiver, receiverAt? fuel texts (start clock output) machine.current = some receiver ∧
      evaluateWith .recorded (rest + 1) (.receiver id keyword) machine =
        .ok receiver machine := by
  rcases visits.hosts with ⟨ledger, globals, hosts⟩
  rcases hosts.evaluate_receiver rest with ⟨receiver, found, ran⟩
  have existing : machine.current < machine.store.size :=
    hosts.scope_lt nofun
  refine ⟨receiver, ?_, ran⟩
  rw [visits.receiverAt?_eq existing]
  exact found

theorem Visits.function_declared {decl : FunctionDecl}
    (visits : Visits fuel texts (start clock output) (rest + 1)
      (.execute (.funDecl decl)) machine) :
    ∃ function closure later, executeWith .recorded (rest + 1) (.funDecl decl) machine =
        .ok () later ∧ later.store.getLocal? machine.current decl.name.lexeme =
        some (.function function closure) ∧ closure.declaration = decl ∧
      receiverAt? fuel texts (start clock output) closure.scope =
        receiverAt? fuel texts (start clock output) machine.current := by
  rcases visits.hosts with ⟨ledger, globals, hosts⟩
  have existing : machine.current < machine.store.size :=
    hosts.scope_lt nofun
  refine ⟨machine.nextIdentity, ⟨decl, machine.current, false⟩, _, rfl, ?_, rfl, rfl⟩
  rw [Store.getLocal?_define, if_pos ⟨rfl, rfl, existing⟩]

/-- Calling the initialiser of an instance yields the instance. -/
theorem Visits.initializer_call {object : Expr} {closing : Token} {args : List Expr} {value : Value}
    {last : Machine} (visits : Visits fuel texts (start clock output) (rest + 2)
      (.evaluate (.call (.get object property) closing args)) machine)
    (named : property.lexeme = Class.initializerName)
    (owner : evaluateWith .recorded rest object machine = .ok (.object identity origin) later)
    (unset : field? identity property.lexeme later = .ok none later)
    (ran : evaluateWith .recorded (rest + 2)
      (.call (.get object property) closing args) machine =
        .ok value last) : value = .object identity origin := by
  rcases exists_of_bind ran with ⟨function, read, got, listing⟩
  rcases exists_of_bind listing with ⟨values, listed, lists, checking⟩
  rcases exists_of_bind checking with ⟨called, _, checks, invokes⟩
  have reading : Visits fuel texts (start clock output) (rest + 1)
      (.evaluate (.get object property)) machine :=
    visits.begins (.firstPart rfl)
  have gets : readProperty (.object identity origin) property later = .ok function read := by
    rw [← got, evaluateWith, bind_of_ok owner]
  cases found : origin.findMethod? property.lexeme with
  | none =>
    rw [readProperty, bind_of_ok unset] at gets
    simp only [found] at gets
    cases gets
  | some method =>
    rcases readProperty_method unset found with ⟨identity', closure, read', same, bound⟩
    rw [same] at gets
    cases gets
    have initializes : closure.isInitializer = true := by
      rcases (reading.begins (.firstPart rfl)).declares owner found with
        ⟨⟨_, _, _, _, _, _, _, _, _, _, _, initializer⟩, name⟩
      rw [bound.isInitializer, initializer, name, named]
      rfl
    cases check : checkCall (.function identity' closure) values.length with
    | error fault =>
      rw [check] at checks
      cases checks
    | ok callee =>
      have applied : callee = .closure closure := by
        simp only [checkCall, Value.callee?] at check
        split at check
        · cases check
          rfl
        · cases check
      rw [check, applied] at checks
      rw [applied] at check
      cases checks
      have calls := (visits.begins (.call got lists check)).begins .closure
      have held := calls.initializer initializes invokes
      have preserves := (visits.begins (.arguments got)).preserves
      rw [Task.after, lists] at preserves
      have kept := (bound.preserve preserves).receiver
      rw [Machine.final] at kept
      rw [kept] at held
      exact (Option.some.inj held).symm

/-- An instance that is made for a call is none that is there already. -/
theorem Visits.fresh {other : Class} {held : Value}
    (visits : Visits fuel texts (start clock output) left
      (.invoke (.construct origin) args) machine) (present : machine.Holds held ∨ held ∈ args) :
    held ≠ .object machine.fields.size other := by
  rcases hosts_of_visits visits with ⟨keeps, _, _, arguments_sound, _⟩
  have sound : (machine.origins (Declared fuel texts (start clock output))).Sound machine held := by
    rcases present with holds | mem
    · exact keeps.held holds
    · exact arguments_sound held mem
  rintro rfl
  exact absurd (sound.1 trivial) (Nat.lt_irrefl _)

end

/-- What holds of receivers while a task of a session is carried out. -/
structure KeepsReceivers (fuel : Nat) (texts : List String)
    (session : Session) (left : Nat) (task : Task) (machine : Machine) :
    Prop where
  /-- Scopes keep their receivers, and the scopes around them, to the end. -/
  unchanged :
    machine.store.Preserves (task.after left machine).store ∧
      (task.after left machine).store.Preserves (session.evalAll fuel texts).2.machine.store
  /-- A property that is a method is read as a closure bound to its instance. -/
  method : ∀ rest object property identity origin later method,
    left = rest + 1 → task = .evaluate (.get object property) →
    evaluateWith .recorded rest object machine = .ok (.object identity origin) later →
    field? identity property.lexeme later = .ok none later →
    origin.findMethod? property.lexeme = some method → ∃ function closure last,
        evaluateWith .recorded left (.get object property) machine =
          .ok (.function function closure) last ∧
        closure.BoundTo last.store method (.object identity origin) ∧
        receiverAt? fuel texts session closure.scope = some (.object identity origin) ∧
        Declares fuel texts session origin method
  /-- The initialiser of a new instance is bound to it. -/
  initializer : ∀ rest origin arguments inner later,
    left = rest + 1 → task = .invoke (.construct origin) arguments →
    Task.Begins rest task machine inner later →
      ∃ method closure, origin.initializer? = some method ∧ inner = .apply closure arguments ∧
        closure.BoundTo later.store method (.object machine.fields.size origin) ∧
        receiverAt? fuel texts session closure.scope = some (.object machine.fields.size origin) ∧
        Declares fuel texts session origin method
  /-- The receiver of a place is the one of the scope that is current. -/
  receiver : ∀ rest id keyword, left = rest + 1 → task = .evaluate (.receiver id keyword) →
      ∃ receiver, receiverAt? fuel texts session machine.current = some receiver ∧
        evaluateWith .recorded left (.receiver id keyword) machine = .ok receiver machine
  /-- The body of a call has the receiver of the closure, and nothing else. -/
  inside : ∀ rest inner later, Task.Inside left task machine rest inner later →
      receiverAt? fuel texts session (inner.scope later) =
        receiverAt? fuel texts session (task.scope machine)
  /-- Functions declared in the body of a call have its receiver, too. -/
  nested : ∀ rest declaration, left = rest + 1 → task = .execute (.funDecl declaration) →
      ∃ function closure later, executeWith .recorded left (.funDecl declaration) machine =
          .ok () later ∧ later.store.getLocal? machine.current declaration.name.lexeme =
          some (.function function closure) ∧ closure.declaration = declaration ∧
        receiverAt? fuel texts session closure.scope =
          receiverAt? fuel texts session machine.current
  /-- Closures that initialise are bound, and yield what they are bound to. -/
  initialized : ∀ closure arguments value later,
    task = .apply closure arguments → closure.isInitializer = true →
    applyWith .recorded left closure arguments machine = .ok value later →
      machine.store.getLocal? closure.scope "this" = some value
  /-- Calling the initialiser of an instance yields the instance. -/
  call : ∀ rest object property closing arguments identity origin later value last,
    left = rest + 2 → task = .evaluate (.call (.get object property) closing arguments) →
    property.lexeme = Class.initializerName → evaluateWith .recorded rest object machine =
      .ok (.object identity origin) later →
    field? identity property.lexeme later = .ok none later → evaluateWith .recorded left
      (.call (.get object property) closing arguments) machine = .ok value last →
      value = .object identity origin
  /-- Calling a class yields a new instance of that class. -/
  construct : ∀ origin arguments value later, task = .invoke (.construct origin) arguments →
    invokeWith .recorded left (.construct origin) arguments machine = .ok value later →
      value = .object machine.fields.size origin ∧
        ∀ held other, machine.Holds held ∨ held ∈ arguments →
          held ≠ .object machine.fields.size other

end Session

/-- The expression that a text consists of, where it is accepted. -/
def Session.expression? (session : Session) (text : String) : Option Expr :=
  match readProgram text session.nextId with
  | (.ok [.expression value], _) =>
    if (analyse [.expression value]).errors = [] then some value else none
  | _ => none

theorem Session.visits_expression {text : String} {value : Expr} (fuel : Nat)
    (read : session.expression? text = some value) :
    Session.Visits (fuel + 1) [text] session fuel (.evaluate value)
      (session.machine.recordDistances (analyse [.expression value]).distances) := by
  unfold Session.expression? at read
  split at read
  · next value' nextId accepted =>
    rw [Option.ite_none_right_eq_some, Option.some.injEq] at read
    rcases read with ⟨clean, rfl⟩
    exact .first accepted clean (.first (.through (.operand (.head _)) .here))
  · cases read

/--
In every session, at every moment, methods are bound to their receivers and
keep them; initialisers yield the instance they are called on, and classes new
instances of themselves.
-/
theorem methods_keep_their_receivers (clock : Nat → Float) (output : Sink)
    (fuel : Nat) (texts : List String) (left : Nat) (task : Task) (machine : Machine)
    (visits : Session.Visits fuel texts (.start clock output) left task machine) :
    Session.KeepsReceivers fuel texts (.start clock output) left task machine where
  unchanged := ⟨visits.preserves, visits.preserves_after⟩
  method := by
    rintro rest object property identity origin later method rfl rfl owner unset found
    exact visits.method_read owner unset found
  initializer := by
    rintro rest origin arguments inner later rfl rfl begins
    exact visits.initializer_begun begins
  receiver := by
    rintro rest id keyword rfl rfl
    exact visits.receiver_read
  inside := fun _ _ _ inside => visits.inside inside
  nested := by
    rintro rest declaration rfl rfl
    exact visits.function_declared
  initialized := by
    rintro closure arguments value later rfl initializes ran
    exact visits.initializer initializes ran
  call := by
    rintro rest object property closing arguments identity origin later value
      last rfl rfl named owner unset ran
    exact visits.initializer_call named owner unset ran
  construct := by
    rintro origin arguments value later rfl ran
    exact ⟨invokeWith_construct ran, fun held other present => visits.fresh present⟩

theorem inherited_method_keeps_receiver :
    let declarations :=
      "class A \x7b m() \x7b return this; \x7d \x7d " ++ "class B < A \x7b\x7d var m = B().m;"
    let texts := [declarations, "m();"]
    ∃ call machine, Session.Visits 30 texts (.start (fun _ => 0) .unlimited) 29
        (.evaluate call) machine ∧
      Session.KeepsReceivers 30 texts (.start (fun _ => 0) .unlimited) 29
        (.evaluate call) machine := by
  intro declarations texts
  have accepted : (Session.expression? ((Session.start (fun _ => 0)
      .unlimited).eval 30 declarations).2 "m();").isSome = true := by
    decide +kernel
  rcases Option.isSome_iff_exists.mp accepted with ⟨call, read⟩
  have visits := Session.visits_expression 29 read
  exact ⟨call, _, .others visits, methods_keep_their_receivers _ _ _ _ _ _ _ (.others visits)⟩

/-- Whether a call of an initialiser on an object, by its name, gives nil. -/
def Expr.initializesNothing (machine : Machine) (rest : Nat) : Expr → Bool
  | .call (.get object property) closing arguments =>
    property.lexeme == Class.initializerName &&
      match evaluateWith .recorded rest object machine, evaluateWith .recorded (rest + 2)
          (.call (.get object property) closing arguments) machine with
      | .ok (.object _ _) _, .ok .nil _ => true
      | _, _ => false
  | _ => false

/-- A field under the name of the initialiser is called in its place. -/
theorem field_replaces_initializer :
    ¬ ∀ (clock : Nat → Float) (output : Sink) (fuel : Nat)
      (texts : List String) (rest : Nat) (object : Expr)
      (property closing : Token) (arguments : List Expr) (identity : Nat)
      (origin : Class) (value : Value) (machine later last : Machine),
      Session.Visits fuel texts (.start clock output) (rest + 2)
        (.evaluate (.call (.get object property) closing arguments)) machine →
      property.lexeme = Class.initializerName →
      Run.evaluateWith .recorded rest object machine = .ok (.object identity origin) later →
      Run.evaluateWith .recorded (rest + 2)
        (.call (.get object property) closing arguments) machine = .ok value last →
        value = .object identity origin := by
  intro claimed
  let session := ((Session.start (fun _ => 0) .unlimited).eval 30
    "class A \x7b\x7d fun f() \x7b\x7d var x = A(); x.init = f;").2
  have shown : (session.expression? "x.init();").any (fun call =>
      call.initializesNothing (session.machine.recordDistances
        (analyse [.expression call]).distances) 27) = true := by
    decide +kernel
  rw [Option.any_eq_true] at shown
  rcases shown with ⟨call, read, nothing⟩
  have visits := Session.visits_expression 29 read
  unfold Expr.initializesNothing at nothing
  split at nothing
  · next object property closing arguments =>
    rw [Bool.and_eq_true, beq_iff_eq] at nothing
    rcases nothing with ⟨named, ended⟩
    split at ended
    · next identity origin later last owner called =>
      cases claimed _ _ _ _ _ _ _ _ _ _ _ _ _ _ _ (.others visits) named owner called
    · cases ended
  · cases nothing

end Treewalk
