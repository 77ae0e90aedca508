import Treewalk.Proofs.Levels
import Treewalk.Proofs.ReceiverUse
import Treewalk.Proofs.ScopeSafety

/-!
# Scopes that bind receivers

That a method finds the receiver it was bound to rests on two facts about all
scopes: one that exists never comes to bind another receiver or to lie in
another scope, and a scope binds a receiver only if the text around its code
has one.  Both make a discipline for programs that neither declare the receiver
nor assign to it.
-/

namespace Treewalk

open Scoping

/-! ## Growth that keeps receivers -/

namespace Store

variable {store later : Store} {scope : ScopeId}

/-- Scopes that exist keep their receivers and the scopes around them. -/
structure Preserves (store later : Store) : Prop
    extends store.Grows later where
  size_le : store.size ≤ later.size
  receiver : ∀ scope < store.size, later.getLocal? scope "this" = store.getLocal? scope "this"
  around : ∀ scope < store.size, later.parent? scope = store.parent? scope

theorem Preserves.refl (store : Store) : store.Preserves store :=
  ⟨.refl store, Nat.le_refl _, fun _ _ => rfl, fun _ _ => rfl⟩

theorem Preserves.trans {last : Store} (preserves : store.Preserves later)
    (further : later.Preserves last) : store.Preserves last where
  toGrows := preserves.toGrows.trans further.toGrows
  size_le := Nat.le_trans preserves.size_le further.size_le
  receiver scope existing :=
    (further.receiver scope (Nat.lt_of_lt_of_le existing preserves.size_le)).trans
        (preserves.receiver scope existing)
  around scope existing :=
    (further.around scope (Nat.lt_of_lt_of_le existing preserves.size_le)).trans
        (preserves.around scope existing)

theorem Preserves.retains (preserves : store.Preserves later) : store.Retains later where
  toGrows := preserves.toGrows
  size_le := preserves.size_le
  receiver scope existing bound := by
    rw [← preserves.receiver scope existing]
    exact bound

theorem preserves_push (store : Store) (scope : Scope) : store.Preserves (store.push scope) where
  toGrows := grows_push store scope
  size_le := by
    rw [size_push]
    exact Nat.le_succ _
  receiver other existing := by
    rw [getLocal?_push, if_neg (Nat.ne_of_lt existing)]
  around other existing := by
    rw [parent?_push, if_neg (Nat.ne_of_lt existing)]

/-- Binding any other name preserves receivers. -/
theorem preserves_define (store : Store) (scope : ScopeId) {name : String}
    (named : name ≠ "this") (value : Value) : store.Preserves (store.define scope name value) where
  toGrows := grows_define store scope name value
  size_le := Nat.le_of_eq (size_define store scope name value).symm
  receiver other _ := by
    rw [getLocal?_define, if_neg (fun same => named same.2.1)]
  around other _ := parent?_define store scope other name value

/-- A search for the receiver goes on finding it. -/
theorem Preserves.get?_receiver (preserves : store.Preserves later)
    (nested : store.Nested) (nested' : later.Nested) (existing : scope < store.size) :
    later.get? scope "this" = store.get? scope "this" := by
  induction scope using Nat.strongRecOn with
  | ind scope ih =>
    have here := preserves.receiver scope existing
    have around := preserves.around scope existing
    by_cases bound : (store.getLocal? scope "this").isSome
    · rw [get?_of_bound bound, get?_of_bound (by rw [here]; exact bound), here]
    · have unbound : ¬ (later.getLocal? scope "this").isSome := by
        rw [here]
        exact bound
      cases enclosed : store.parent? scope with
      | none =>
        rw [enclosed] at around
        rw [get?, get?, binder?_of_outermost enclosed,
          binder?_of_outermost around, if_neg bound, if_neg unbound]
      | some parent =>
        rw [enclosed] at around
        have older := nested scope parent enclosed
        rw [nested.get?_of_unbound enclosed bound, nested'.get?_of_unbound around unbound,
          ih parent older (Nat.lt_trans older existing)]

end Store

variable {ctx : Context} {ledger : Ledger} {globals : ScopeId} {machine : Machine} {value : Expr}
  {statement : Stmt}

/-! ## Contexts with a receiver -/

namespace Scoping.Context

/-- The text around a place has a receiver. -/
def received (context : Context) : Bool :=
  (context.distance? "this").isSome

theorem received_mark {name : String} (named : name ≠ "this") (readable : Bool) :
    (ctx.mark name readable).received = ctx.received := by
  rw [received, ctx.distance?_mark_of_ne named.symm, received]

theorem received_enter (ctx : Context) : (ctx.enter []).received = ctx.received := by
  simp [received, distance?, enter, List.findIdx?_cons]

theorem received_enter_receiver (ctx : Context) :
    (ctx.enter [("this", true)]).received = true := by
  simp [received, distance?, enter, List.findIdx?_cons]

theorem received_inBody {params : List Token}
    (named : ∀ parameter ∈ params, parameter.lexeme ≠ "this") :
    (ctx.inBody params).received = ctx.received := by
  have defined (inner : Context) :
      (params.foldl Context.define inner).received = inner.received := by
    induction params generalizing inner with
    | nil => rfl
    | cons parameter params ih =>
      rw [List.foldl_cons, ih (fun other mem => named other (.tail _ mem))]
      exact received_mark (named parameter (.head _)) true
  rw [inBody, defined]
  exact ctx.received_enter

end Scoping.Context

/-! ## Parts of proper code -/

section

variable {received : Bool}

theorem Expr.AllProper.of_mem {values : List Expr} (proper : AllProper received values)
    (mem : value ∈ values) : value.Proper received := by
  induction values with
  | nil => cases mem
  | cons first others ih =>
    rcases List.mem_cons.mp mem with rfl | mem
    · exact proper.1
    · exact ih proper.2 mem

theorem Expr.Proper.part {part : Expr} (proper : value.Proper received) (mem : part ∈ value.parts) :
    part.Proper received := by
  cases value with
  | call callee closing args =>
    rcases List.mem_cons.mp mem with rfl | mem
    · exact proper.1
    · exact proper.2.of_mem mem
  | _ => grind [parts, Proper]

theorem FunctionDecl.AllProper.of_mem {decls : List FunctionDecl}
    (proper : AllProper received decls) {decl : FunctionDecl}
    (mem : decl ∈ decls) : decl.Proper received := by
  induction decls with
  | nil => cases mem
  | cons first others ih =>
    rcases List.mem_cons.mp mem with rfl | mem
    · exact proper.1
    · exact ih proper.2 mem

theorem FunctionDecl.Proper.parameters {decl : FunctionDecl} (proper : decl.Proper received) :
    ∀ parameter ∈ decl.parameters, parameter.lexeme ≠ "this" := by
  cases decl
  exact proper.1

theorem FunctionDecl.Proper.body {decl : FunctionDecl} (proper : decl.Proper received) :
    Stmt.AllProper received decl.body := by
  cases decl
  exact proper.2

theorem Stmt.Proper.operand (proper : statement.Proper received) (mem : value ∈ statement.operands)
    : value.Proper received := by
  cases statement with
  | ifElse cond yes no => cases no <;> grind [operands, Proper]
  | classDecl name superclass methods =>
    rcases Option.mem_toList.mp mem with rfl
    exact proper.2.1 received
  | _ => grind [operands, Proper, Expr.OptionProper]

theorem Stmt.Proper.branch (proper : statement.Proper received)
    {branch : Stmt} (mem : branch ∈ statement.branches) :
    branch.Proper received := by
  cases statement with
  | ifElse cond yes no => cases no <;> grind [branches, Proper]
  | _ => grind [branches, Proper]

theorem Stmt.Proper.declared (proper : statement.Proper received)
    {name : Token} (mem : name ∈ statement.declared) : name.lexeme ≠ "this" := by
  cases statement with
  | varDecl declared initial | funDecl decl | classDecl declared superclass methods =>
    rw [List.mem_singleton.mp mem]
    exact proper.1
  | _ => cases mem

end

/-! ## The discipline -/

namespace Scoping.Context

/-- Statements change nothing about the receiver. -/
theorem received_after {received : Bool} (resolved : statement.Resolved ledger ctx)
    (proper : statement.Proper received) : (ctx.after statement).received = ctx.received := by
  cases names : statement.declared with
  | nil => rw [resolved.after_eq names]
  | cons name others =>
    have mem : name ∈ statement.declared := by
      rw [names]
      exact .head _
    rw [ctx.after_of_declared mem]
    exact received_mark (proper.declared mem) true

end Scoping.Context

namespace Discipline

/--
Code is resolved and proper in contexts that the scopes it runs in fit, and
closures that initialise instances are bound to one.
-/
def receiving (ledger : Ledger) (globals : ScopeId) : Discipline where
  Site := Context
  after := Context.after
  distances := ledger.distances
  globals := globals
  Orderly := Store.Nested
  Grows := Store.Preserves
  Stands store scope context := store.Fits globals scope context.scopes
  Callable store closure :=
    (∃ context : Context, closure.declaration.Resolved ledger context ∧
      closure.declaration.Proper context.received ∧
      store.Fits globals closure.scope context.scopes) ∧
    (closure.isInitializer = true → (store.getLocal? closure.scope "this").isSome)
  Bindable store closure :=
    ∃ context : Context, closure.declaration.Resolved ledger (context.enter [("this", true)]) ∧
      closure.declaration.Proper true ∧ store.Fits globals closure.scope context.scopes
  Admits context value :=
    value.Resolved ledger context ∧ value.Proper context.received
  Allows context statement :=
    statement.Resolved ledger context ∧ statement.Proper context.received
  AllowsAll context statements :=
    Stmt.AllResolved ledger context statements ∧ Stmt.AllProper context.received statements
  Returns context := context.inFunction = true
  Excuses _ _ := True
  grows_refl := .refl
  grows_trans := .trans
  stands_grow preserves fits := fits.grow preserves.retains
  callable_grow := by
    rintro store later closure preserves ⟨⟨context, resolved, proper, fits⟩, initializes⟩
    refine ⟨⟨context, resolved, proper, fits.grow preserves.retains⟩, ?_⟩
    intro initializer
    exact preserves.bound _ _ (initializes initializer)
  bindable_grow := by
    rintro store later closure preserves ⟨context, resolved, proper, fits⟩
    exact ⟨context, resolved, proper, fits.grow preserves.retains⟩

section

variable {scope : ScopeId} {store : Store}

/-- The scope of a block binds nothing at first. -/
theorem receiving_block (nested : store.Nested) (fits : store.Fits globals scope ctx.scopes) :
    (receiving ledger globals).Enters store ⟨.empty, some scope⟩ (ctx.enter []) where
  orderly := nested.push (Store.lt_size_of_ancestor? fits.outermost)
  grows := Store.preserves_push _ _
  stands := fits.push (fits.covers.push nofun) nofun

theorem receiving_call (nested : store.Nested) {closure : Closure} {args : List Value}
    (named : ∀ parameter ∈ closure.declaration.parameters, parameter.lexeme ≠ "this")
    (fits : store.Fits globals closure.scope ctx.scopes)
    (given : args.length = closure.arity) :
    (receiving ledger globals).Enters store ⟨closure.argumentBindings args, some closure.scope⟩
      (ctx.inBody closure.declaration.parameters) where
  orderly := nested.push (Store.lt_size_of_ancestor? fits.outermost)
  grows := Store.preserves_push _ _
  stands := by
    have covers := fits.covers.call given
    rcases ctx.inBody_scopes closure.declaration.parameters with ⟨declared, scopes, _⟩
    show Store.Fits globals _ _ (ctx.inBody _).scopes
    rw [scopes] at covers ⊢
    apply fits.push covers
    intro isSome
    rcases Option.isSome_iff_exists.mp isSome with ⟨value, found⟩
    rcases Closure.exists_of_argumentBindings found with ⟨parameter, mem, same, _⟩
    exact absurd same (named parameter mem)

/-- The scope of a receiver binds nothing else. -/
theorem receiving_receiver (nested : store.Nested)
    (fits : store.Fits globals scope ctx.scopes) (receiver : Value) :
    (receiving ledger globals).Enters store ⟨Bindings.empty.set "this" receiver, some scope⟩
      (ctx.enter [("this", true)]) where
  orderly := nested.push (Store.lt_size_of_ancestor? fits.outermost)
  grows := Store.preserves_push _ _
  stands := fits.push (fits.covers.receiver receiver) fun _ => rfl

end

/-- That receivers stay in place is lawful. -/
theorem lawful_receiving (ledger : Ledger) (globals : ScopeId) :
    (receiving ledger globals).Lawful .recorded where
  part allowed mem := ⟨allowed.1.part mem, allowed.2.part mem⟩
  read _ _ _ := rfl
  receiver _ _ _ := rfl
  write _ _ _ _ := rfl
  raises _ _ := trivial
  inherits _ := trivial
  rebind := by
    intro ctx machine id target value allowed keeps _ scope _ assigned
    have nested : machine.store.Nested := keeps.orderly
    exact ⟨nested.define, Store.preserves_define _ _ allowed.2.1 _⟩
  operand := by
    intro (ctx : Context) statement value allowed mem
    have proper := allowed.2.operand mem
    rcases allowed.1.operand mem with here | ⟨name, rfl⟩
    · exact ⟨ctx, ⟨here, proper⟩, fun _ _ fits => fits⟩
    · refine ⟨ctx.declare name, ⟨allowed.1, ?_⟩, fun _ _ fits => fits.declare name⟩
      rw [Context.declare, Context.received_mark allowed.2.1]
      exact proper
  branch := by
    intro ctx statement branch allowed mem
    rcases allowed.1.branch mem with ⟨resolved, same⟩
    exact ⟨⟨resolved, allowed.2.branch mem⟩, same⟩
  unchanged allowed undeclared := allowed.1.after_eq undeclared
  returns allowed := allowed.1.1
  first allowed := ⟨allowed.1.1, allowed.2.1⟩
  rest := by
    intro (ctx : Context) statement stmts allowed
    refine ⟨allowed.1.2, ?_⟩
    show Stmt.AllProper (ctx.after statement).received stmts
    rw [Context.received_after allowed.1.1 allowed.2.1]
    exact allowed.2.2
  returns_after := by
    intro (ctx : Context) statement returns
    exact (ctx.after_inFunction statement).symm.trans returns
  define := by
    intro (ctx : Context) statement name store scope allowed mem nested fits value
    have named := allowed.2.declared mem
    have ordered : store.Nested := nested
    refine ⟨⟨ordered.define, Store.preserves_define _ _ named _⟩, ?_⟩
    show Store.Fits globals _ scope (ctx.after statement).scopes
    rw [ctx.after_of_declared mem]
    exact Store.Fits.define fits named value
  block := by
    intro (ctx : Context) body allowed
    refine ⟨ctx.enter [], ⟨allowed.1, ?_⟩, id,
      fun store scope nested fits => receiving_block nested fits⟩
    rw [ctx.received_enter]
    exact allowed.2
  function := by
    intro (ctx : Context) decl store scope allowed fits
    refine ⟨⟨ctx.define decl.name, allowed.1, ?_, fits⟩, nofun⟩
    rw [Context.define, Context.received_mark allowed.2.1]
    exact allowed.2.2
  method := by
    intro (ctx : Context) name superclass methods store scope allowed fits decl mem _
    exact ⟨ctx.named name, allowed.1.2.2.of_mem mem, allowed.2.2.2.of_mem mem, fits⟩
  call := by
    rintro store closure args ⟨⟨ctx, resolved, proper, fits⟩, _⟩ nested given
    refine ⟨ctx.inBody closure.declaration.parameters, ⟨resolved.body, ?_⟩,
      receiving_call nested proper.parameters fits given⟩
    rw [Context.received_inBody proper.parameters]
    exact proper.body
  bind := by
    rintro store method ⟨ctx, resolved, proper, fits⟩ nested receiver
    have enters : (receiving ledger globals).Enters store
        ⟨Bindings.empty.set "this" receiver, some method.scope⟩ (ctx.enter [("this", true)]) :=
      receiving_receiver nested fits receiver
    refine ⟨enters.toSteps, ⟨ctx.enter [("this", true)], resolved, ?_, enters.stands⟩, ?_⟩
    · rw [Context.received_enter_receiver]
      exact proper
    · intro _
      rw [Store.getLocal?_push, if_pos rfl]
      rfl

/-- What is recorded for new ids does not touch the values of a machine. -/
theorem Keeps.extend {ledger later : Ledger} {globals : ScopeId}
    {machine : Machine} (keeps : (receiving ledger globals).Keeps machine)
    (extended : ledger.Extends later) :
    (receiving later globals).Keeps { machine with distances := later.distances } := by
  have sound {value : Value} (sound : (receiving ledger globals).Sound machine value) :
      (receiving later globals).Sound machine value := by
    have bindable (origin : Class)
        (sound : (receiving ledger globals).SoundClass machine.store origin) :
        (receiving later globals).SoundClass machine.store origin := by
      refine ⟨trivial, fun layer mem entry method => ?_⟩
      rcases sound.2 layer mem entry method with ⟨ctx, resolved, proper, fits⟩
      exact ⟨ctx, FunctionDecl.Resolved.extend extended _ _ resolved, proper, fits⟩
    cases value with
    | function identity closure =>
      rcases sound with ⟨⟨ctx, resolved, proper, fits⟩, initializes⟩
      exact ⟨⟨ctx, FunctionDecl.Resolved.extend extended _ _ resolved, proper, fits⟩, initializes⟩
    | classValue value => exact bindable value sound
    | object identity origin => exact ⟨False.elim, bindable origin sound.2⟩
    | _ => trivial
  constructor
  · rfl
  · exact keeps.globals
  · exact keeps.orderly
  · intro scope name value bound
    exact sound (keeps.bound scope name value bound)
  · intro bindings mem name value bound
    exact sound (keeps.fields bindings mem name value bound)

end Discipline

/-! ## Sessions -/

namespace Session

/-- The machine of a session keeps the discipline of receivers. -/
structure Receiving (session : Session) : Prop where
  keeps : (Discipline.receiving session.ledger session.machine.globals).Keeps session.machine
  stands : session.machine.store.Fits session.machine.globals
    session.machine.current Context.outermost.scopes
  fresh : session.ledger.Fresh

/-- A session starts without receivers. -/
theorem receiving_start (clock : Nat → Float) (output : Sink) : (start clock output).Receiving := by
  refine ⟨⟨rfl, rfl, ?_, ?_, ?_⟩, Store.fits_initial clock output, Ledger.fresh_empty⟩
  · intro scope parent enclosed
    exact nomatch (Machine.parent?_initial clock output scope).symm.trans enclosed
  · intro scope name value found
    rw [(Machine.bound_initial clock output found).2]
    trivial
  · intro bindings mem
    cases Array.mem_toList_iff.mpr mem

theorem receiving_of_ledger (keeps : (Discipline.receiving ledger globals).Keeps machine)
    (stands : machine.store.Fits globals machine.current Context.outermost.scopes)
    (fresh : ledger.Fresh) : Session.Receiving ⟨machine, ledger.bound⟩ := by
  have same : Session.ledger ⟨machine, ledger.bound⟩ = ledger := by
    rw [Session.ledger, show machine.distances = ledger.distances from
      keeps.distances]
  have outermost : machine.globals = globals := keeps.globals
  constructor
  · rw [same, outermost]
    exact keeps
  · rw [outermost]
    exact stands
  · rw [same]
    exact fresh

section

variable {session : Session} {text : String} {prog : Program} {nextId : ExprId}

section

variable (receiving : session.Receiving)
  (read : readProgram text session.nextId = (.ok prog, nextId))

include receiving read

theorem Receiving.analyse :
    (⟨session.machine.recordDistances (analyse prog).distances, nextId⟩ : Session).Receiving := by
  have increasing := readProgram_firstId_le text session.nextId
  rw [read] at increasing
  have resolve := resolve_of_readProgram read
  have extended : session.ledger.Extends (session.ledger.recordAll
      (Scoping.analyse prog).distances nextId) :=
    Ledger.extends_recordAll increasing resolve
  exact ⟨receiving.keeps.extend extended, receiving.stands,
    receiving.fresh.recordAll increasing resolve⟩

/-- The statements of an accepted text may be executed. -/
theorem Receiving.allows (clean : (Scoping.analyse prog).errors = []) (globals : ScopeId) :
    (Discipline.receiving (session.ledger.recordAll
      (Scoping.analyse prog).distances nextId) globals).AllowsAll Context.outermost prog :=
  ⟨receiving.fresh.resolved (resolve_of_readProgram read) clean, proper_of_readProgram read clean⟩

/-- The statements of an accepted text keep the discipline. -/
theorem Receiving.executeProgram (clean : (Scoping.analyse prog).errors = []) (fuel : Nat) :
    let machine := session.machine.recordDistances (Scoping.analyse prog).distances
    (Discipline.receiving (session.ledger.recordAll (Scoping.analyse prog).distances nextId)
        session.machine.globals).Leads machine
      (Machine.final (Run.executeProgram .recorded fuel prog machine)) := by
  have analysed := receiving.analyse read
  have lawful := Discipline.lawful_receiving (session.ledger.recordAll
    (Scoping.analyse prog).distances nextId) session.machine.globals
  exact (lawful.executeProgram fuel (fun _ _ _ _ _ _ => trivial) analysed.keeps analysed.stands
    (receiving.allows read clean _)).ends.leads

end

/-- Every text keeps receivers in place. -/
theorem Receiving.eval (receiving : session.Receiving) (fuel : Nat) (text : String) :
    (session.eval fuel text).2.Receiving ∧ session.machine.store.Preserves
        (session.eval fuel text).2.machine.store := by
  cases read : readProgram text session.nextId with
  | mk result nextId =>
    cases result with
    | error failure =>
      have increasing := readProgram_firstId_le text session.nextId
      rw [read] at increasing
      have extended : session.ledger.Extends ⟨session.machine.distances, nextId⟩ :=
        ⟨increasing, fun _ _ => rfl⟩
      simp only [Session.eval, evalWith, read]
      exact ⟨⟨receiving.keeps.extend extended, receiving.stands, fun id above =>
          receiving.fresh id (Nat.le_trans increasing above)⟩, .refl _⟩
    | ok prog =>
      have analysed := receiving.analyse read
      cases clean : (Scoping.analyse prog).errors with
      | cons error errors =>
        simp only [Session.eval, evalWith, read, Machine.runProgramWith, Machine.analyse, clean]
        exact ⟨analysed, .refl _⟩
      | nil =>
        have leads :=
          (receiving.executeProgram read clean fuel).conclude
        rw [eval_of_accepted read clean fuel]
        exact ⟨receiving_of_ledger leads.keeps
          (leads.stands analysed.stands) analysed.fresh, leads.grows⟩

theorem Receiving.evalAll (receiving : session.Receiving) (fuel : Nat) (texts : List String) :
    (session.evalAll fuel texts).2.Receiving ∧ session.machine.store.Preserves
        (session.evalAll fuel texts).2.machine.store := by
  induction texts generalizing session with
  | nil => exact ⟨receiving, .refl _⟩
  | cons text texts ih =>
    rcases receiving.eval fuel text with ⟨later, preserves⟩
    rcases ih later with ⟨last, further⟩
    exact ⟨last, preserves.trans further⟩

variable {fuel left : Nat} {texts : List String} {task : Task}

theorem Receiving.visits (visits : Session.Visits fuel texts session left task machine)
    (receiving : session.Receiving) :
    ∃ ledger globals, (Discipline.receiving ledger globals).Hosts machine task := by
  induction visits with
  | first read clean visited =>
    have analysed := receiving.analyse read
    exact ⟨_, _, ((Discipline.lawful_receiving _ _).visits visited (fun _ _ _ _ _ _ => trivial)
      analysed.keeps analysed.stands (receiving.allows read clean _)).1⟩
  | others _ ih => exact ih (receiving.eval fuel _).1

/-- The scopes that a task leaves keep their receivers to the end. -/
theorem Receiving.visits_after (visits : Session.Visits fuel texts session left task machine)
    (receiving : session.Receiving) :
    (task.after left machine).store.Preserves (session.evalAll fuel texts).2.machine.store := by
  induction visits with
  | @first text texts session prog nextId left task machine read clean visited =>
    have analysed := receiving.analyse read
    have preserves := ((Discipline.lawful_receiving _ _).visits visited
      (fun _ _ _ _ _ _ => trivial) analysed.keeps analysed.stands (receiving.allows read clean _)).2
    have rest := ((receiving.eval fuel text).1.evalAll fuel texts).2
    apply Store.Preserves.trans _ rest
    rw [eval_of_accepted read clean fuel, Machine.store_conclude]
    exact preserves
  | others _ ih => exact ih (receiving.eval fuel _).1

end

end Session

end Treewalk
