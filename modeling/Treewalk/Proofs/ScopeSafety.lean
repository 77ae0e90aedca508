import Treewalk.Proofs.Coherence
import Treewalk.Session

/-!
# Recorded distances lead to the variables they stand for

The evaluator is parametric in how variables are reached.  So it is a statement
about runs that recorded distances lead to their variables: a guard that looks
before each access, and hands those that would fail to an arbitrary substitute,
makes no difference.  The invariant behind it is that machines stay coherent
and that the current scope covers the context of the statement at hand.
-/

namespace Treewalk

open Scoping

namespace Machine

/--
The scope at the recorded distance of an occurrence exists and binds the name.
Occurrences without a distance are not concerned.
-/
def binds (machine : Machine) (id : ExprId) (name : String) : Bool :=
  match machine.distances.find? id with
  | some distance =>
    match machine.store.ancestor? machine.current distance with
    | some scope => (machine.store.getLocal? scope name).isSome
    | none => false
  | none => true

/-- The scope at the recorded distance of an occurrence exists. -/
def reaches (machine : Machine) (id : ExprId) : Bool :=
  match machine.distances.find? id with
  | some distance =>
    (machine.store.ancestor? machine.current distance).isSome
  | none => true

end Machine

namespace Access

/--
Look before each access.  A read by a distance that does not lead to a scope
that binds the name, and a write by one that leads to no scope, are handed to
a substitute.
-/
def guarded (substitute : Access) : Access where
  read id name := fun machine =>
    if machine.binds id name.lexeme then
      Run.readVariable id name machine
    else
      substitute.read id name machine
  write id name value := fun machine =>
    if machine.reaches id then
      Run.writeVariable id name value machine
    else
      substitute.write id name value machine

end Access

/-! ## Access to variables -/

namespace Discipline

section

variable {ledger : Ledger} {globals : ScopeId} {machine : Machine}
  {ctx : Context} {id : ExprId} {name : Token}

section

variable (keeps : (covering ledger globals).Keeps machine)
  (covers : machine.store.Covers machine.current ctx.scopes)
  (places : ledger.Places ctx id name.lexeme)

include keeps covers places

/-- A name that is read where it is resolved is found. -/
theorem Keeps.binds (readable : ctx.Readable name.lexeme) :
    machine.binds id name.lexeme = true := by
  unfold Machine.binds
  rw [keeps.coherent.distances, places.2]
  cases nearest : ctx.distance? name.lexeme with
  | none => rfl
  | some dist =>
    rcases readable dist nearest with ⟨names, found, declared⟩
    rcases covers.ancestor found with ⟨ancestor, reached, binds⟩
    simp only [reached]
    exact binds name.lexeme declared

theorem Keeps.reaches : machine.reaches id = true := by
  unfold Machine.reaches
  rw [keeps.coherent.distances, places.2]
  cases nearest : ctx.distance? name.lexeme with
  | none => rfl
  | some dist =>
    rcases List.findIdx?_eq_some_iff_getElem.mp nearest with ⟨inside, _⟩
    rcases covers.ancestor (List.getElem?_eq_getElem inside) with ⟨ancestor, reached, _⟩
    simp [reached]

end

end

/-- Where code is resolved, the guard never finds anything. -/
theorem lawful_covering (ledger : Ledger) (globals : ScopeId) (substitute : Access) :
    (covering ledger globals).Lawful (.guarded substitute) where
  part resolved mem := resolved.part mem
  read := by
    intro ctx machine id name resolved keeps covers
    have bound := keeps.binds covers resolved.1 resolved.2
    simp only [Access.guarded, bound, if_true]
  receiver := by
    intro ctx machine id keyword resolved keeps covers
    have bound := keeps.binds covers resolved.1 resolved.2.1
    simp only [Access.guarded, bound, if_true]
  write := by
    intro ctx machine id target value resolved keeps covers assigned
    have reached := keeps.reaches covers resolved.2
    simp only [Access.guarded, reached, if_true]
  raises _ _ := trivial
  inherits _ := trivial
  rebind _ _ _ _ _ _ := ⟨trivial, Store.grows_define _ _ _ _⟩
  operand := by
    intro ctx stmt value resolved mem
    rcases resolved.operand mem with here | ⟨name, rfl⟩
    · exact ⟨ctx, here, fun _ _ covers => covers⟩
    · exact ⟨Context.declare ctx name, resolved, fun _ _ covers => covers.declare name⟩
  branch resolved mem := resolved.branch mem
  unchanged resolved undeclared := resolved.after_eq undeclared
  returns resolved := resolved.1
  first resolved := resolved.1
  rest resolved := resolved.2
  returns_after := by
    intro ctx stmt returns
    exact (Context.after_inFunction ctx stmt).symm.trans returns
  define := by
    intro ctx stmt name store scope resolved mem _ covers value
    refine ⟨⟨trivial, Store.grows_define _ _ _ _⟩, ?_⟩
    show Store.Covers _ scope (Context.after ctx stmt).scopes
    rw [Context.after_of_declared ctx mem]
    exact covers.define name value
  block := by
    intro ctx body resolved
    exact ⟨Context.enter ctx [], resolved, id, fun store scope _ covers =>
      ⟨⟨trivial, Store.grows_push _ _⟩, covers.push nofun⟩⟩
  function := by
    intro ctx decl store scope resolved covers
    exact ⟨Context.define ctx decl.name, resolved, covers⟩
  method := by
    intro ctx name superclass methods store scope resolved covers decl mem _
    exact ⟨Context.named ctx name, resolved.2.2.of_mem mem, covers⟩
  call := by
    rintro store closure args ⟨ctx, resolved, covers⟩ _ given
    exact ⟨ctx.inBody closure.declaration.parameters, resolved.body,
      ⟨trivial, Store.grows_push _ _⟩, covers.call given⟩
  bind := by
    rintro store method ⟨ctx, resolved, covers⟩ _ receiver
    exact ⟨⟨trivial, Store.grows_push _ _⟩, ctx.enter [("this", true)],
      resolved, covers.receiver receiver⟩

end Discipline

/-! ## Programs and sessions -/

theorem Scoping.Context.after_of_global {ctx : Context}
    (outside : ctx.scopes = []) (stmt : Stmt) : ctx.after stmt = ctx := by
  refine Context.after_of_define (· = ctx) rfl ?_ stmt
  rintro _ name rfl
  rw [Context.define, Context.mark, outside]

section

variable {ledger : Ledger} {machine : Machine} (coherent : machine.Coherent ledger)

include coherent

theorem Machine.Coherent.flushThen (outcome : Outcome) :
    (machine.flushThen outcome).2.Coherent ledger := by
  have flushed : ∃ output, (machine.flushThen outcome).2 = { machine with output := output } := by
    unfold Machine.flushThen Run.flush
    simp only
    cases machine.output.flush.2 <;> exact ⟨_, rfl⟩
  rcases flushed with ⟨output, same⟩
  rw [same]
  exact coherent.congr rfl rfl rfl

/-- The guard makes no difference to a program. -/
theorem agree_executeProgram (substitute : Access) (fuel : Nat) {prog : Program}
    (resolved : Stmt.AllResolved ledger .outermost prog) :
    (Discipline.covering ledger machine.globals).Agree
      (Run.executeProgram (.guarded substitute) fuel prog)
      (Run.executeProgram .recorded fuel prog) machine (fun _ _ => True)
      False := by
  have lawful :=
    Discipline.lawful_covering ledger machine.globals substitute
  have stands : (Discipline.covering ledger machine.globals).Stands
      machine.store machine.current Context.outermost := trivial
  have agree := lawful.executeProgram fuel (fun _ _ _ _ _ _ => trivial)
    (Discipline.keeps_covering coherent) stands resolved
  exact agree.imp (fun _ _ _ holds => holds) Bool.false_ne_true

end

namespace Machine

theorem Coherent.conclude {ledger : Ledger} {globals : ScopeId}
    {machine : Machine} {post : Machine → Unit → Prop} {returns : Prop}
    {result : EStateM.Result Signal Machine Unit}
    (ends : (Discipline.covering ledger globals).Ends machine post returns result) :
    (conclude result).2.Coherent ledger := by
  cases result with
  | ok value later => exact ends.1.keeps.coherent.flushThen .completed
  | error signal later =>
    have coherent := ends.1.keeps.coherent
    cases signal with
    | fault fault token | returned value => exact coherent.flushThen _
    | stream error | exhausted => exact coherent

end Machine

section

variable {ledger : Ledger} {machine : Machine} (coherent : machine.Coherent ledger)

include coherent

theorem Machine.Coherent.interpret (substitute : Access) (fuel : Nat) {prog : Program}
    (resolved : Stmt.AllResolved ledger .outermost prog) :
    machine.interpretWith (.guarded substitute) fuel prog = machine.interpret fuel prog ∧
      (machine.interpret fuel prog).2.Coherent ledger := by
  have agree := agree_executeProgram coherent substitute fuel resolved
  rw [Machine.interpret, interpretWith_eq_conclude, interpretWith_eq_conclude, agree.same]
  exact ⟨rfl, .conclude agree.ends⟩

theorem Machine.Coherent.extend {later : Ledger} (extended : ledger.Extends later) :
    Machine.Coherent later { machine with distances := later.distances } where
  distances := rfl
  bound := by
    intro scope name value bound
    exact (coherent.bound scope name value bound).extend extended (.refl _)
  fields := by
    intro bindings mem name value bound
    exact (coherent.fields bindings mem name value bound).extend extended (.refl _)

/-- Recording what is found with new ids keeps a machine coherent. -/
theorem Machine.Coherent.recordAll {findings : Findings} {property : Ledger → Prop}
    {nextId : ExprId} (increasing : ledger.bound ≤ nextId)
    (resolve : findings.Resolve ledger.bound nextId property) :
    (machine.recordDistances findings.distances).Coherent
      (ledger.recordAll findings.distances nextId) := by
  have extended := coherent.extend (Ledger.extends_recordAll increasing resolve)
  refine extended.congr ?_ rfl rfl
  simp only [Machine.recordDistances, Ledger.recordAll, coherent.distances]

/-- A program whose ids are new runs alike with and without the guard. -/
theorem Machine.Coherent.runProgram (fresh : ledger.Fresh) (substitute : Access) (fuel : Nat)
    {prog : Program} {nextId : ExprId} (increasing : ledger.bound ≤ nextId)
    (resolve : Findings.Resolve ledger.bound nextId (Scoping.analyse prog)
      (fun ledger => Stmt.AllResolved ledger .outermost prog)) :
    machine.runProgramWith (.guarded substitute) fuel prog =
        machine.runProgramWith .recorded fuel prog ∧
      (machine.runProgramWith .recorded fuel prog).2.Coherent
        (ledger.recordAll (Scoping.analyse prog).distances nextId) := by
  have recorded := coherent.recordAll increasing resolve
  unfold Machine.runProgramWith Machine.analyse
  cases clean : (Scoping.analyse prog).errors with
  | nil =>
    simp only [clean]
    exact recorded.interpret substitute fuel (fresh.resolved resolve clean)
  | cons error errors =>
    simp only [clean]
    exact ⟨trivial, recorded⟩

end

namespace Session

/-- What a session has recorded, and the ids in use. -/
def ledger (session : Session) : Ledger :=
  ⟨session.machine.distances, session.nextId⟩

/-- The machine is coherent with what the session has recorded. -/
structure Coherent (session : Session) : Prop where
  machine : session.machine.Coherent ⟨session.machine.distances, session.nextId⟩
  fresh : Ledger.Fresh ⟨session.machine.distances, session.nextId⟩

theorem coherent_of_ledger {ledger : Ledger} {machine : Machine}
    (coherent : machine.Coherent ledger) (fresh : ledger.Fresh) :
    Session.Coherent ⟨machine, ledger.bound⟩ := by
  have same : (⟨machine.distances, ledger.bound⟩ : Ledger) = ledger := by
    rw [coherent.distances]
  constructor
  · show machine.Coherent ⟨machine.distances, ledger.bound⟩
    rw [same]
    exact coherent
  · show Ledger.Fresh ⟨machine.distances, ledger.bound⟩
    rw [same]
    exact fresh

/-- A session starts with a coherent machine. -/
theorem coherent_start (clock : Nat → Float) (output : Sink) : (start clock output).Coherent where
  machine :=
    { distances := rfl
      bound := by
        intro scope name value bound
        rw [(Machine.bound_initial clock output bound).2]
        trivial
      fields := by
        intro bindings mem
        cases Array.mem_toList_iff.mpr mem }
  fresh := Ledger.fresh_empty

section

variable {session : Session} (coherent : session.Coherent) (substitute : Access) (fuel : Nat)

include coherent substitute fuel

/-- A text is run alike with a guard and keeps the machine coherent. -/
theorem Coherent.eval (text : String) :
    session.evalWith (.guarded substitute) fuel text = session.eval fuel text ∧
      (session.eval fuel text).2.Coherent := by
  have increasing := readProgram_firstId_le text session.nextId
  unfold Session.eval Session.evalWith
  cases read : readProgram text session.nextId with
  | mk result nextId =>
    rw [read] at increasing
    cases result with
    | error failure =>
      have extended : Ledger.Extends ⟨session.machine.distances, session.nextId⟩
          ⟨session.machine.distances, nextId⟩ :=
        ⟨increasing, fun _ _ => rfl⟩
      exact ⟨rfl, coherent.machine.extend extended, fun id above =>
        coherent.fresh id (Nat.le_trans increasing above)⟩
    | ok prog =>
      have resolve := resolve_of_readProgram read
      rcases coherent.machine.runProgram coherent.fresh substitute fuel
        increasing resolve with ⟨same, later⟩
      simp only [same]
      exact ⟨trivial, coherent_of_ledger later (coherent.fresh.recordAll increasing resolve)⟩

theorem Coherent.evalAll (texts : List String) :
    session.evalAllWith (.guarded substitute) fuel texts = session.evalAll fuel texts := by
  unfold Session.evalAll
  induction texts generalizing session with
  | nil => rfl
  | cons text texts ih =>
    rcases coherent.eval substitute fuel text with ⟨same, later⟩
    simp only [Session.evalAllWith, same]
    unfold Session.eval at later ⊢
    rw [ih later]

end

/-- Running a program text is running it in a session of its own. -/
theorem runWith_eq_evalWith (access : Access) (fuel : Nat)
    (clock : Nat → Float) (output : Sink) (text : String) :
    runWith access fuel clock output text = (((start clock output).evalWith access fuel text).1,
        ((start clock output).evalWith access fuel text).2.machine) := by
  unfold runWith evalWith
  simp only [start]
  cases readProgram text 0 with
  | mk result nextId => cases result <;> rfl

theorem runWith_guarded (substitute : Access) (fuel : Nat)
    (clock : Nat → Float) (output : Sink) (text : String) :
    runWith (.guarded substitute) fuel clock output text = run fuel clock output text := by
  rw [run, runWith_eq_evalWith, runWith_eq_evalWith,
    ((coherent_start clock output).eval substitute fuel text).1]
  rfl

end Session

namespace Access

/-- Variables that are missing are read as nil, and writes to them dropped. -/
def lenient : Access where
  read _ _ := pure .nil
  write _ _ _ := pure ()

section

variable {machine : Machine} {id : ExprId} {dist : Nat}
  (recorded : machine.distances.find? id = some dist) (name : Token)

include recorded name

theorem guarded_lenient_read :
    ∃ value, (guarded lenient).read id name machine = .ok value machine := by
  unfold guarded
  simp only
  split
  · next bound =>
    unfold Machine.binds at bound
    simp only [recorded] at bound
    split at bound
    · next scope reached =>
      rcases Option.isSome_iff_exists.mp bound with ⟨value, found⟩
      refine ⟨value, ?_⟩
      simp only [Run.readVariable, recorded, Store.getAt?, reached, found]
    · cases bound
  · exact ⟨.nil, rfl⟩

theorem guarded_lenient_write (value : Value) :
    ∃ later, (guarded lenient).write id name value machine = .ok () later := by
  unfold guarded
  simp only
  split
  · next reached =>
    unfold Machine.reaches at reached
    simp only [recorded] at reached
    rcases Option.isSome_iff_exists.mp reached with ⟨scope, found⟩
    simp only [Run.writeVariable, recorded, found]
    exact ⟨_, rfl⟩
  · exact ⟨machine, rfl⟩

end

end Access

/--
In every run and every session, a recorded distance leads to a scope that
binds the name when a variable is read, and to a scope when one is assigned:
looking before each access makes no difference, whatever is done about those
that would fail.  So a variable can only be missing if it has no distance: a
session runs as if all accesses by a distance succeeded.
-/
theorem recorded_distance_reaches_variable (fuel : Nat) (clock : Nat → Float) (output : Sink) :
    (∀ substitute text, runWith (.guarded substitute) fuel clock output text =
        run fuel clock output text) ∧
    (∀ substitute texts, (Session.start clock output).evalAllWith (.guarded substitute) fuel texts =
        (Session.start clock output).evalAll fuel texts) ∧
    ∀ (machine : Machine) (id : ExprId) (name : Token) (distance : Nat),
      machine.distances.find? id = some distance →
        (∃ value, (Access.guarded .lenient).read id name machine = .ok value machine) ∧
        ∀ value, ∃ later, (Access.guarded .lenient).write id name value machine = .ok () later := by
  have coherent := Session.coherent_start clock output
  refine ⟨?_, fun substitute => coherent.evalAll substitute fuel, ?_⟩
  · intro substitute text
    exact Session.runWith_guarded substitute fuel clock output text
  · intro machine id name distance recorded
    exact ⟨Access.guarded_lenient_read recorded name, Access.guarded_lenient_write recorded name⟩

/-- A block reads a variable of the block around it. -/
theorem variable_of_enclosing_block_is_reached :
    let text := "\x7b var a = \"x\"; \x7b print a; \x7d \x7d"
    let machine := (run 20 (fun _ => 0) .unlimited text).2
    machine.distances.find? 0 = some 1 ∧
      runWith (.guarded .lenient) 20 (fun _ => 0) .unlimited text =
        run 20 (fun _ => 0) .unlimited text ∧
      ∃ value, (Access.guarded .lenient).read 0 ⟨.identifier, "a", 1⟩ machine =
        .ok value machine := by
  have recorded : (run 20 (fun _ => 0) .unlimited
      "\x7b var a = \"x\"; \x7b print a; \x7d \x7d").2.distances.find? 0 =
        some 1 := by
    decide +kernel
  have reached :=
    recorded_distance_reaches_variable 20 (fun _ => 0) Sink.unlimited
  exact ⟨recorded, reached.1 _ _, (reached.2.2 _ _ _ _ recorded).1⟩

end Treewalk
