import Treewalk.Proofs.Discipline

/-!
# Where classes and instances come from

Each class goes back to one class declaration of the run: its own methods close
over the scope that was current there, and it inherits from the class that its
superclass was at that moment.  Instances are numbered as they are made.

Both are shown of all machines that a session visits, by a discipline.  What is
declared is a parameter: any set of classes will do that holds those of the
class declarations visited.
-/

namespace Treewalk

open Run

variable {declared : Class → Prop} {machine : Machine} {distances : Distances}
  {globals : ScopeId} {fuel left : Nat} {task : Task}

namespace Discipline

/-- Classes are declared and instances counted; all else is allowed. -/
def originating (declared : Class → Prop) (distances : Distances) (globals : ScopeId) :
    Discipline where
  Site := Unit
  after _ _ := ()
  distances := distances
  globals := globals
  Orderly _ := True
  Grows _ _ := True
  Stands _ _ _ := True
  Callable _ _ := True
  Bindable _ _ := True
  Admits _ _ := True
  Allows _ _ := True
  AllowsAll _ _ := True
  Returns _ := True
  Excuses _ _ := True
  Genuine := declared
  Counts := True
  grows_refl _ := trivial
  grows_trans _ _ := trivial
  stands_grow _ _ := trivial
  callable_grow _ _ := trivial
  bindable_grow _ _ := trivial

/-- That classes come from declarations is a discipline. -/
theorem lawful_originating : (originating declared distances globals).Lawful .recorded where
  part _ _ := trivial
  read _ _ _ := rfl
  receiver _ _ _ := rfl
  write _ _ _ _ := rfl
  raises _ _ := trivial
  rebind _ _ _ _ _ _ := ⟨trivial, trivial⟩
  operand _ _ := ⟨(), trivial, fun _ _ _ => trivial⟩
  branch _ _ := ⟨trivial, rfl⟩
  unchanged _ _ := rfl
  returns _ := trivial
  first _ := trivial
  rest _ := trivial
  returns_after _ := trivial
  define _ _ _ _ _ := ⟨⟨trivial, trivial⟩, trivial⟩
  block _ := ⟨(), trivial, id, fun _ _ _ _ => ⟨⟨trivial, trivial⟩, trivial⟩⟩
  function _ _ := trivial
  method _ _ _ _ _ := trivial
  inherits _ := trivial
  call _ _ _ := ⟨(), trivial, ⟨trivial, trivial⟩, trivial⟩
  bind _ _ _ := ⟨⟨trivial, trivial⟩, trivial⟩

theorem stands_originating (store : Store) (scope : ScopeId) :
    (originating declared distances globals).Stands store scope () :=
  trivial

end Discipline

/-- The discipline of a machine whose classes are declared. -/
abbrev Machine.origins (declared : Class → Prop) (machine : Machine) : Discipline :=
  .originating declared machine.distances machine.globals

/-- The classes of a machine are declared, and its instances counted. -/
def Machine.Made (declared : Class → Prop) (machine : Machine) : Prop :=
  (machine.origins declared).Keeps machine

theorem Machine.origins_of_keeps
    (keeps : (Discipline.originating declared distances globals).Keeps machine) :
    machine.origins declared = .originating declared distances globals := by
  have same_distances : machine.distances = distances := keeps.distances
  have same_globals : machine.globals = globals := keeps.globals
  rw [origins, same_distances, same_globals]

theorem Machine.Made.recordDistances (made : machine.Made declared) (found : List (ExprId × Nat)) :
    (machine.recordDistances found).Made declared := by
  have sound (value : Value) (holds : machine.Holds value) :
      ((machine.recordDistances found).origins declared).Sound machine value := by
    have before := Discipline.Keeps.held made holds
    cases value <;> exact before
  exact ⟨rfl, rfl, trivial, fun _ _ value found => sound value (.bound found),
    fun _ mem _ value found => sound value (.field mem found)⟩

/-! ## Sessions -/

namespace Session

variable {texts : List String} {session : Session}

/-- The classes that the class declarations of a session make. -/
def Declared (fuel : Nat) (texts : List String) (session : Session) (value : Class) : Prop :=
  ∃ left task machine, Visits fuel texts session left task machine ∧
    task.Declares left machine value

theorem covers_of_declared {text : String} {prog : Program} {nextId : ExprId}
    (read : readProgram text session.nextId = (.ok prog, nextId))
    (clean : (Scoping.analyse prog).errors = [])
    (covers : ∀ value, Declared fuel (text :: texts) session value → declared value) :
    prog.Covers declared fuel
      (session.machine.recordDistances (Scoping.analyse prog).distances) := by
  intro left task later value visits declares
  exact covers value ⟨left, task, later, .first read clean visits, declares⟩

/-- A text makes classes by the declarations that it visits. -/
theorem made_eval {text : String} (made : session.machine.Made declared)
    (covers : ∀ value, Declared fuel [text] session value → declared value) :
    (session.eval fuel text).2.machine.Made declared := by
  cases read : readProgram text session.nextId with
  | mk result nextId =>
    cases result with
    | error failure =>
      simp only [Session.eval, evalWith, read]
      exact made
    | ok prog =>
      have recorded := made.recordDistances (Scoping.analyse prog).distances
      cases clean : (Scoping.analyse prog).errors with
      | cons error errors =>
        simp only [Session.eval, evalWith, read, Machine.runProgramWith, Machine.analyse, clean]
        exact recorded
      | nil =>
        have runs := Discipline.lawful_originating.executeProgram fuel
          (covers_of_declared read clean covers) recorded
          (Discipline.stands_originating _ _) trivial
        have ended := runs.ends.leads.conclude.keeps
        rw [eval_of_accepted read clean fuel, Machine.Made, Machine.origins_of_keeps ended]
        exact ended

/-- On all machines visited, classes come from declarations. -/
theorem Visits.hosts_origins (visits : Visits fuel texts session left task machine)
    (made : session.machine.Made declared)
    (covers : ∀ value, Declared fuel texts session value → declared value) :
    (machine.origins declared).Hosts machine task := by
  induction visits with
  | first read clean visited =>
    have hosts := (Discipline.lawful_originating.visits visited
      (covers_of_declared read clean covers) (made.recordDistances _)
      (Discipline.stands_originating _ _) trivial).1
    rw [Machine.origins_of_keeps hosts.keeps]
    exact hosts
  | others _ ih =>
    apply ih
    · apply made_eval made
      rintro value ⟨left, task, later, visits, declares⟩
      cases visits with
      | first read clean visited =>
        exact covers value ⟨left, task, later, .first read clean visited, declares⟩
      | others visits => cases visits
    · rintro value ⟨left, task, later, visits, declares⟩
      exact covers value ⟨left, task, later, .others visits, declares⟩

section

variable {clock : Nat → Float} {output : Sink}
  (visits : Visits fuel texts (start clock output) left task machine)

include visits

/--
From the start of a session on, all classes come from class declarations that
the session has visited.
-/
theorem hosts_of_visits :
    (machine.origins (Declared fuel texts (start clock output))).Hosts machine task := by
  apply visits.hosts_origins _ fun _ declares => declares
  refine ⟨rfl, rfl, trivial, ?_, ?_⟩
  · intro scope name value bound
    rw [(Machine.bound_initial clock output bound).2]
    trivial
  · intro bindings mem
    cases Array.mem_toList_iff.mpr mem

/-- What a visited task yields comes from declarations, too. -/
theorem ends_of_visits : ∃ site,
    (machine.origins (Declared fuel texts (start clock output))).Ends machine
      ((machine.origins (Declared fuel texts (start clock output))).Yields site task)
      ((machine.origins (Declared fuel texts (start clock output))).Leaves site task)
      (task.run .recorded left machine) := by
  rcases hosts_of_visits visits with ⟨keeps, site, fits⟩
  refine ⟨site, (Discipline.lawful_originating.safe ?_ site keeps fits).ends⟩
  intro least inner later value reaches declares
  exact ⟨least, inner, later, visits.reaches reaches, declares⟩

end

/--
A class and its superclasses, with the declarations that a session has visited
for them.
-/
inductive Lineage (fuel : Nat) (texts : List String) (session : Session) :
    Class → Prop where
  | root {left name methods machine} :
      Visits fuel texts session (left + 1) (.execute (.classDecl name none methods)) machine →
      Lineage fuel texts session
        ⟨machine.nextIdentity, ⟨name.lexeme, closeMethods machine.current methods⟩, []⟩
  | heir {left name superclass methods parent machine later} :
      Visits fuel texts session (left + 1)
        (.execute (.classDecl name (some superclass) methods)) machine →
      evaluateWith .recorded left superclass machine = .ok (.classValue parent) later →
      Lineage fuel texts session parent → Lineage fuel texts session
        ⟨later.nextIdentity, ⟨name.lexeme, closeMethods machine.current methods⟩, parent.layers⟩

/-- The superclass of a class that was declared was declared, too. -/
theorem lineage_of_declared {clock : Nat → Float} {output : Sink} {value : Class}
    (declared : Declared fuel texts (start clock output) value) :
    Lineage fuel texts (start clock output) value := by
  -- An heir has one layer more than its parent.
  induction layers : value.layers generalizing value with
  | nil => cases layers
  | cons own inherited ih =>
    rcases declared with ⟨left, task, machine, visits, declares⟩
    cases declares with
    | root => exact .root visits
    | heir ran =>
      cases layers
      rcases ends_of_visits (visits.begins (.operand (.head _))) with ⟨site, ends⟩
      exact .heir visits ran (ih (ends.of_ok ran).2.1 rfl)

end Session

end Treewalk
