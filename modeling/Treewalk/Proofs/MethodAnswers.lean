import Treewalk.Proofs.MethodReceivers
import Treewalk.Proofs.Timeline

/-!
# What classes and instances answer

A class answers for a name with the method that was declared last under it in
the nearest class of its lineage that declares one.  The number of a class
belongs to one declaration of the session only.  A property of an instance is
the value that was last assigned to it in the session, or else what the class
of the instance answers, bound to the instance.
-/

namespace Treewalk

open Run List Session Option

/-! ## Assignments to fields -/

/-- What a task assigns to a field: the instance, the field and the value. -/
def Task.assignment? (fuel : Nat) (machine : Machine) :
    Task → Option (Nat × String × Value)
  | .evaluate (.set object property value) =>
    match evaluateWith .recorded fuel object machine with
    | .ok (.object identity _) later =>
      match evaluateWith .recorded fuel value later with
      | .ok assigned _ => some (identity, property.lexeme, assigned)
      | .error _ _ => none
    | _ => none
  | _ => none

/-- The value that a moment assigns to a field of an instance. -/
def Moment.assigned? (moment : Moment) (identity : Nat) (name : String) :
    Option Value :=
  match moment.left with
  | 0 => none
  | fuel + 1 =>
    match moment.task.assignment? fuel moment.machine with
    | some (owner, property, value) =>
      if owner = identity ∧ property = name then some value else none
    | none => none

/-- The value that was last assigned to a field of an instance. -/
def lastAssigned? (past : List Moment) (identity : Nat) (name : String) :
    Option Value :=
  past.reverse.findSome? fun moment => moment.assigned? identity name

theorem lastAssigned?_cons (moment : Moment) (past : List Moment) (identity : Nat) (name : String) :
    lastAssigned? (moment :: past) identity name = (lastAssigned? past identity name).or
        (moment.assigned? identity name) := by
  rw [lastAssigned?, reverse_cons, findSome?_append, findSome?_singleton]
  rfl

variable {machine : Machine} {moment : Moment} {value : Class} {task : Task} {texts : List String}
  {moments : List Moment} {fuel identity : Nat} {session : Session} {property : Token}

namespace Machine

theorem field?_eq (machine : Machine) (identity : Nat) (name : String) :
    field? identity name machine = .ok (machine.fieldOf? identity name) machine := by
  unfold field? fieldOf?
  cases machine.fields[identity]? <;> rfl

/-- Assigning to a field changes this field only. -/
theorem fieldOf?_modify (existing : identity < machine.fields.size) (name : String) (value : Value)
    (other : Nat) (key : String) :
    fieldOf? { machine with
          fields := machine.fields.modify identity fun bindings =>
            bindings.set name value } other key =
      (if identity = other ∧ name = key then some value else none).or
        (machine.fieldOf? other key) := by
  rw [fieldOf?, fieldOf?, Array.getElem?_modify]
  by_cases same : identity = other
  · subst same
    rw [if_pos rfl, Array.getElem?_eq_getElem existing, map_some,
      bind_some, bind_some, Bindings.get?_set]
    by_cases named : key = name
    · rw [if_pos named, if_pos ⟨rfl, named.symm⟩, some_or]
    · rw [if_neg named, if_neg fun both => named both.2.symm, none_or]
  · rw [if_neg same, if_neg fun both => same both.1, none_or]

end Machine

/-! ## What a moment does itself -/

/-- What a task does after the last one of the tasks it begins. -/
structure Moment.Works (moment : Moment) : Prop where
  fields : ∀ identity name, moment.last.fieldOf? identity name = (moment.assigned? identity name).or
        (moment.brink.fieldOf? identity name)
  identity : moment.brink.nextIdentity ≤ moment.last.nextIdentity
  /-- A class that is declared takes the next number. -/
  declares : ∀ value, moment.task.Declares moment.left moment.machine value →
    value.identity = moment.brink.nextIdentity ∧
      moment.brink.nextIdentity < moment.last.nextIdentity

section

theorem Task.assignment?_of_not_assigns (other : ¬ task.AssignsField) :
    task.assignment? fuel machine = none := by
  cases task with
  | evaluate value =>
    cases value with
    | set object property value => exact absurd trivial other
    | _ => rfl
  | _ => rfl

/-- A class declaration takes the next number. -/
theorem Task.Declares.takes_identity (declares : task.Declares (fuel + 1) machine value) :
    value.identity = (Task.brink fuel machine (task.steps fuel machine)).nextIdentity ∧
      (Task.brink fuel machine (task.steps fuel machine)).nextIdentity <
        (task.after (fuel + 1) machine).nextIdentity := by
  cases declares with
  | root => exact ⟨rfl, Nat.lt_succ_self _⟩
  | @heir _ name superclass methods parent _ later ran =>
    have ended : Task.brink fuel machine (Task.steps fuel machine
        (.execute (.classDecl name (some superclass) methods))) = later := by
      show Machine.final (evaluateWith .recorded fuel superclass machine) = _
      rw [ran]
      rfl
    have declared : (Task.after (fuel + 1) (.execute (.classDecl name (some superclass) methods))
          machine).nextIdentity = later.nextIdentity + 1 := by
      rw [Task.after, executeWith, bind_of_ok ran]
      rfl
    rw [ended, declared]
    exact ⟨rfl, Nat.lt_succ_self _⟩

theorem Task.works_of_not_assigns (other : ¬ task.AssignsField) :
    Moment.Works ⟨fuel + 1, task, machine⟩ := by
  have leads : Leads fuel machine (task.steps fuel machine) _ :=
    leads_steps other
  have quiet := leads.brink.2
  refine ⟨?_, quiet.identity, fun _ declares => declares.takes_identity⟩
  intro identity name
  simp only [Moment.assigned?, assignment?_of_not_assigns other]
  exact quiet.fields identity name

/-- A task that goes no further than the tasks it begins. -/
theorem Moment.works_of_last_eq (ended : moment.last = moment.brink)
    (unassigned : ∀ identity name, moment.assigned? identity name = none)
    (undeclared : ∀ value, ¬ moment.task.Declares moment.left moment.machine value) :
    moment.Works where
  fields identity name := by
    rw [ended, unassigned, none_or]
  identity := Nat.le_of_eq (by rw [ended])
  declares value declares := absurd declares (undeclared value)

/-- An instance exists before anything can be assigned to its fields. -/
theorem Task.works_set {object value : Expr}
    (existing : ∀ identity origin later assigned last, evaluateWith .recorded fuel object machine =
        .ok (.object identity origin) later →
      evaluateWith .recorded fuel value later = .ok assigned last → identity < last.fields.size) :
    Moment.Works ⟨fuel + 1, .evaluate (.set object property value), machine⟩ := by
  have undeclared (declared : Class) :
      ¬ Task.Declares (fuel + 1) (.evaluate (.set object property value)) machine declared := by
    rintro ⟨⟩
  cases owned : evaluateWith .recorded fuel object machine with
  | error signal later =>
    refine Moment.works_of_last_eq ?_ ?_ undeclared
    · simp only [Moment.last, Moment.brink, after, steps, stepsOfExpr,
        followed, entered, brink, evaluateWith, Bind.bind, EStateM.bind, owned, Machine.final]
    · intro identity name
      simp only [Moment.assigned?, assignment?, owned]
  | ok owner later =>
    cases owner with
    | object identity origin =>
      cases ran : evaluateWith .recorded fuel value later with
      | error signal last =>
        refine Moment.works_of_last_eq ?_ ?_ undeclared
        · simp only [Moment.last, Moment.brink, after, steps,
            stepsOfExpr, followed, entered, brink, evaluateWith,
            Bind.bind, EStateM.bind, owned, ran, Machine.final]
        · intro other name
          simp only [Moment.assigned?, assignment?, owned, ran]
      | ok assigned last =>
        have inside := existing identity origin later assigned last owned ran
        refine ⟨?_, ?_, fun _ declares => absurd declares (undeclared _)⟩
        · intro other name
          simp only [Moment.last, Moment.brink, Moment.assigned?,
            assignment?, after, steps, stepsOfExpr, followed, entered,
            brink, evaluateWith, Bind.bind, EStateM.bind, owned, ran, Machine.final]
          exact Machine.fieldOf?_modify inside property.lexeme assigned other name
        · simp only [Moment.last, Moment.brink, after, steps,
            stepsOfExpr, followed, entered, brink, evaluateWith,
            Bind.bind, EStateM.bind, owned, ran, Machine.final]
          exact Nat.le_refl _
    | _ =>
      refine Moment.works_of_last_eq ?_ ?_ undeclared
      · simp only [Moment.last, Moment.brink, after, steps, stepsOfExpr,
          followed, entered, brink, evaluateWith, Bind.bind, EStateM.bind, owned, Machine.final]
        rfl
      · intro other name
        simp only [Moment.assigned?, assignment?, owned]

end

theorem Session.Visits.works {left : Nat} {clock : Nat → Float} {output : Sink}
    (visits : Visits fuel texts (start clock output) left task machine) :
    Moment.Works ⟨left, task, machine⟩ := by
  cases left with
  | zero =>
    refine Moment.works_of_last_eq ?_ (fun _ _ => rfl) ?_
    · cases task <;> rfl
    · rintro value ⟨⟩
  | succ rest =>
    by_cases assigns : task.AssignsField
    · cases task with
      | evaluate value =>
        cases value with
        | set object property value =>
          refine Task.works_set ?_
          intro identity origin later assigned last owned ran
          rcases ends_of_visits (visits.begins (.firstPart rfl)) with ⟨_, owner_ends⟩
          rcases ends_of_visits (visits.begins (.fieldValue owned)) with ⟨_, value_ends⟩
          exact Nat.lt_of_lt_of_le ((owner_ends.of_ok owned).2.1 trivial)
            (value_ends.of_ok ran).1.count_le
        | _ => cases assigns
      | _ => cases assigns
    · exact Task.works_of_not_assigns assigns

/-! ## What moments tell -/

namespace Recounted

variable {last : Machine}

/-- A field holds what was last assigned to it. -/
theorem fieldOf?_eq (told : Recounted machine moments last)
    (works : ∀ moment ∈ moments, moment.Works) (identity : Nat) (name : String) :
    last.fieldOf? identity name = (lastAssigned? moments identity name).or
        (machine.fieldOf? identity name) := by
  induction moments generalizing machine with
  | nil => exact told.fields identity name
  | cons moment moments ih =>
    have first := works moment (.head _)
    rw [ih told.2 fun other mem =>
        works other (.tail _ mem),
      first.fields, told.1.fields, lastAssigned?_cons, Option.or_assoc]

/-- Assigning to a field of one instance is none to that of another one. -/
example :
    let moments := (start (fun _ => 0) .unlimited).timeline 20
      ["class A \x7b\x7d var a = A(); var b = A(); b.f = 1; a.g = b.f;"]
    (lastAssigned? moments 1 "f").isSome = true ∧ (lastAssigned? moments 0 "f").isSome = false := by
  decide +kernel

/-- Classes that are declared later have higher numbers. -/
theorem identity_ge (told : Recounted machine moments last)
    (works : ∀ moment ∈ moments, moment.Works)
    (mem : moment ∈ moments) (declares : moment.task.Declares moment.left moment.machine value) :
    machine.nextIdentity ≤ value.identity := by
  induction moments generalizing machine with
  | nil => cases mem
  | cons first moments ih =>
    have worked := works first (.head _)
    rcases mem_cons.mp mem with rfl | mem
    · rw [(worked.declares value declares).1]
      exact told.1.identity
    · have later := ih told.2 (fun other mem => works other (.tail _ mem)) mem
      exact Nat.le_trans told.1.identity (Nat.le_trans worked.identity later)

end Recounted

theorem Task.Declares.unique {left : Nat} {other : Class}
    (declares : task.Declares left machine value) (again : task.Declares left machine other) :
    value = other := by
  cases declares with
  | root =>
    cases again
    rfl
  | heir ran =>
    cases again with
    | heir ranAgain =>
      rw [ran] at ranAgain
      cases ranAgain
      rfl

/-- No two classes that are declared have the same number. -/
theorem Recounted.declared_unique {last : Machine} (told : Recounted machine moments last)
    (works : ∀ moment ∈ moments, moment.Works) {another : Moment} (mem : moment ∈ moments)
    (anotherMember : another ∈ moments) {other : Class}
    (declares : moment.task.Declares moment.left moment.machine value)
    (otherDeclares : another.task.Declares another.left another.machine other)
    (same : value.identity = other.identity) : value = other := by
  induction moments generalizing machine with
  | nil => cases mem
  | cons first moments ih =>
    have worked := works first (.head _)
    have rest (other : Moment) (mem : other ∈ moments) : other.Works :=
      works other (.tail _ mem)
    rcases mem_cons.mp mem with rfl | inside
    · rcases mem_cons.mp anotherMember with rfl | anotherInside
      · exact declares.unique otherDeclares
      · have above := told.2.identity_ge rest anotherInside otherDeclares
        have below := worked.declares value declares
        omega
    · rcases mem_cons.mp anotherMember with rfl | anotherInside
      · have above := told.2.identity_ge rest inside declares
        have below := worked.declares other otherDeclares
        omega
      · exact ih told.2 rest inside anotherInside

/-! ## What a class answers -/

/-- The last one of some methods that has a name. -/
def LastNamed (methods : List FunctionDecl) (name : String) (method : FunctionDecl) : Prop :=
  ∃ before after, methods = before ++ method :: after ∧
    method.name.lexeme = name ∧ ∀ other ∈ after, other.name.lexeme ≠ name

theorem lastNamed_or_unnamed (methods : List FunctionDecl) (name : String) :
    (∃ method, LastNamed methods name method) ∨ ∀ method ∈ methods, method.name.lexeme ≠ name := by
  induction methods with
  | nil => exact .inr (fun _ mem => absurd mem not_mem_nil)
  | cons first methods ih =>
    rcases ih with ⟨method, before, after, rfl, named, unnamed⟩ | unnamed
    · exact .inl ⟨method, first :: before, after, rfl, named, unnamed⟩
    · by_cases named : first.name.lexeme = name
      · exact .inl ⟨first, [], methods, rfl, named, unnamed⟩
      · refine .inr ?_
        intro method mem
        rcases mem_cons.mp mem with rfl | mem
        · exact named
        · exact unnamed method mem

namespace Run

/-- The method of a declaration, as a class has it. -/
def closeMethod (scope : ScopeId) (method : FunctionDecl) : Closure :=
  ⟨method, scope, method.name.lexeme == Class.initializerName⟩

variable {scope : ScopeId} {methods : List FunctionDecl} {label name : String}

theorem find?_of_unnamed (unnamed : ∀ method ∈ methods, method.name.lexeme ≠ name) :
    ClassLayer.find? ⟨label, closeMethods scope methods⟩ name = none := by
  refine lookup_eq_none_iff.mpr ?_
  intro entry mem
  rw [mem_reverse] at mem
  rcases mem_map.mp mem with ⟨method, inside, rfl⟩
  exact bne_iff_ne.mpr (unnamed method inside).symm

/-- Of methods with one name the last one counts. -/
theorem find?_of_lastNamed {method : FunctionDecl} (last : LastNamed methods name method) :
    ClassLayer.find? ⟨label, closeMethods scope methods⟩ name =
      some (closeMethod scope method) := by
  rcases last with ⟨before, after, rfl, rfl, unnamed⟩
  have behind : ClassLayer.find? ⟨label, closeMethods scope after⟩ method.name.lexeme = none :=
    find?_of_unnamed unnamed
  rw [ClassLayer.find?] at behind ⊢
  have split : closeMethods scope (before ++ method :: after) = closeMethods scope before ++
        (method.name.lexeme, closeMethod scope method) :: closeMethods scope after :=
    map_append
  rw [split, reverse_append, reverse_cons, lookup_append,
    lookup_append, behind, none_or, lookup_cons_self, some_or]

end Run

/-- Own methods come before inherited ones. -/
theorem Class.findMethod?_eq (value : Class) (name : String) :
    value.findMethod? name = (value.own.find? name).or
        (value.inherited.findSome? fun layer => layer.find? name) := by
  rw [findMethod?, layers, findSome?_cons]
  cases value.own.find? name <;> rfl

namespace Session

/--
The answer of a class for a name, by the class declarations that a session has
visited: the method declared last under the name, in the scope of the
declaration, or else the answer of the superclass, as it was when the class was
declared.
-/
inductive Answers (fuel : Nat) (texts : List String) (session : Session)
    (name : String) : Class → Option Closure → Prop where
  | own {left label superclass methods machine value method} :
      Visits fuel texts session left (.execute (.classDecl label superclass methods)) machine →
      Task.Declares left (.execute (.classDecl label superclass methods)) machine value →
      LastNamed methods name method → Answers fuel texts session name value
        (some (closeMethod machine.current method))
  | inherited {left label superclass methods machine later value parent answer} :
      Visits fuel texts session (left + 1)
        (.execute (.classDecl label (some superclass) methods)) machine → Task.Declares (left + 1)
        (.execute (.classDecl label (some superclass) methods)) machine value →
      (∀ method ∈ methods, method.name.lexeme ≠ name) →
      evaluateWith .recorded left superclass machine = .ok (.classValue parent) later →
      Answers fuel texts session name parent answer → Answers fuel texts session name value answer
  | nowhere {left label methods machine value} :
      Visits fuel texts session left (.execute (.classDecl label none methods)) machine →
      Task.Declares left (.execute (.classDecl label none methods)) machine value →
      (∀ method ∈ methods, method.name.lexeme ≠ name) → Answers fuel texts session name value none

section

variable {name : String}

/-- A lookup goes along the lineage of a class. -/
theorem Lineage.answers (lineage : Lineage fuel texts session value) (name : String) :
    Answers fuel texts session name value (value.findMethod? name) := by
  induction lineage with
  | @root _ _ methods machine visits =>
    rw [Class.findMethod?_eq]
    rcases lastNamed_or_unnamed methods name with ⟨method, last⟩ | unnamed
    · rw [find?_of_lastNamed last, some_or]
      exact .own visits .root last
    · rw [find?_of_unnamed unnamed]
      exact .nowhere visits .root unnamed
  | @heir _ _ _ methods parent _ _ visits ran _ ih =>
    rw [Class.findMethod?_eq]
    rcases lastNamed_or_unnamed methods name with ⟨method, last⟩ | unnamed
    · rw [find?_of_lastNamed last, some_or]
      exact .own visits (.heir ran) last
    · rw [find?_of_unnamed unnamed, none_or]
      exact .inherited visits (.heir ran) unnamed ran ih

/-- What a class answers is what is looked up. -/
theorem Answers.eq_findMethod? {answer : Option Closure}
    (answers : Answers fuel texts session name value answer) : answer = value.findMethod? name := by
  induction answers with
  | own _ declares last =>
    rw [Class.findMethod?_eq]
    cases declares with
    | root | heir _ => rw [find?_of_lastNamed last, some_or]
  | inherited _ declares unnamed ran _ ih =>
    rw [ih]
    cases declares with
    | heir ranAgain =>
      rw [ran] at ranAgain
      cases ranAgain
      symm
      rw [Class.findMethod?_eq, find?_of_unnamed unnamed, none_or]
      rfl
  | nowhere _ declares unnamed =>
    rw [Class.findMethod?_eq]
    cases declares with
    | root =>
      rw [find?_of_unnamed unnamed]
      rfl

end

end Session

/-! ## Classes that are met -/

/-- The class that a value is or is an instance of. -/
def Value.class? : Value → Option Class
  | .classValue value => some value
  | .object _ origin => some origin
  | _ => none

namespace Task

/-- The values that a task is given. -/
def given : Task → List Value
  | invoke _ arguments => arguments
  | apply _ arguments => arguments
  | _ => []

/-- The task ends with a value, or passes one on to the call it leaves. -/
def Yields (fuel : Nat) (machine : Machine) (value : Value) : Task → Prop
  | evaluate part =>
    ∃ later, evaluateWith .recorded fuel part machine = .ok value later
  | evaluateAll parts =>
    ∃ values later, evaluateAllWith .recorded fuel parts machine = .ok values later ∧ value ∈ values
  | invoke callee arguments =>
    ∃ later, invokeWith .recorded fuel callee arguments machine = .ok value later
  | apply closure arguments =>
    ∃ later, applyWith .recorded fuel closure arguments machine = .ok value later
  | execute statement =>
    ∃ later, executeWith .recorded fuel statement machine = .error (.returned value) later
  | executeAll statements =>
    ∃ later, executeAllWith .recorded fuel statements machine = .error (.returned value) later

end Task

/-- The classes that can be met at a moment. -/
inductive Moment.Meets (moment : Moment) : Class → Prop where
  | before {value met} :
      moment.machine.Holds value → value.class? = some met → Meets moment met
  | after {value met} :
      moment.last.Holds value → value.class? = some met → Meets moment met
  | given {value met} :
      value ∈ moment.task.given → value.class? = some met → Meets moment met
  | called {met arguments} :
      moment.task = .invoke (.construct met) arguments → Meets moment met
  | yielded {value met} :
      moment.task.Yields moment.left moment.machine value →
      value.class? = some met → Meets moment met

namespace Discipline

variable {rules : Discipline} {value : Value}

theorem Sound.genuine {met : Class} (sound : rules.Sound machine value)
    (named : value.class? = some met) : rules.Genuine met := by
  cases value with
  | classValue value =>
    cases named
    exact sound.1
  | object identity origin =>
    cases named
    exact sound.2.1
  | _ => cases named

theorem Fits.given {site : rules.Site} (fits : rules.Fits site machine task)
    (mem : value ∈ task.given) : rules.Sound machine value := by
  cases task with
  | invoke callee args | apply closure args => exact fits.2.1 value mem
  | _ => cases mem

theorem Ends.of_returned {α : Type} {post : Machine → α → Prop} {returns : Prop} {later : Machine}
    {result : EStateM.Result Signal Machine α} (ends : rules.Ends machine post returns result)
    (ran : result = .error (.returned value) later) : rules.Sound later value := by
  rw [ran] at ends
  exact ends.2.2

theorem Ends.yielded {site : rules.Site} {fuel : Nat}
    (ends : rules.Ends machine (rules.Yields site task) (rules.Leaves site task)
      (task.run .recorded fuel machine))
    (yields : task.Yields fuel machine value) : ∃ later, rules.Sound later value := by
  cases task with
  | evaluate part | invoke callee args | apply closure args =>
    rcases yields with ⟨later, ran⟩
    exact ⟨later, (ends.of_ok ran).2⟩
  | evaluateAll parts =>
    rcases yields with ⟨_, later, ran, mem⟩
    exact ⟨later, (ends.of_ok ran).2 value mem⟩
  | execute stmt | executeAll stmts =>
    rcases yields with ⟨later, ran⟩
    exact ⟨later, ends.of_returned ran⟩

end Discipline

namespace Session

variable {clock : Nat → Float} {output : Sink}

/-- Every class that is met was declared. -/
theorem declared_of_meets (mem : moment ∈ (start clock output).timeline fuel texts) {met : Class}
    (meets : moment.Meets met) : Declared fuel texts (start clock output) met := by
  rcases moment with ⟨left, task, machine⟩
  have visits := mem_timeline_iff.mp mem
  rcases hosts_of_visits visits with ⟨keeps, site, fits⟩
  rcases ends_of_visits visits with ⟨_, ends⟩
  cases meets with
  | before holds named => exact (keeps.held holds).genuine named
  | after holds named =>
    rw [Moment.last, Task.after_eq_final] at holds
    exact (ends.leads.keeps.held holds).genuine named
  | given mem named => exact (fits.given mem).genuine named
  | called same =>
    cases same
    exact fits.1.1
  | yielded yields named =>
    rcases ends.yielded yields with ⟨later, sound⟩
    exact sound.genuine named

theorem works_of_mem (mem : moment ∈ (start clock output).timeline fuel texts) : moment.Works :=
  (mem_timeline_iff.mp mem).works

/-- A number belongs to one declared class. -/
theorem declared_unique {value other : Class}
    (declared : Declared fuel texts (start clock output) value)
    (otherDeclared : Declared fuel texts (start clock output) other)
    (same : value.identity = other.identity) : value = other := by
  rcases declared with ⟨_, _, _, visits, declares⟩
  rcases otherDeclared with ⟨_, _, _, otherVisits, otherDeclares⟩
  exact (recounted_timeline fuel texts (start clock output)).declared_unique
    (fun _ => works_of_mem) (mem_timeline_iff.mpr visits)
    (mem_timeline_iff.mpr otherVisits) declares otherDeclares same

/-! ## Properties -/

/--
What reading a property of an instance comes to: the value last assigned to
it, or else the method of its class, bound to the instance, or else a fault.
-/
inductive Property (fuel : Nat) (texts : List String) (session : Session)
    (past : List Moment) (identity : Nat) (origin : Class) (property : Token)
    (machine : Machine) : EStateM.Result Signal Machine Value → Prop where
  | field {value : Value} :
      lastAssigned? past identity property.lexeme = some value →
      Property fuel texts session past identity origin property machine (.ok value machine)
  | method {method closure : Closure} {function : Nat} {later : Machine} :
      lastAssigned? past identity property.lexeme = none →
      Answers fuel texts session property.lexeme origin (some method) →
      closure.BoundTo later.store method (.object identity origin) →
      Property fuel texts session past identity origin property machine
        (.ok (.function function closure) later)
  | undefined :
      lastAssigned? past identity property.lexeme = none →
      Answers fuel texts session property.lexeme origin none →
      Property fuel texts session past identity origin property machine
        (.error (.fault (.undefinedProperty property.lexeme) property) machine)

theorem property_of_readProperty {past : List Moment} {origin : Class}
    (assigned : machine.fieldOf? identity property.lexeme =
      lastAssigned? past identity property.lexeme)
    (answers : Answers fuel texts session property.lexeme origin
      (origin.findMethod? property.lexeme)) :
    Property fuel texts session past identity origin property machine
      (readProperty (.object identity origin) property machine) := by
  have looked := machine.field?_eq identity property.lexeme
  rw [assigned] at looked
  cases last : lastAssigned? past identity property.lexeme with
  | some value =>
    rw [last] at looked
    rw [readProperty, bind_of_ok looked]
    exact .field last
  | none =>
    rw [last] at looked
    cases found : origin.findMethod? property.lexeme with
    | some method =>
      rw [found] at answers
      rcases readProperty_method looked found with ⟨function, closure, later, read, bound⟩
      rw [read]
      exact .method last answers bound
    | none =>
      rw [found] at answers
      rw [readProperty, bind_of_ok looked]
      simp only [found]
      exact .undefined last answers

/-- What classes and instances answer in a session. -/
structure AnswersAlways (fuel : Nat) (texts : List String)
    (session : Session) : Prop where
  /-- A class answers with the method of the nearest declaration. -/
  answers : ∀ moment ∈ session.timeline fuel texts, ∀ value, moment.Meets value → ∀ name answer,
      Answers fuel texts session name value answer ↔ value.findMethod? name = answer
  /-- A class takes the arguments that its initialiser takes. -/
  arity : ∀ moment ∈ session.timeline fuel texts, ∀ value, moment.Meets value → ∃ answer,
        Answers fuel texts session Class.initializerName value answer ∧
          value.arity = (answer.map fun method =>
            method.declaration.parameters.length).getD 0
  /-- Whenever it is met, a class is the same one. -/
  same : ∀ moment ∈ session.timeline fuel texts,
    ∀ other ∈ session.timeline fuel texts, ∀ value again, moment.Meets value → other.Meets again →
        value.identity = again.identity → value = again
  /-- A property is a field that was assigned to, or else a method. -/
  property : ∀ past rest object property machine future identity origin later,
    session.timeline fuel texts = past ++ ⟨rest + 1, .evaluate (.get object property), machine⟩ ::
        future → evaluateWith .recorded rest object machine = .ok (.object identity origin) later →
    Property fuel texts session past identity origin property later
      (evaluateWith .recorded (rest + 1) (.get object property) machine)

end Session

/--
In every session, at every moment, classes answer as they were declared, and
instances with their fields or with the methods of their classes.
-/
theorem classes_answer_as_declared (clock : Nat → Float) (output : Sink)
    (fuel : Nat) (texts : List String) :
    (Session.start clock output).AnswersAlways fuel texts where
  answers moment member value meets name answer := by
    have lineage :=
      lineage_of_declared (declared_of_meets member meets)
    constructor
    · intro answers
      exact answers.eq_findMethod?.symm
    · rintro rfl
      exact lineage.answers name
  arity moment member value meets := by
    have lineage :=
      lineage_of_declared (declared_of_meets member meets)
    refine ⟨_, lineage.answers Class.initializerName, ?_⟩
    unfold Class.arity Class.initializer?
    cases value.findMethod? Class.initializerName <;> rfl
  same moment member other otherMember value again meets meetsAgain same :=
    declared_unique (declared_of_meets member meets)
      (declared_of_meets otherMember meetsAgain) same
  property past rest object property machine future identity origin later
      split owned := by
    have member : ⟨rest + 1, .evaluate (.get object property), machine⟩ ∈
        (start clock output).timeline fuel texts := by
      rw [split]
      exact mem_append_right _ (.head _)
    have visits := mem_timeline_iff.mp member
    -- Up to the read, the past of the session tells what the fields hold.
    have told := recounted_timeline fuel texts (.start clock output)
    rw [split] at told
    have ended : Moment.brink ⟨rest + 1, .evaluate (.get object property), machine⟩ = later := by
      show Machine.final (evaluateWith .recorded rest object machine) = later
      rw [owned]
      rfl
    have assigned := told.before.fieldOf?_eq (fun moment inside =>
      works_of_mem (by
        rw [split]
        exact mem_append_left _ inside)) identity property.lexeme
    rw [ended] at assigned
    rcases ends_of_visits (visits.begins (.firstPart rfl)) with ⟨_, ends⟩
    have declared := (ends.of_ok owned).2.2.1
    rw [evaluateWith, bind_of_ok owned]
    refine property_of_readProperty ?_
      ((lineage_of_declared declared).answers property.lexeme)
    rw [assigned]
    exact or_none

end Treewalk
