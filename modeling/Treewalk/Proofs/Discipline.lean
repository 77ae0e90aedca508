import Treewalk.Proofs.Coverage
import Treewalk.Proofs.NameUses
import Treewalk.Proofs.Plans

/-!
# Disciplines

A discipline says what code may rely on at each place of a program: how the
scope it runs in stands to the place, which closures may be called, and in
which way scopes grow.  Closures are kept in scopes and fields and called much
later, so all of it has to last while scopes grow.

Its laws are about single steps.  The plan of each task then follows the
discipline step by step, and by induction on the fuel whole computations do the
same whether variables are reached by the distances or in the given way, and
keep the discipline up.
-/

namespace Treewalk

open Run List

/--
The scope where the variable that an occurrence of a name refers to is bound,
by its recorded distance.
-/
def Machine.target? (machine : Machine) (id : ExprId) (name : String) :
    Option ScopeId :=
  match machine.distances.find? id with
  | some distance => machine.store.ancestor? machine.current distance
  | none => machine.store.binder? machine.globals name

namespace Run

/-- Read a name in a scope, if there is one. -/
def readIn (target : Option ScopeId) (name : Token) : Run Value :=
  fun machine =>
    match target.bind (machine.store.getLocal? · name.lexeme) with
    | some value => .ok value machine
    | none => raise (.undefinedVariable name.lexeme) name machine

/-- Bind a name in a scope, if there is one. -/
def writeIn (target : Option ScopeId) (name : Token) (value : Value) :
    Run Unit := fun machine =>
  match target with
  | some scope =>
    .ok () { machine with store := machine.store.define scope name.lexeme value }
  | none => raise (.undefinedVariable name.lexeme) name machine

/-- A variable is read where its occurrence refers to. -/
theorem readVariable_eq (id : ExprId) (name : Token) (machine : Machine) :
    readVariable id name machine = readIn (machine.target? id name.lexeme) name machine := by
  cases found : machine.distances.find? id with
  | some dist =>
    simp only [readVariable, readIn, Machine.target?, found, Store.getAt?]
    cases machine.store.ancestor? machine.current dist <;> rfl
  | none =>
    simp only [readVariable, readIn, Machine.target?, found, Store.get?]
    cases machine.store.binder? machine.globals name.lexeme <;> rfl

theorem writeVariable_eq (id : ExprId) (name : Token) (value : Value) (machine : Machine) :
    writeVariable id name value machine =
      writeIn (machine.target? id name.lexeme) name value machine :=
  rfl

end Run

/-- The faults that an expression raises itself, and where. -/
def Expr.Raises (fault : Fault) (token : Token) : Expr → Prop
  | unary operator _ =>
    token = operator ∧ ∃ operand, Operator.unary operator.kind operand = .error fault
  | binary _ operator _ =>
    token = operator ∧ ∃ left right, Operator.binary operator.kind left right = .error fault
  | name _ target => token = target ∧ fault = .undefinedVariable target.lexeme
  | receiver _ keyword => token = keyword ∧ fault = .undefinedVariable keyword.lexeme
  | assign _ target _ => token = target ∧ fault = .undefinedVariable target.lexeme
  | call _ closing _ => token = closing ∧ ∃ callee given, checkCall callee given = .error fault
  | get _ property =>
    token = property ∧ (fault = .undefinedProperty property.lexeme ∨ fault = .noProperties)
  | set _ property _ => token = property ∧ fault = .noFields
  | _ => False

/-! ## What a discipline says -/

/-- What code relies on, and how long it lasts. -/
structure Discipline where
  /-- The places of programs. -/
  Site : Type
  /-- The place after a statement. -/
  after : Site → Stmt → Site
  distances : Distances
  globals : ScopeId
  /-- The scopes are in order. -/
  Orderly : Store → Prop
  /-- Scopes may become others. -/
  Grows : Store → Store → Prop
  /-- A scope is as the code of a place takes it to be. -/
  Stands : Store → ScopeId → Site → Prop
  /-- A closure may be called. -/
  Callable : Store → Closure → Prop
  /-- A closure may be called once it is bound to a receiver. -/
  Bindable : Store → Closure → Prop
  /-- An expression may be evaluated at a place. -/
  Admits : Site → Expr → Prop
  /-- A statement may be executed at a place. -/
  Allows : Site → Stmt → Prop
  /-- Statements may be executed one after the other, from a place on. -/
  AllowsAll : Site → List Stmt → Prop
  /-- Statements may return. -/
  Returns : Site → Prop
  /-- A fault may be met at a token. -/
  Excuses : Fault → Token → Prop
  /-- A class has been declared. -/
  Genuine : Class → Prop := fun _ => True
  /-- Instances are told from those that are still to come. -/
  Counts : Prop := False
  grows_refl : ∀ store, Grows store store
  grows_trans : ∀ {store later last}, Grows store later → Grows later last → Grows store last
  stands_grow : ∀ {store later scope site}, Grows store later →
    Stands store scope site → Stands later scope site
  callable_grow : ∀ {store later closure}, Grows store later →
    Callable store closure → Callable later closure
  bindable_grow : ∀ {store later closure}, Grows store later →
    Bindable store closure → Bindable later closure

variable {value assigned : Value} {machine later : Machine} {inherited : List ClassLayer}
  {methods : List FunctionDecl} {store : Store} {name : String} {rules : Discipline}

namespace Discipline

section

variable (rules)

/-- A class has been declared, and all its methods may be bound. -/
def SoundClass (store : Store) (value : Class) : Prop :=
  rules.Genuine value ∧
    ∀ layer ∈ value.layers, ∀ entry ∈ layer.methods, rules.Bindable store entry.2

/-- The closures that can be reached through a value may be called. -/
def Sound (machine : Machine) : Value → Prop
  | .function _ closure => rules.Callable machine.store closure
  | .classValue value => rules.SoundClass machine.store value
  | .object identity origin =>
    (rules.Counts → identity < machine.fields.size) ∧
      rules.SoundClass machine.store origin
  | _ => True

/-- What a call runs is sound. -/
def SoundCallee (store : Store) : Callee → Prop
  | .closure function => rules.Callable store function
  | .native _ => True
  | .construct origin => rules.SoundClass store origin

/-- The machine keeps to the rules. -/
structure Keeps (machine : Machine) : Prop where
  distances : machine.distances = rules.distances
  globals : machine.globals = rules.globals
  orderly : rules.Orderly machine.store
  bound : ∀ scope name value, machine.store.getLocal? scope name = some value →
      rules.Sound machine value
  fields : ∀ bindings ∈ machine.fields, ∀ name value,
    bindings.get? name = some value → rules.Sound machine value

/-- The current scope is as the code of a place takes it to be. -/
abbrev At (site : rules.Site) (machine : Machine) : Prop :=
  rules.Stands machine.store machine.current site

/-- Scopes become others that are in order. -/
structure Steps (store later : Store) : Prop where
  orderly : rules.Orderly later
  grows : rules.Grows store later

/-- A new scope is in order, and as the code of a place takes it to be. -/
structure Enters (store : Store) (scope : Scope) (site : rules.Site) : Prop
    extends rules.Steps store (store.push scope) where
  stands : rules.Stands (store.push scope) store.size site

/--
The laws of a rules.  Each is about one step; the last ones before the
calls are about the scopes a statement makes and the names it binds.
-/
structure Lawful (access : Access) : Prop where
  part : ∀ {site value part}, rules.Admits site value →
    part ∈ value.parts → rules.Admits site part
  read : ∀ {site machine id name}, rules.Admits site (.name id name) →
    rules.Keeps machine → rules.At site machine →
      access.read id name machine = readVariable id name machine
  receiver : ∀ {site machine id keyword},
    rules.Admits site (.receiver id keyword) → rules.Keeps machine →
    rules.At site machine →
      access.read id keyword machine = readVariable id keyword machine
  write : ∀ {site machine id target value}, rules.Admits site (.assign id target value) →
    rules.Keeps machine → rules.At site machine → ∀ assigned,
      access.write id target assigned machine = writeVariable id target assigned machine
  raises : ∀ {site value fault token}, rules.Admits site value →
    value.Raises fault token → rules.Excuses fault token
  rebind : ∀ {site machine id target value}, rules.Admits site (.assign id target value) →
    rules.Keeps machine → rules.At site machine →
    ∀ scope, machine.target? id target.lexeme = some scope → ∀ assigned,
      rules.Steps machine.store (machine.store.define scope target.lexeme assigned)
  operand : ∀ {site statement value}, rules.Allows site statement →
    value ∈ statement.operands → ∃ inner, rules.Admits inner value ∧
        ∀ store scope, rules.Stands store scope site → rules.Stands store scope inner
  branch : ∀ {site statement branch}, rules.Allows site statement →
    branch ∈ statement.branches →
      rules.Allows site branch ∧ rules.after site branch = site
  unchanged : ∀ {site statement}, rules.Allows site statement →
    statement.declared = [] → rules.after site statement = site
  returns : ∀ {site keyword value}, rules.Allows site (.returnValue keyword value) →
      rules.Returns site
  first : ∀ {site statement statements}, rules.AllowsAll site (statement :: statements) →
      rules.Allows site statement
  rest : ∀ {site statement statements}, rules.AllowsAll site (statement :: statements) →
      rules.AllowsAll (rules.after site statement) statements
  returns_after : ∀ {site statement}, rules.Returns (rules.after site statement) →
      rules.Returns site
  define : ∀ {site statement name store scope},
    rules.Allows site statement → name ∈ statement.declared →
    rules.Orderly store → rules.Stands store scope site → ∀ value,
      rules.Steps store (store.define scope name.lexeme value) ∧
        rules.Stands (store.define scope name.lexeme value) scope
          (rules.after site statement)
  block : ∀ {site body}, rules.Allows site (.block body) →
    ∃ inner, rules.AllowsAll inner body ∧
      (rules.Returns inner → rules.Returns site) ∧
      ∀ store scope, rules.Orderly store → rules.Stands store scope site →
          rules.Enters store ⟨.empty, some scope⟩ inner
  function : ∀ {site declaration store scope}, rules.Allows site (.funDecl declaration) →
    rules.Stands store scope (rules.after site (.funDecl declaration)) →
      rules.Callable store ⟨declaration, scope, false⟩
  method : ∀ {site name superclass methods store scope},
    rules.Allows site (.classDecl name superclass methods) → rules.Stands store scope
      (rules.after site (.classDecl name superclass methods)) →
    ∀ declaration ∈ methods, ∀ isInitializer,
      rules.Bindable store ⟨declaration, scope, isInitializer⟩
  inherits : ∀ {site name superclass methods},
    rules.Allows site (.classDecl name (some superclass) methods) →
      rules.Excuses .superclassNotClass (superclassToken name superclass)
  call : ∀ {store closure arguments}, rules.Callable store closure →
    rules.Orderly store → arguments.length = closure.arity →
      ∃ inner, rules.AllowsAll inner closure.declaration.body ∧ rules.Enters store
          ⟨closure.argumentBindings arguments, some closure.scope⟩ inner
  bind : ∀ {store method}, rules.Bindable store method → rules.Orderly store → ∀ receiver,
      let scope : Scope :=
        ⟨Bindings.empty.set "this" receiver, some method.scope⟩
      rules.Steps store (store.push scope) ∧ rules.Callable (store.push scope)
          { method with scope := store.size }

end

/-! ## Values and machines -/

theorem SoundClass.grow {grown : Store} {value : Class} (sound : rules.SoundClass store value)
    (grows : rules.Grows store grown) : rules.SoundClass grown value :=
  ⟨sound.1, fun layer mem entry method =>
    rules.bindable_grow grows (sound.2 layer mem entry method)⟩

/-- A sound value stays so as scopes grow. -/
theorem Sound.grow {value : Value} (sound : rules.Sound machine value)
    (grows : rules.Grows machine.store later.store)
    (count_le : machine.fields.size ≤ later.fields.size) : rules.Sound later value := by
  cases value with
  | function identity closure => exact rules.callable_grow grows sound
  | classValue value => exact SoundClass.grow sound grows
  | object identity origin =>
    exact ⟨fun counts => Nat.lt_of_lt_of_le (sound.1 counts) count_le,
      SoundClass.grow sound.2 grows⟩
  | _ => trivial

theorem sound_ofLiteral (rules : Discipline) (machine : Machine) (literal : Literal) :
    rules.Sound machine (Value.ofLiteral literal) := by
  cases literal <;> trivial

/-- Methods of a sound class may be bound. -/
theorem SoundClass.findMethod? {value : Class} (sound : rules.SoundClass store value)
    {method : Closure} (found : value.findMethod? name = some method) :
    rules.Bindable store method := by
  rcases exists_of_findSome?_eq_some found with ⟨layer, mem, found⟩
  rcases lookup_eq_some_iff.mp found with ⟨before, after, split, _⟩
  refine sound.2 layer mem (name, method) ?_
  rw [← mem_reverse, split]
  simp

theorem sound_of_unary {kind : TokenKind} {operand : Value}
    (computed : Operator.unary kind operand = .ok value) : rules.Sound machine value := by
  unfold Operator.unary at computed
  split at computed <;> cases computed <;> trivial

theorem sound_of_binary {kind : TokenKind} {left right : Value}
    (computed : Operator.binary kind left right = .ok value) : rules.Sound machine value := by
  unfold Operator.binary Operator.sum Operator.arithmetic at computed
  repeat' split at computed
  all_goals cases computed <;> trivial

/-- A call that is checked brings as many arguments as it takes. -/
theorem soundCallee_of_checkCall {callee : Value} {called : Callee} {given : Nat}
    (sound : rules.Sound machine callee) (checked : checkCall callee given = .ok called) :
    rules.SoundCallee machine.store called ∧ given = called.arity := by
  unfold checkCall at checked
  split at checked
  · cases checked
  · next callable found =>
    split at checked
    · next enough =>
      cases checked
      refine ⟨?_, enough⟩
      cases callee <;> cases found <;> exact sound
    · cases checked

/-- A later machine keeps the discipline, in the same scope, and has grown. -/
structure Leads (rules : Discipline) (machine later : Machine) :
    Prop where
  keeps : rules.Keeps later
  current : later.current = machine.current
  grows : rules.Grows machine.store later.store
  count_le : machine.fields.size ≤ later.fields.size

section

variable {last : Machine}

theorem Leads.trans (leads : rules.Leads machine later) (further : rules.Leads later last) :
    rules.Leads machine last where
  keeps := further.keeps
  current := further.current.trans leads.current
  grows := rules.grows_trans leads.grows further.grows
  count_le := Nat.le_trans leads.count_le further.count_le

/-- A place is still stood at after a computation. -/
theorem Leads.stands (leads : rules.Leads machine later) {site : rules.Site}
    (stands : rules.At site machine) :
    rules.At site later := by
  unfold At
  rw [leads.current]
  exact rules.stands_grow leads.grows stands

theorem Leads.sound (leads : rules.Leads machine later) {value : Value}
    (sound : rules.Sound machine value) : rules.Sound later value :=
  sound.grow leads.grows leads.count_le

end

section

variable (keeps : rules.Keeps machine)

include keeps

theorem Keeps.leads : rules.Leads machine machine :=
  ⟨keeps, rfl, rules.grows_refl _, Nat.le_refl _⟩

/-- All that a machine holds is sound. -/
theorem Keeps.held (held : machine.Holds value) : rules.Sound machine value := by
  cases held with
  | bound found => exact keeps.bound _ _ value found
  | field mem found => exact keeps.fields _ mem _ value found

section

variable (distances : later.distances = machine.distances)
  (globals : later.globals = machine.globals)

include distances globals

/-- What a machine holds was held before or is sound. -/
theorem Keeps.grow (steps : rules.Steps machine.store later.store)
    (count_le : machine.fields.size ≤ later.fields.size)
    (held : ∀ value, later.Holds value → machine.Holds value ∨ rules.Sound later value) :
    rules.Keeps later := by
  have sound (value : Value) (holds : later.Holds value) : rules.Sound later value := by
    rcases held value holds with before | sound
    · exact (keeps.held before).grow steps.grows count_le
    · exact sound
  exact ⟨distances.trans keeps.distances, globals.trans keeps.globals, steps.orderly,
    fun _ _ value found => sound value (.bound found),
    fun _ mem _ value found => sound value (.field mem found)⟩

/-- Nothing but the scopes and the fields holds values. -/
theorem Keeps.congr (store : later.store = machine.store) (fields : later.fields = machine.fields) :
    rules.Keeps later := by
  refine keeps.grow distances globals ?_ ?_ ?_
  · rw [store]
    exact ⟨keeps.orderly, rules.grows_refl _⟩
  · rw [fields]
  · intro value held
    left
    cases held with
    | bound found =>
      rw [store] at found
      exact .bound found
    | field mem found =>
      rw [fields] at mem
      exact .field mem found

end

/-- Binding a sound value keeps the discipline. -/
theorem Keeps.define {scope : ScopeId} {name : String} {value : Value}
    (steps : rules.Steps machine.store (machine.store.define scope name value))
    (sound : rules.Sound { machine with store := machine.store.define scope name value } value) :
    rules.Leads machine { machine with store := machine.store.define scope name value } := by
  refine ⟨keeps.grow rfl rfl steps (Nat.le_refl _) ?_, rfl, steps.grows, Nat.le_refl _⟩
  intro value held
  cases held with
  | bound found =>
    rw [Store.getLocal?_define] at found
    split at found
    · cases found
      exact .inr sound
    · exact .inl (.bound found)
  | field mem found => exact .inl (.field mem found)

/-- A new scope with sound values keeps the discipline. -/
theorem Keeps.push {scope : Scope}
    (steps : rules.Steps machine.store (machine.store.push scope))
    (sound : ∀ name value, scope.bindings.get? name = some value → rules.Sound machine value) :
    rules.Leads machine { machine with store := machine.store.push scope } := by
  refine ⟨keeps.grow rfl rfl steps (Nat.le_refl _) ?_, rfl, steps.grows, Nat.le_refl _⟩
  intro value held
  cases held with
  | bound found =>
    rw [Store.getLocal?_push] at found
    split at found
    · exact .inr ((sound _ value found).grow steps.grows (Nat.le_refl _))
    · exact .inl (.bound found)
  | field mem found => exact .inl (.field mem found)

end

/-! ## Computations that agree -/

section

variable {α β : Type}

/-- A fault is excused.  A return is allowed or not; the value it brings is sound. -/
def Permits (rules : Discipline) (machine : Machine) (returns : Prop) :
    Signal → Prop
  | .fault fault token => rules.Excuses fault token
  | .returned value => returns ∧ rules.Sound machine value
  | _ => True

/-- How a computation may end, seen from the machine it started on. -/
def Ends (rules : Discipline) (machine : Machine)
    (post : Machine → α → Prop) (returns : Prop) :
    EStateM.Result Signal Machine α → Prop
  | .ok value later => rules.Leads machine later ∧ post later value
  | .error signal later =>
    rules.Leads machine later ∧ rules.Permits later returns signal

/-- Two computations do the same on a machine and keep the rules. -/
structure Agree (rules : Discipline) (checked plain : Run α)
    (machine : Machine) (post : Machine → α → Prop) (returns : Prop) :
    Prop where
  same : checked machine = plain machine
  ends : rules.Ends machine post returns (plain machine)

variable {checked plain : Run α} {post : Machine → α → Prop} {returns : Prop}

section

variable {result : EStateM.Result Signal Machine α} (ends : rules.Ends machine post returns result)

include ends

theorem Ends.leads : rules.Leads machine (Machine.final result) := by
  cases result with
  | ok value later | error signal later => exact ends.1

theorem Ends.of_ok {value : α} (ran : result = .ok value later) :
    rules.Leads machine later ∧ post later value := by
  rw [ran] at ends
  exact ends

/-- How a computation may end can be said more weakly. -/
theorem Ends.imp {further : Machine → α → Prop} {allowed : Prop}
    (implies : ∀ later value, rules.Leads machine later → post later value → further later value)
    (allows : returns → allowed) : rules.Ends machine further allowed result := by
  cases result with
  | ok value later => exact ⟨ends.1, implies later value ends.1 ends.2⟩
  | error signal later =>
    refine ⟨ends.1, ?_⟩
    cases signal with
    | fault fault token => exact ends.2
    | returned value => exact ⟨allows ends.2.1, ends.2.2⟩
    | _ => trivial

end

/-- What follows a computation may rely on how it ran. -/
theorem Ends.bind {comp : Run α} {next : α → Run β} {further : Machine → β → Prop}
    (ends : rules.Ends machine post returns (comp machine))
    (continues : ∀ later value, comp machine = .ok value later → rules.Leads machine later →
      post later value → rules.Ends later further returns (next value later)) :
    rules.Ends machine further returns ((comp >>= next) machine) := by
  cases ran : comp machine with
  | ok value later =>
    rw [ran] at ends
    rw [bind_of_ok ran]
    have rest := continues later value ran ends.1 ends.2
    cases finished : next value later with
    | ok result last | error signal last =>
      rw [finished] at rest
      exact ⟨ends.1.trans rest.1, rest.2⟩
  | error signal later =>
    rw [ran] at ends
    simp only [Bind.bind, EStateM.bind, ran]
    exact ends

theorem Agree.imp {further : Machine → α → Prop} {allowed : Prop}
    (agree : rules.Agree checked plain machine post returns)
    (implies : ∀ later value, rules.Leads machine later →
      post later value → further later value) (allows : returns → allowed) :
    rules.Agree checked plain machine further allowed :=
  ⟨agree.same, agree.ends.imp implies allows⟩

/-- Computations that agree do so one after the other. -/
theorem Agree.bind {next next' : α → Run β} {further : Machine → β → Prop}
    (agree : rules.Agree checked plain machine post returns)
    (continues : ∀ later value, plain machine = .ok value later → rules.Leads machine later →
      post later value → rules.Agree (next value) (next' value) later further returns) :
    rules.Agree (checked >>= next) (plain >>= next') machine further returns := by
  refine ⟨?_, agree.ends.bind fun later value ran leads holds =>
    (continues later value ran leads holds).ends⟩
  simp only [Bind.bind, EStateM.bind, agree.same]
  cases ran : plain machine with
  | ok value later =>
    rcases agree.ends.of_ok ran with ⟨leads, holds⟩
    exact (continues later value ran leads holds).same
  | error signal later => rfl

/-- Computations that agree do so in another scope. -/
theorem Agree.within (scope : ScopeId)
    (inner : rules.Agree checked plain { machine with current := scope } post returns) :
    rules.Agree (Run.within scope checked) (Run.within scope plain)
      machine (fun _ _ => True) returns := by
  have ends := inner.ends
  constructor
  · simp only [Run.within, inner.same]
  · unfold Run.within
    cases ran : plain { machine with current := scope } with
    | ok value later =>
      rw [ran] at ends
      exact ⟨⟨ends.1.keeps.congr rfl rfl rfl rfl, rfl, ends.1.grows, ends.1.count_le⟩, trivial⟩
    | error signal later =>
      rw [ran] at ends
      exact ⟨⟨ends.1.keeps.congr rfl rfl rfl rfl, rfl, ends.1.grows, ends.1.count_le⟩, ends.2⟩

/-- A call yields what its body returned, or the receiver. -/
theorem Agree.finishCall {checked plain : Run Unit} (closure : Closure)
    (body : rules.Agree checked plain machine (fun _ _ => True) True) :
    rules.Agree (Run.finishCall closure checked) (Run.finishCall closure plain) machine
      rules.Sound returns := by
  have ends := body.ends
  have outcome_sound (later : Machine) (keeps : rules.Keeps later)
      (returned : Value) (sound : rules.Sound later returned) :
      rules.Sound later (closure.outcome later.store returned) := by
    unfold Closure.outcome Closure.receiver
    split
    · cases bound : later.store.getLocal? closure.scope "this" with
      | none => trivial
      | some receiver => exact keeps.bound _ _ receiver bound
    · exact sound
  constructor
  · simp only [Run.finishCall, body.same]
  · unfold Run.finishCall
    cases ran : plain machine with
    | ok value later =>
      rw [ran] at ends
      exact ⟨ends.1, outcome_sound later ends.1.keeps .nil trivial⟩
    | error signal later =>
      rw [ran] at ends
      cases signal with
      | returned value => exact ⟨ends.1, outcome_sound later ends.1.keeps value ends.2.2⟩
      | _ => exact ends

end

/-! ## Steps of the machine -/

section

variable {α : Type} {access : Access} {site : rules.Site} {post : Machine → α → Prop}
  {returns : Prop} (keeps : rules.Keeps machine)

include keeps

/-- A step of an operator yields what holds or is excused. -/
theorem ends_orRaise {token : Token} {result : Except Fault α}
    (holds : ∀ value, result = .ok value → post machine value)
    (excused : ∀ fault, result = .error fault → rules.Excuses fault token) :
    rules.Ends machine post returns (orRaise token result machine) := by
  cases result with
  | ok value => exact ⟨keeps.leads, holds value rfl⟩
  | error fault => exact ⟨keeps.leads, excused fault rfl⟩

theorem ends_defineHere {later : rules.Site} (defined :
      rules.Steps machine.store (machine.store.define machine.current name value) ∧
        rules.Stands (machine.store.define machine.current name value) machine.current later)
    (sound : rules.Sound
      { machine with store := machine.store.define machine.current name value } value) :
    rules.Ends machine (fun last _ => rules.At later last) returns
      (defineHere name value machine) :=
  ⟨keeps.define defined.1 sound, defined.2⟩

/-- An instance is sound if its class is. -/
theorem ends_newObject {origin : Class} (sound : rules.SoundClass machine.store origin) :
    rules.Ends machine rules.Sound returns (newObject origin machine) := by
  have more : machine.fields.size < (machine.fields.push .empty).size := by
    rw [Array.size_push]
    exact Nat.lt_succ_self _
  have steps : rules.Steps machine.store machine.store := ⟨keeps.orderly, rules.grows_refl _⟩
  refine ⟨⟨keeps.grow rfl rfl steps (Nat.le_of_lt more) ?_, rfl, rules.grows_refl _,
    Nat.le_of_lt more⟩, fun _ => more, sound⟩
  intro value held
  cases held with
  | bound found => exact .inl (.bound found)
  | field mem found =>
    rcases Array.mem_push.mp mem with mem | rfl
    · exact .inl (.field mem found)
    · cases found

/-- A sound value may be assigned to a field. -/
theorem ends_setField (identity : Nat) (name : String) (sound : rules.Sound machine value) :
    rules.Ends machine (fun _ _ => True) returns (setField identity name value machine) := by
  have same : (machine.fields.modify identity fun bindings =>
      bindings.set name value).size = machine.fields.size :=
    Array.size_modify
  have steps : rules.Steps machine.store machine.store := ⟨keeps.orderly, rules.grows_refl _⟩
  refine ⟨⟨keeps.grow rfl rfl steps (Nat.le_of_eq same.symm) ?_, rfl, rules.grows_refl _,
    Nat.le_of_eq same.symm⟩, trivial⟩
  intro other held
  cases held with
  | bound found => exact .inl (.bound found)
  | field mem found =>
    rcases Array.mem_iff_getElem?.mp mem with ⟨index, existing⟩
    rw [Array.getElem?_modify] at existing
    split at existing
    · rcases Option.map_eq_some_iff.mp existing with ⟨former, present, rfl⟩
      rw [Bindings.get?_set] at found
      split at found
      · cases found
        exact .inr (sound.grow (rules.grows_refl _) (Nat.le_of_eq same.symm))
      · exact .inl (.field (Array.mem_of_getElem? present) found)
    · exact .inl (.field (Array.mem_of_getElem? existing) found)

theorem ends_printLine (text : String) :
    rules.Ends machine (fun _ _ => True) returns (printLine text machine) := by
  unfold printLine write
  simp only
  split <;>
    exact ⟨⟨keeps.congr rfl rfl rfl rfl, rfl, rules.grows_refl _, Nat.le_refl _⟩, trivial⟩

theorem ends_newFunction (closure : Closure) :
    rules.Ends machine (fun later value => later.store = machine.store ∧
      ∃ identity, value = .function identity closure) returns (newFunction closure machine) :=
  ⟨⟨keeps.congr rfl rfl rfl rfl, rfl, rules.grows_refl _, Nat.le_refl _⟩, rfl, _, rfl⟩

/-- What is read is sound, and a missing name is excused. -/
theorem ends_readIn {target : Option ScopeId} {name : Token}
    (excused : rules.Excuses (.undefinedVariable name.lexeme) name) :
    rules.Ends machine rules.Sound returns (readIn target name machine) := by
  unfold readIn
  split
  · next value found =>
    rcases Option.bind_eq_some_iff.mp found with ⟨scope, _, bound⟩
    exact ⟨keeps.leads, keeps.bound scope name.lexeme value bound⟩
  · exact ⟨keeps.leads, excused⟩

/-- A sound value may be assigned to a name. -/
theorem ends_writeIn {target : Option ScopeId} {name : Token}
    (steps : ∀ scope, target = some scope → rules.Steps machine.store
        (machine.store.define scope name.lexeme value)) (sound : rules.Sound machine value)
    (excused : rules.Excuses (.undefinedVariable name.lexeme) name) :
    rules.Ends machine (fun _ _ => True) returns (writeIn target name value machine) := by
  unfold writeIn
  split
  · next scope =>
    have steps := steps scope rfl
    exact ⟨keeps.define steps (sound.grow steps.grows (Nat.le_refl _)), trivial⟩
  · exact ⟨keeps.leads, excused⟩

/-- A method that may be bound may be called when it is. -/
theorem ends_bindReceiver (lawful : rules.Lawful access) {method : Closure} {receiver : Value}
    (bindable : rules.Bindable machine.store method) (sound : rules.Sound machine receiver) :
    rules.Ends machine
      (fun later closure => rules.Callable later.store closure ∧ closure.arity = method.arity)
      returns (bindReceiver method receiver machine) := by
  rcases lawful.bind bindable keeps.orderly receiver with ⟨steps, callable⟩
  refine ⟨keeps.push steps ?_, callable, rfl⟩
  intro name value bound
  rw [Bindings.get?_set] at bound
  split at bound
  · cases bound
    exact sound
  · cases bound

/-- A property is a sound value or a bound method. -/
theorem ends_readProperty (lawful : rules.Lawful access) {owner : Expr} {property : Token}
    (admits : rules.Admits site (.get owner property)) {object : Value}
    (sound : rules.Sound machine object) :
    rules.Ends machine rules.Sound returns (readProperty object property machine) := by
  cases object with
  | object identity origin =>
    have field : rules.Ends machine (fun later found => ∀ value, found = some value →
        rules.Sound later value) returns (field? identity property.lexeme machine) := by
      refine ⟨keeps.leads, ?_⟩
      intro value found
      split at found
      · next bindings existing =>
        exact keeps.fields bindings (Array.mem_of_getElem? existing) _ value found
      · cases found
    apply field.bind
    intro later found _ leads found_sound
    cases found with
    | some value => exact ⟨leads.keeps.leads, found_sound value rfl⟩
    | none =>
      simp only
      cases method : origin.findMethod? property.lexeme with
      | none => exact ⟨leads.keeps.leads, lawful.raises admits ⟨rfl, .inl rfl⟩⟩
      | some closure =>
        have later_sound := leads.sound sound
        apply (ends_bindReceiver leads.keeps lawful (SoundClass.findMethod? later_sound.2 method)
          later_sound).bind
        intro last bound _ further callable
        apply (ends_newFunction further.keeps bound).imp _ id
        rintro final value _ ⟨same, identity, rfl⟩
        show rules.Callable final.store bound
        rw [same]
        exact callable.1
  | _ => exact ⟨keeps.leads, lawful.raises admits ⟨rfl, .inr rfl⟩⟩

end

/-! ## Tasks under a discipline -/

section

variable (rules)

/-- A task may be begun at a place. -/
def Fits (site : rules.Site) (machine : Machine) : Task → Prop
  | .evaluate value =>
    rules.At site machine ∧ rules.Admits site value
  | .evaluateAll values =>
    rules.At site machine ∧
      ∀ value ∈ values, rules.Admits site value
  | .invoke callee arguments =>
    rules.SoundCallee machine.store callee ∧
      (∀ argument ∈ arguments, rules.Sound machine argument) ∧
      arguments.length = callee.arity
  | .apply closure arguments =>
    rules.Callable machine.store closure ∧
      (∀ argument ∈ arguments, rules.Sound machine argument) ∧
      arguments.length = closure.arity
  | .execute statement =>
    rules.At site machine ∧ rules.Allows site statement
  | .executeAll statements =>
    rules.At site machine ∧ rules.AllowsAll site statements

/-- What a task yields is sound, and a statement leads to the place after it. -/
def Yields (site : rules.Site) :
    (task : Task) → Machine → task.Result → Prop
  | .evaluate _ => rules.Sound
  | .evaluateAll _ => fun later results => ∀ result ∈ results, rules.Sound later result
  | .invoke _ _ => rules.Sound
  | .apply _ _ => rules.Sound
  | .execute statement => fun later _ =>
    rules.At (rules.after site statement) later
  | .executeAll _ => fun _ _ => True

/-- A task may end with a return. -/
def Leaves (site : rules.Site) : Task → Prop
  | .execute _ => rules.Returns site
  | .executeAll _ => rules.Returns site
  | _ => False

/-- A task that is begun fits the machine it is begun on. -/
structure Hosts (machine : Machine) (task : Task) : Prop where
  keeps : rules.Keeps machine
  fits : ∃ site, rules.Fits site machine task

/-- Wherever a task fits, it is done alike in both ways of access. -/
def Safe (access : Access) (fuel : Nat) (task : Task)
    (machine : Machine) : Prop :=
  ∀ site, rules.Keeps machine → rules.Fits site machine task →
    rules.Agree (task.run access fuel) (task.run .recorded fuel) machine
      (rules.Yields site task) (rules.Leaves site task)

/-- A step begins a task that fits and, if that is safe, keeps the rules. -/
structure Obeys (access : Access) (fuel : Nat) {α : Type}
    (post : Machine → α → Prop) (returns : Prop) (machine : Machine) (step : Step α) : Prop where
  hosts : ∀ inner ∈ step.begun machine, rules.Hosts inner.2 inner.1 ∧
    rules.Grows machine.store inner.2.store
  agrees : (∀ inner ∈ step.begun machine, rules.Safe access fuel inner.1 inner.2) →
    rules.Agree (step.run access fuel) (step.run .recorded fuel) machine post returns

/-- A plan keeps to a discipline, step by step. -/
inductive Follows (access : Access) (fuel : Nat) {α : Type}
    (post : Machine → α → Prop) (returns : Prop) : Machine → Plan α → Prop where
  | done {machine later : Machine} {value : α} : rules.Leads machine later →
      post later value → Follows access fuel post returns later (.done value)
  | step {machine : Machine} {β : Type} {first : Step β} {next : β → Plan α}
      {between : Machine → β → Prop} :
      rules.Obeys access fuel between returns machine first →
      (∀ later value, first.run .recorded fuel machine = .ok value later →
        rules.Leads machine later → between later value →
        Follows access fuel post returns later (next value)) →
      Follows access fuel post returns machine (.step first next)

end

section

variable {α β : Type} {access : Access} {fuel : Nat} {post : Machine → α → Prop} {returns : Prop}
  {plan : Plan α}

/-- A plan that follows the discipline agrees if its tasks do. -/
theorem Follows.agree (follows : rules.Follows access fuel post returns machine plan)
    (safe : ∀ inner ∈ plan.steps fuel machine, rules.Safe access fuel inner.1 inner.2) :
    rules.Agree (plan.run access fuel) (plan.run .recorded fuel) machine post returns := by
  induction follows with
  | done leads holds => exact ⟨rfl, leads.keeps.leads, holds⟩
  | step obeys _ ih =>
    refine (obeys.agrees fun inner mem => safe inner ?_).bind ?_
    · exact mem_append_left _ (Option.mem_toList.mpr mem)
    · intro later value ran leads holds
      apply ih later value ran leads holds
      intro inner mem
      exact safe inner (mem_append_right _ (Task.mem_entered.mpr ⟨value, later, ran, mem⟩))

/-- A task that is begun fits, and the one that begins it goes on from what it leaves. -/
structure Begun (rules : Discipline) (fuel : Nat) (machine : Machine) (inner : Task)
    (later last : Machine) : Prop where
  hosts : rules.Hosts later inner
  grows : rules.Grows machine.store later.store
  resumes : rules.Grows (inner.after fuel later).store last.store

/-- A plan that follows the discipline begins tasks that fit. -/
theorem Follows.begun (follows : rules.Follows access fuel post returns machine plan)
    (safe : ∀ inner ∈ plan.steps fuel machine, rules.Safe access fuel inner.1 inner.2)
    {inner : Task × Machine} (mem : inner ∈ plan.steps fuel machine) :
    rules.Begun fuel machine inner.1 inner.2
      (Machine.final (plan.run .recorded fuel machine)) := by
  induction follows with
  | done _ _ => cases mem
  | @step machine β first next _ obeys continues ih =>
    have agree := obeys.agrees fun inner mem =>
      safe inner (mem_append_left _ (Option.mem_toList.mpr mem))
    have safe_next {later : Machine} {value : β}
        (ran : first.run .recorded fuel machine = .ok value later) (inner : Task × Machine)
        (mem : inner ∈ (next value).steps fuel later) : rules.Safe access fuel inner.1 inner.2 :=
      safe inner (mem_append_right _ (Task.mem_entered.mpr ⟨value, later, ran, mem⟩))
    rcases mem_append.mp mem with mem | mem
    · have mem := Option.mem_toList.mp mem
      refine ⟨(obeys.hosts inner mem).1, (obeys.hosts inner mem).2, ?_⟩
      rw [Step.store_after mem, Plan.run]
      cases ran : first.run .recorded fuel machine with
      | ok value later =>
        rcases agree.ends.of_ok ran with ⟨leads, holds⟩
        rw [bind_of_ok ran]
        exact ((continues later value ran leads holds).agree (safe_next ran)).ends.leads.grows
      | error signal later =>
        simp only [Bind.bind, EStateM.bind, ran]
        exact rules.grows_refl _
    · rcases Task.mem_entered.mp mem with ⟨value, later, ran, mem⟩
      rcases agree.ends.of_ok ran with ⟨leads, holds⟩
      have begun := ih later value ran leads holds (safe_next ran) mem
      refine ⟨begun.hosts, rules.grows_trans leads.grows begun.grows, ?_⟩
      rw [Plan.run, bind_of_ok ran]
      exact begun.resumes

/-! ### Single steps -/

section

variable {next : β → Plan α} {between : Machine → β → Prop} {site : rules.Site}

theorem Follows.own {comp : Access → Run β}
    (agree : rules.Agree (comp access) (comp .recorded) machine between returns)
    (continues : ∀ later value, comp .recorded machine = .ok value later →
      rules.Leads machine later → between later value →
      rules.Follows access fuel post returns later (next value)) :
    rules.Follows access fuel post returns machine (.step (.own comp) next) :=
  .step ⟨by rintro _ ⟨⟩, fun _ => agree⟩ continues

theorem Follows.does {comp : Run β} (ends : rules.Ends machine between returns (comp machine))
    (continues : ∀ later value, comp machine = .ok value later →
      rules.Leads machine later → between later value →
      rules.Follows access fuel post returns later (next value)) :
    rules.Follows access fuel post returns machine (.own comp next) :=
  .own ⟨rfl, ends⟩ continues

theorem Follows.passes {comp : Run β}
    (ends : rules.Ends machine (fun _ _ => True) returns (comp machine))
    (continues : ∀ later value, comp machine = .ok value later →
      rules.Leads machine later → rules.Follows access fuel post returns later (next value)) :
    rules.Follows access fuel post returns machine (.own comp next) :=
  .does ends fun later value ran leads _ => continues later value ran leads

theorem Follows.last {comp : Run α} (ends : rules.Ends machine post returns (comp machine)) :
    rules.Follows access fuel post returns machine (.last comp) :=
  .does ends fun _ _ _ => .done

variable (keeps : rules.Keeps machine)

include keeps

/-- A plan may begin a task that fits. -/
theorem Follows.start {task : Task} {next : task.Result → Plan α}
    (fits : rules.Fits site machine task) (leaves : rules.Leaves site task → returns)
    (continues : ∀ later value, task.run .recorded fuel machine = .ok value later →
      rules.Leads machine later → rules.Yields site task later value →
      rules.Follows access fuel post returns later (next value)) :
    rules.Follows access fuel post returns machine (.start task next) := by
  refine .step ⟨?_, ?_⟩ continues
  · rintro _ ⟨⟩
    exact ⟨⟨keeps, site, fits⟩, rules.grows_refl _⟩
  · intro safe
    exact (safe _ rfl site keeps fits).imp (fun _ _ _ holds => holds) leaves

theorem Follows.evaluate {value : Expr} {next : Value → Plan α}
    (stands : rules.At site machine) (admits : rules.Admits site value)
    (continues : ∀ later result, evaluateWith .recorded fuel value machine = .ok result later →
      rules.Leads machine later → rules.Sound later result →
      rules.Follows access fuel post returns later (next result)) :
    rules.Follows access fuel post returns machine (.start (.evaluate value) next) :=
  .start keeps ⟨stands, admits⟩ False.elim continues

/-- A plan may enter a block that fits. -/
theorem Follows.enter {scope : ScopeId} {body : List Stmt} {next : Unit → Plan α}
    (fits : rules.Fits site { machine with current := scope } (.executeAll body))
    (leaves : rules.Returns site → returns)
    (continues : ∀ later, rules.Leads machine later →
      rules.Follows access fuel post returns later (next ())) :
    rules.Follows access fuel post returns machine (.step (.enter scope body) next) := by
  have inside : rules.Keeps { machine with current := scope } := keeps.congr rfl rfl rfl rfl
  have obeys : rules.Obeys access fuel (fun _ _ => True) returns machine (.enter scope body) := by
    constructor
    · rintro _ ⟨⟩
      exact ⟨⟨inside, site, fits⟩, rules.grows_refl _⟩
    · intro safe
      exact ((safe _ rfl site inside fits).within scope).imp (fun _ _ _ holds => holds) leaves
  exact .step obeys fun later _ _ leads _ => continues later leads

/-- A plan may call a closure whose body fits. -/
theorem Follows.call {closure : Closure} {scope : ScopeId}
    (fits : rules.Fits site { machine with current := scope }
      (.executeAll closure.declaration.body)) :
    rules.Follows access fuel rules.Sound returns machine (.step (.call closure scope) .done) := by
  have inside : rules.Keeps { machine with current := scope } := keeps.congr rfl rfl rfl rfl
  refine .step ⟨?_, ?_⟩ fun _ _ _ => .done
  · rintro _ ⟨⟩
    exact ⟨⟨inside, site, fits⟩, rules.grows_refl _⟩
  · intro safe
    exact Agree.finishCall closure (((safe _ rfl site inside fits).within scope).imp
      (fun _ _ _ _ => trivial) fun _ => trivial)

end

end

/-! ## Plans follow the discipline -/

section

variable {access : Access} {site : rules.Site} {fuel : Nat}

theorem Keeps.follows_evaluateAll {values : List Expr} (keeps : rules.Keeps machine)
    (fits : rules.Fits site machine (.evaluateAll values)) :
    rules.Follows access fuel (rules.Yields site (.evaluateAll values)) False machine
      (Task.evaluateAll values).plan := by
  rcases fits with ⟨stands, admits⟩
  cases values with
  | nil => exact .done keeps.leads fun _ mem => absurd mem not_mem_nil
  | cons first others =>
    refine .evaluate keeps stands (admits first (.head _)) ?_
    intro later value _ leads sound
    have fits : rules.Fits site later (.evaluateAll others) :=
      ⟨leads.stands stands, fun other mem => admits other (.tail _ mem)⟩
    refine .start leads.keeps fits False.elim ?_
    intro last values _ further values_sound
    refine .done further ?_
    intro result mem
    rcases mem_cons.mp mem with rfl | mem
    · exact further.sound sound
    · exact values_sound result mem

section

variable (lawful : rules.Lawful access) (keeps : rules.Keeps machine)

include lawful keeps

/-- Expressions are evaluated part by part. -/
theorem Lawful.follows_evaluate {value : Expr}
    (stands : rules.At site machine) (admits : rules.Admits site value) :
    rules.Follows access fuel rules.Sound False machine value.plan := by
  have part (inner : Expr) (mem : inner ∈ value.parts) : rules.Admits site inner :=
    lawful.part admits mem
  cases value with
  | literal value => exact .done keeps.leads (sound_ofLiteral _ _ value)
  | grouping inner => exact .evaluate keeps stands (part inner (.head _)) fun _ _ _ => .done
  | unary op operand =>
    refine .evaluate keeps stands (part operand (.head _)) ?_
    intro later value _ leads _
    exact .last (ends_orRaise leads.keeps (fun _ => sound_of_unary)
      fun _ refused => lawful.raises admits ⟨rfl, value, refused⟩)
  | binary left op right =>
    refine .evaluate keeps stands (part left (.head _)) ?_
    intro later value _ leads _
    refine .evaluate leads.keeps (leads.stands stands) (part right (.tail _ (.head _))) ?_
    intro last other _ further _
    exact .last (ends_orRaise further.keeps (fun _ => sound_of_binary)
      fun _ refused => lawful.raises admits ⟨rfl, value, other, refused⟩)
  | logical left op right =>
    refine .evaluate keeps stands (part left (.head _)) ?_
    intro later value _ leads sound
    split
    · exact .done leads sound
    · exact .evaluate leads.keeps (leads.stands stands) (part right (.tail _ (.head _)))
        fun _ _ _ => .done
  | name id token =>
    refine .own ⟨lawful.read admits keeps stands, ?_⟩ fun _ _ _ => .done
    simp only [Access.recorded, readVariable_eq]
    exact ends_readIn keeps (lawful.raises admits ⟨rfl, rfl⟩)
  | receiver id keyword =>
    refine .own ⟨lawful.receiver admits keeps stands, ?_⟩ fun _ _ _ => .done
    simp only [Access.recorded, readVariable_eq]
    exact ends_readIn keeps (lawful.raises admits ⟨rfl, rfl⟩)
  | assign id target value =>
    refine .evaluate keeps stands (part value (.head _)) ?_
    intro later assigned _ leads sound
    have stood := leads.stands stands
    refine .own ⟨lawful.write admits leads.keeps stood assigned, ends_writeIn leads.keeps
      (fun scope found => lawful.rebind admits leads.keeps stood scope found assigned) sound
      (lawful.raises admits ⟨rfl, rfl⟩)⟩ ?_
    intro last _ _ further _
    exact .done further (further.sound sound)
  | call callee closing args =>
    refine .evaluate keeps stands (part callee (.head _)) ?_
    intro later function _ leads sound
    have fits : rules.Fits site later (.evaluateAll args) :=
      ⟨leads.stands stands, fun argument mem => part argument (.tail _ mem)⟩
    refine .start leads.keeps fits False.elim ?_
    intro last values _ further values_sound
    have checks : rules.Ends last
        (fun final called => rules.SoundCallee final.store called ∧ values.length = called.arity)
        False (orRaise closing (checkCall function values.length) last) :=
      ends_orRaise further.keeps
        (fun _ checked => soundCallee_of_checkCall (further.sound sound) checked)
        fun _ refused => lawful.raises admits ⟨rfl, function, _, refused⟩
    refine .does checks ?_
    rintro final called _ finished ⟨called_sound, given⟩
    have called_fits : rules.Fits site final (.invoke called values) :=
      ⟨called_sound, fun value mem => finished.sound (values_sound value mem), given⟩
    exact .start finished.keeps called_fits False.elim fun _ _ _ => .done
  | get object property =>
    refine .evaluate keeps stands (part object (.head _)) ?_
    intro later value _ leads sound
    exact .last (ends_readProperty leads.keeps lawful admits sound)
  | set object property value =>
    refine .evaluate keeps stands (part object (.head _)) ?_
    intro later owner _ leads _
    cases owner with
    | object identity origin =>
      refine .evaluate leads.keeps (leads.stands stands) (part value (.tail _ (.head _))) ?_
      intro last assigned _ further sound
      refine .does (ends_setField further.keeps identity property.lexeme sound) ?_
      intro final _ _ finished _
      exact .done finished (finished.sound sound)
    | _ => exact .last ⟨leads.keeps.leads, lawful.raises admits ⟨rfl, rfl⟩⟩

/-- The scope of a call holds the arguments. -/
theorem Lawful.follows_apply {closure : Closure} {args : List Value}
    (fits : rules.Fits site machine (.apply closure args)) :
    rules.Follows access fuel rules.Sound False machine (Task.apply closure args).plan := by
  rcases fits with ⟨callable, sound, given⟩
  rcases lawful.call callable keeps.orderly given with ⟨inner, allows, enters⟩
  have arguments_sound : ∀ name value, (closure.argumentBindings args).get? name = some value →
      rules.Sound machine value := by
    intro name value bound
    rcases Closure.exists_of_argumentBindings bound with ⟨_, _, _, given⟩
    exact sound value given
  refine .passes ⟨keeps.push enters.toSteps arguments_sound, trivial⟩ ?_
  rintro later scope ⟨⟩ leads
  exact .call leads.keeps ⟨enters.stands, allows⟩

/-- A class is called by making an instance and calling its initialiser. -/
theorem Lawful.follows_invoke {callee : Callee} {args : List Value}
    (fits : rules.Fits site machine (.invoke callee args)) :
    rules.Follows access fuel rules.Sound False machine (Task.invoke callee args).plan := by
  rcases fits with ⟨callee_sound, sound, given⟩
  cases callee with
  | closure function =>
    have fits : rules.Fits site machine (.apply function args) := ⟨callee_sound, sound, given⟩
    exact .start keeps fits False.elim fun _ _ _ => .done
  | native provided =>
    cases provided
    exact .last ⟨⟨keeps.congr rfl rfl rfl rfl, rfl, rules.grows_refl _, Nat.le_refl _⟩, trivial⟩
  | construct origin =>
    refine .does (ends_newObject keeps callee_sound) ?_
    intro later object _ leads object_sound
    cases found : origin.initializer? with
    | none => exact .done leads object_sound
    | some method =>
      have origin_sound : rules.SoundClass later.store origin :=
        SoundClass.grow callee_sound leads.grows
      have taken : method.arity = origin.arity := by
        simp only [Class.arity, found]
      refine .does (ends_bindReceiver leads.keeps lawful (origin_sound.findMethod? found)
        object_sound) ?_
      rintro last closure _ further ⟨callable, arity⟩
      have fits : rules.Fits site last (.apply closure args) :=
        ⟨callable, fun argument mem => further.sound (leads.sound (sound argument mem)),
          given.trans (taken.symm.trans arity.symm)⟩
      refine .start further.keeps fits False.elim ?_
      intro final _ _ finished _
      exact .done finished (finished.sound (further.sound object_sound))

/-! ### Statements -/

section

variable {stmt : Stmt} {post : Machine → Unit → Prop}
  (stands : rules.At site machine) (allows : rules.Allows site stmt)

include stands allows

/-- An operand of a statement is evaluated where the statement stands. -/
theorem Lawful.follows_operand {value : Expr} {next : Value → Plan Unit} {returns : Prop}
    (mem : value ∈ stmt.operands)
    (continues : ∀ later result,
      evaluateWith .recorded fuel value machine = .ok result later →
      rules.Leads machine later → rules.Sound later result →
      rules.Follows access fuel post returns later (next result))
    :
    rules.Follows access fuel post returns machine (.start (.evaluate value) next) := by
  rcases lawful.operand allows mem with ⟨inner, admits, moves⟩
  exact .evaluate keeps (moves _ _ stands) admits continues

/-- A branch declares nothing, so its place is the same before and after. -/
theorem Lawful.follows_branch {inner : Stmt} {next : Unit → Plan Unit} (mem : inner ∈ stmt.branches)
    (continues : ∀ later, rules.Leads machine later →
      rules.At site later →
      rules.Follows access fuel post (rules.Returns site) later (next ()))
    :
    rules.Follows access fuel post (rules.Returns site) machine (.start (.execute inner) next) := by
  rcases lawful.branch allows mem with ⟨allowed, same⟩
  have fits : rules.Fits site machine (.execute inner) := ⟨stands, allowed⟩
  refine .start keeps fits id ?_
  intro later _ _ leads stood
  apply continues later leads
  rw [← same]
  exact stood

end

/-- A class that is declared may have its methods bound. -/
theorem Lawful.follows_declared {name : Token} {superclass : Option Expr}
    (stands : rules.At site machine)
    (allows : rules.Allows site (.classDecl name superclass methods))
    (inherited_sound : ∀ layer ∈ inherited, ∀ entry ∈ layer.methods,
      rules.Bindable machine.store entry.2)
    (genuine : rules.Genuine
      ⟨machine.nextIdentity, ⟨name.lexeme, closeMethods machine.current methods⟩, inherited⟩) :
    rules.Follows access fuel
      (rules.Yields site (.execute (.classDecl name superclass methods))) (rules.Returns site)
      machine (.own (newClass name.lexeme inherited methods) fun value =>
        .last (defineHere name.lexeme value)) := by
  have created : rules.Leads machine { machine with nextIdentity := machine.nextIdentity + 1 } :=
    ⟨keeps.congr rfl rfl rfl rfl, rfl, rules.grows_refl _, Nat.le_refl _⟩
  refine .passes ⟨created, trivial⟩ ?_
  rintro later value ⟨⟩ leads
  have defined := lawful.define allows (.head _) leads.keeps.orderly (leads.stands stands)
  refine .last (ends_defineHere leads.keeps (defined _) ⟨genuine, ?_⟩)
  intro layer mem entry method
  rcases mem_cons.mp mem with rfl | mem
  · rcases mem_map.mp method with ⟨decl, mem, rfl⟩
    exact lawful.method allows (defined _).2 decl mem _
  · exact rules.bindable_grow (defined _).1.grows (inherited_sound layer mem entry method)

/-- Statements are executed part by part. -/
theorem Lawful.follows_execute {stmt : Stmt}
    (declares : ∀ value, Task.Declares (fuel + 1) (.execute stmt) machine value →
      rules.Genuine value)
    (stands : rules.At site machine) (allows : rules.Allows site stmt) :
    rules.Follows access fuel (rules.Yields site (.execute stmt)) (rules.Returns site) machine
      stmt.plan := by
  have unchanged (last : Machine) (same : stmt.declared = [])
      (stood : rules.At site last) :
      rules.Yields site (.execute stmt) last () := by
    simp only [Yields, lawful.unchanged allows same]
    exact stood
  cases stmt with
  | expression value =>
    refine lawful.follows_operand keeps stands allows (.head _) ?_
    intro later _ _ leads _
    exact .done leads (unchanged later rfl (leads.stands stands))
  | print value =>
    refine lawful.follows_operand keeps stands allows (.head _) ?_
    intro later printed _ leads _
    refine .last ((ends_printLine leads.keeps printed.text).imp ?_ id)
    intro last _ further _
    exact unchanged last rfl ((leads.trans further).stands stands)
  | varDecl name initial =>
    have defined {later : Machine} {value : Value} (leads : rules.Leads machine later)
        (sound : rules.Sound later value) :
        rules.Ends later (rules.Yields site (.execute (.varDecl name initial)))
          (rules.Returns site) (defineHere name.lexeme value later) := by
      have defined := lawful.define allows (.head _) leads.keeps.orderly
        (leads.stands stands) value
      exact ends_defineHere leads.keeps defined (sound.grow defined.1.grows (Nat.le_refl _))
    cases initial with
    | none => exact .last (defined keeps.leads trivial)
    | some initial =>
      refine lawful.follows_operand keeps stands allows (.head _) ?_
      intro later value _ leads sound
      exact .last (defined leads sound)
  | block body =>
    rcases lawful.block allows with ⟨inner, allowed, returns, entered⟩
    have enters := entered machine.store machine.current keeps.orderly stands
    refine .passes ⟨keeps.leads, trivial⟩ ?_
    rintro later outer ⟨⟩ _
    have empty (name : String) (value : Value) (found : Bindings.empty.get? name = some value) :
        rules.Sound machine value := by cases found
    refine .passes ⟨keeps.push enters.toSteps empty, trivial⟩ ?_
    rintro last scope ⟨⟩ leads
    refine .enter leads.keeps ⟨enters.stands, allowed⟩ returns ?_
    intro final further
    exact .done further (unchanged final rfl ((leads.trans further).stands stands))
  | ifElse cond yes no =>
    refine lawful.follows_operand keeps stands allows (.head _) ?_
    intro later value _ leads _
    split
    · refine lawful.follows_branch leads.keeps (leads.stands stands) allows (.head _) ?_
      exact fun last further stood => .done further (unchanged last rfl stood)
    · cases no with
      | none => exact .done leads (unchanged later rfl (leads.stands stands))
      | some no =>
        refine lawful.follows_branch leads.keeps (leads.stands stands) allows (.tail _ (.head _)) ?_
        exact fun last further stood => .done further (unchanged last rfl stood)
  | whileLoop cond body =>
    refine lawful.follows_operand keeps stands allows (.head _) ?_
    intro later value _ leads _
    split
    · refine lawful.follows_branch leads.keeps (leads.stands stands) allows (.head _) ?_
      intro last further stood
      have fits : rules.Fits site last (.execute (.whileLoop cond body)) := ⟨stood, allows⟩
      exact .start further.keeps fits id fun _ _ _ => .done
    · exact .done leads (unchanged later rfl (leads.stands stands))
  | funDecl decl =>
    refine .passes ⟨keeps.leads, trivial⟩ ?_
    rintro later scope ⟨⟩ _
    refine .does (ends_newFunction keeps _) ?_
    rintro last function ⟨⟩ leads _
    have defined := lawful.define allows (.head _) leads.keeps.orderly (leads.stands stands)
    exact .last (ends_defineHere leads.keeps (defined _) (lawful.function allows (defined _).2))
  | returnValue keyword value =>
    have allowed := lawful.returns allows
    cases value with
    | none => exact .last ⟨keeps.leads, allowed, trivial⟩
    | some value =>
      refine lawful.follows_operand keeps stands allows (.head _) ?_
      intro later returned _ leads sound
      exact .last ⟨leads.keeps.leads, allowed, sound⟩
  | classDecl name superclass methods =>
    cases superclass with
    | none =>
      exact lawful.follows_declared keeps stands allows
        (fun _ mem => absurd mem not_mem_nil) (declares _ .root)
    | some superclass =>
      refine lawful.follows_operand keeps stands allows (.head _) ?_
      intro later parent ran leads parent_sound
      cases parent with
      | classValue parent =>
        refine .passes ⟨leads.keeps.leads, trivial⟩ ?_
        rintro last inherited ⟨⟩ _
        have genuine := declares _ (.heir ran)
        rw [← leads.current] at genuine
        exact lawful.follows_declared leads.keeps (leads.stands stands) allows
          parent_sound.2 genuine
      | _ => exact .passes ⟨leads.keeps.leads, lawful.inherits allows⟩ (by rintro _ _ ⟨⟩)

/-- The plan of a task that fits follows the rules. -/
theorem Lawful.follows {task : Task} (fits : rules.Fits site machine task)
    (declares : ∀ value, task.Declares (fuel + 1) machine value → rules.Genuine value) :
    rules.Follows access fuel (rules.Yields site task) (rules.Leaves site task) machine
      task.plan := by
  cases task with
  | evaluate value => exact lawful.follows_evaluate keeps fits.1 fits.2
  | evaluateAll values => exact keeps.follows_evaluateAll fits
  | invoke callee args => exact lawful.follows_invoke keeps fits
  | apply closure args => exact lawful.follows_apply keeps fits
  | execute stmt => exact lawful.follows_execute keeps declares fits.1 fits.2
  | executeAll stmts =>
    rcases fits with ⟨stands, allows⟩
    cases stmts with
    | nil => exact .done keeps.leads trivial
    | cons first others =>
      have fits : rules.Fits site machine (.execute first) := ⟨stands, lawful.first allows⟩
      refine .start keeps fits id ?_
      intro later _ _ leads stood
      have others_fit : rules.Fits (rules.after site first) later (.executeAll others) :=
        ⟨stood, lawful.rest allows⟩
      exact .start leads.keeps others_fit lawful.returns_after fun _ _ _ => .done

end

/-! ## Runs -/

variable {task inner : Task} {left : Nat} {prog : Program} (lawful : rules.Lawful access)

include lawful

/-- Code that keeps to a discipline does the same in both ways of access. -/
theorem Lawful.safe (covers : task.Covers rules.Genuine fuel machine) :
    rules.Safe access fuel task machine := by
  induction fuel generalizing task machine with
  | zero =>
    intro site keeps _
    rw [Task.run_zero, Task.run_zero]
    exact ⟨rfl, keeps.leads, trivial⟩
  | succ fuel ih =>
    intro site keeps fits
    rw [← Task.run_plan, ← Task.run_plan]
    apply (lawful.follows keeps fits fun value => covers _ _ _ value .here).agree
    intro inner mem
    rw [Task.steps_plan] at mem
    exact ih (covers.begins (Task.mem_steps_iff.mp mem))

/-- A task that fits leads to a machine that keeps the discipline. -/
theorem Lawful.leads (covers : task.Covers rules.Genuine fuel machine)
    (hosts : rules.Hosts machine task) : rules.Leads machine (task.after fuel machine) := by
  rcases hosts.fits with ⟨site, fits⟩
  rw [Task.after_eq_final]
  exact (lawful.safe covers site hosts.keeps fits).ends.leads

/-- Tasks that keep to a discipline begin such tasks only. -/
theorem Lawful.begins (begins : Task.Begins fuel task machine inner later)
    (covers : task.Covers rules.Genuine (fuel + 1) machine) (hosts : rules.Hosts machine task) :
    rules.Begun fuel machine inner later (task.after (fuel + 1) machine) := by
  rcases hosts.fits with ⟨site, fits⟩
  have mem := Task.mem_steps_iff.mpr begins
  rw [← Task.steps_plan] at mem
  rw [Task.after_eq_final, ← Task.run_plan]
  apply (lawful.follows hosts.keeps fits fun value => covers _ _ _ value .here).begun _ mem
  intro inner mem
  rw [Task.steps_plan] at mem
  exact lawful.safe (covers.begins (Task.mem_steps_iff.mp mem))

/-- All tasks that are reached fit. -/
theorem Lawful.reaches (reaches : Task.Reaches fuel task machine left inner later)
    (covers : task.Covers rules.Genuine fuel machine) (hosts : rules.Hosts machine task) :
    rules.Hosts later inner := by
  induction reaches with
  | here => exact hosts
  | through begins _ ih =>
    exact ih (covers.begins begins) (lawful.begins begins covers hosts).hosts

theorem Lawful.reaches_after (reaches : Task.Reaches fuel task machine left inner later)
    (covers : task.Covers rules.Genuine fuel machine) (hosts : rules.Hosts machine task) :
    rules.Grows (inner.after left later).store (task.after fuel machine).store := by
  induction reaches with
  | here => exact rules.grows_refl _
  | through begins _ ih =>
    have begun := lawful.begins begins covers hosts
    exact rules.grows_trans (ih (covers.begins begins) begun.hosts) begun.resumes

theorem Lawful.execute {stmt : Stmt}
    (covers : Task.Covers rules.Genuine fuel (.execute stmt) machine)
    (keeps : rules.Keeps machine) (stands : rules.At site machine)
    (allows : rules.Allows site stmt) :
    rules.Agree (executeWith access fuel stmt) (executeWith .recorded fuel stmt) machine
      (fun later _ => rules.At (rules.after site stmt) later)
      (rules.Returns site) :=
  lawful.safe covers site keeps ⟨stands, allows⟩

/-- Programs are executed alike in both ways of access. -/
theorem Lawful.executeProgram (fuel : Nat) (covers : prog.Covers rules.Genuine fuel machine)
    (keeps : rules.Keeps machine) (stands : rules.At site machine)
    (allows : rules.AllowsAll site prog) :
    rules.Agree (Run.executeProgram access fuel prog)
      (Run.executeProgram .recorded fuel prog) machine (fun _ _ => True)
      (rules.Returns site) := by
  induction prog generalizing machine site with
  | nil => exact ⟨rfl, keeps.leads, trivial⟩
  | cons stmt stmts ih =>
    refine (lawful.execute covers.first keeps stands (lawful.first allows)).bind ?_
    intro later _ ran leads stood
    exact (ih (covers.others ran) leads.keeps stood (lawful.rest allows)).imp
      (fun _ _ _ _ => trivial) lawful.returns_after

/-- All tasks that a program visits keep to the discipline, which lasts to its end. -/
theorem Lawful.visits (visits : prog.Visits fuel machine left task later)
    (covers : prog.Covers rules.Genuine fuel machine) (keeps : rules.Keeps machine)
    (stands : rules.At site machine)
    (allows : rules.AllowsAll site prog) :
    rules.Hosts later task ∧ rules.Grows (task.after left later).store
      (Machine.final (Run.executeProgram .recorded fuel prog machine)).store := by
  induction visits generalizing site with
  | @first stmt stmts _ _ machine _ reaches =>
    have hosts : rules.Hosts machine (.execute stmt) := ⟨keeps, site, stands, lawful.first allows⟩
    have first := lawful.execute covers.first keeps stands (lawful.first allows)
    refine ⟨lawful.reaches reaches covers.first hosts,
      rules.grows_trans (lawful.reaches_after reaches covers.first hosts) ?_⟩
    rw [Task.after, Run.executeProgram]
    cases ran : executeWith .recorded fuel stmt machine with
    | ok value last =>
      rcases first.ends.of_ok ran with ⟨leads, stood⟩
      rw [bind_of_ok ran]
      exact (lawful.executeProgram fuel (covers.others ran) leads.keeps stood
        (lawful.rest allows)).ends.leads.grows
    | error signal last =>
      simp only [Bind.bind, EStateM.bind, ran]
      exact rules.grows_refl _
  | others ran _ ih =>
    rcases (lawful.execute covers.first keeps stands
      (lawful.first allows)).ends.of_ok ran with ⟨leads, stood⟩
    rw [Run.executeProgram, bind_of_ok ran]
    exact ih (covers.others ran) leads.keeps stood (lawful.rest allows)

end

theorem Leads.conclude {result : EStateM.Result Signal Machine Unit}
    (leads : rules.Leads machine (Machine.final result)) :
    rules.Leads machine (Machine.conclude result).2 := by
  rcases Machine.conclude_eq_final result with ⟨output, same⟩
  rw [same]
  exact ⟨leads.keeps.congr rfl rfl rfl rfl, leads.current, leads.grows, leads.count_le⟩

end Discipline

end Treewalk
