import Treewalk.Proofs.Coherence
import Treewalk.Proofs.Levels
import Treewalk.Proofs.Mentions

/-!
# Distances and names lead to the same variables

Variables can be reached by their recorded distances or by a search for their
names from the current scope outwards.  In general the two differ: a scope in
between may bind the name after the distance was recorded.  They agree if names
are unambiguous, since all live copies of a local scope have one level, through
recursion and for closures that are called long after their scope was left.
-/

namespace Treewalk

open Scoping List

namespace Access

/-- Variables are looked for by name, from the current scope outwards. -/
def byName : Access where
  read _ name := fun machine =>
    match machine.store.get? machine.current name.lexeme with
    | some value => .ok value machine
    | none => Run.raise (.undefinedVariable name.lexeme) name machine
  write _ name value := fun machine =>
    match machine.store.assign? machine.current name.lexeme value with
    | some store => .ok () { machine with store := store }
    | none => Run.raise (.undefinedVariable name.lexeme) name machine

/-- Reading by name reads where the search ends. -/
theorem byName_read (id : ExprId) (name : Token) (machine : Machine) : byName.read id name machine =
      Run.readIn (machine.store.binder? machine.current name.lexeme) name machine := by
  simp only [byName, Run.readIn, Store.get?]
  cases machine.store.binder? machine.current name.lexeme <;> rfl

theorem byName_write (id : ExprId) (name : Token) (value : Value) (machine : Machine) :
    byName.write id name value machine =
      Run.writeIn (machine.store.binder? machine.current name.lexeme) name value machine := by
  simp only [byName, Run.writeIn, Store.assign?]
  cases machine.store.binder? machine.current name.lexeme <;> rfl

end Access

/-! ## Code with clear names -/

section

variable (level : String → Nat) (ledger : Ledger) (context : Context)

/-- An expression is resolved, and what it mentions is clear. -/
structure Expr.Placed (value : Expr) : Prop where
  resolved : value.Resolved ledger context
  assignable : ∀ name ∈ value.assigned, context.Readable name
  clear : ∀ mention ∈ value.mentions, mention.Clear level ledger.distances

/-- A function is resolved, and what it mentions is clear. -/
structure FunctionDecl.Placed (declaration : FunctionDecl) : Prop where
  settled : context.Settled
  resolved : declaration.Resolved ledger context
  clear : ∀ mention ∈ declaration.mentions context.scopes.length,
    mention.Clear level ledger.distances

/-- A statement is resolved, and what it mentions is clear. -/
structure Stmt.Placed (statement : Stmt) : Prop where
  settled : context.Settled
  resolved : statement.Resolved ledger context
  clear : ∀ mention ∈ statement.mentions context.scopes.length, mention.Clear level ledger.distances

/-- Statements are resolved, and what they mention is clear. -/
structure Stmt.AllPlaced (statements : List Stmt) : Prop where
  settled : context.Settled
  resolved : Stmt.AllResolved ledger context statements
  clear : ∀ mention ∈ Stmt.mentionsAll context.scopes.length statements,
    mention.Clear level ledger.distances

end

variable {level : String → Nat} {ledger : Ledger} {context : Context}

variable {decl : FunctionDecl} {value : Expr} {name : Token}

namespace Expr

theorem mentions_subset_mentionsAll {values : List Expr} (mem : value ∈ values) :
    value.mentions ⊆ mentionsAll values := by
  induction values with
  | nil => cases mem
  | cons first others ih =>
    rw [mentionsAll]
    rcases mem_cons.mp mem with rfl | mem
    · exact subset_append_left _ _
    · exact subset_append_of_subset_right _ (ih mem)

/-- Parts mention names of the whole. -/
theorem mentions_subset_of_part {part : Expr} (mem : part ∈ value.parts) :
    part.mentions ⊆ value.mentions := by
  cases value with
  | call callee closing args =>
    rw [mentions]
    rcases mem_cons.mp mem with rfl | mem
    · exact subset_append_left _ _
    · exact subset_append_of_subset_right _ (mentions_subset_mentionsAll mem)
  | _ => grind [parts, mentions]

theorem Placed.part {value part : Expr} (placed : value.Placed level ledger context)
    (mem : part ∈ value.parts) : part.Placed level ledger context where
  resolved := placed.resolved.part mem
  assignable name assigned :=
    placed.assignable name (filterMap_subset _ (mentions_subset_of_part mem) assigned)
  clear mention mentioned :=
    placed.clear mention (mentions_subset_of_part mem mentioned)

theorem Placed.target {id : ExprId} {target : Token} {value : Expr}
    (placed : (assign id target value).Placed level ledger context) :
    context.Readable target.lexeme ∧
      (ledger.distances.find? id = none → level target.lexeme = 0) := by
  have mentioned : .assigns id target ∈ (assign id target value).mentions :=
    mem_append_right _ (.head _)
  exact ⟨placed.assignable target.lexeme
    (mem_filterMap.mpr ⟨_, mentioned, rfl⟩), placed.clear _ mentioned⟩

/-- Where all names may be read, all may be assigned to. -/
theorem placed_of_settled (settled : context.Settled) (resolved : value.Resolved ledger context)
    (clear : ∀ mention ∈ value.mentions, mention.Clear level ledger.distances) :
    value.Placed level ledger context :=
  ⟨resolved, fun name _ => settled.readable name, clear⟩

/--
An initial value is evaluated while its variable is awaited, so it may assign
to all names but this one.
-/
theorem placed_of_initial (settled : context.Settled)
    (resolved : value.Resolved ledger (context.declare name))
    (declared : (Mention.declares name context.scopes.length
      (some value)).Clear level ledger.distances)
    (clear : ∀ mention ∈ value.mentions, mention.Clear level ledger.distances) :
    value.Placed level ledger (context.declare name) := by
  refine ⟨resolved, ?_, clear⟩
  intro other assigned
  refine (settled.declare declared.1).readable ?_
  cases scopes : context.scopes with
  | nil => simp only [Context.declare, Context.mark, Context.awaits, scopes]
  | cons names outer =>
    rw [scopes] at declared
    have differs : (other == name.lexeme) = false := by
      refine beq_eq_false_iff_ne.mpr ?_
      rintro rfl
      exact (declared.2 (Nat.succ_pos _)).2 value rfl assigned
    have readable := settled names (by rw [scopes]; exact .head _) other
    simp only [Context.declare, Context.mark, Context.awaits, scopes, lookup_cons, differs]
    simpa using readable

end Expr

theorem FunctionDecl.mentions_subset_mentionsAll {decls : List FunctionDecl} {depth : Nat}
    (mem : decl ∈ decls) : decl.mentions depth ⊆ FunctionDecl.mentionsAll depth decls := by
  induction decls with
  | nil => cases mem
  | cons first others ih =>
    rw [mentionsAll]
    rcases mem_cons.mp mem with rfl | mem
    · exact subset_append_left _ _
    · exact subset_append_of_subset_right _ (ih mem)

theorem Stmt.declares_of_declared {stmt : Stmt} (mem : name ∈ stmt.declared) (depth : Nat) :
    ∃ initial, .declares name depth initial ∈ stmt.mentions depth := by
  cases stmt with
  | varDecl declared initial =>
    rw [mem_singleton.mp mem]
    exact ⟨initial, .head _⟩
  | funDecl decl | classDecl declared superclass methods =>
    rw [mem_singleton.mp mem]
    exact ⟨none, .head _⟩
  | _ => cases mem

namespace Stmt

variable {stmt : Stmt}

theorem mentions_subset_of_operand (depth : Nat) (mem : value ∈ stmt.operands) :
    value.mentions ⊆ stmt.mentions depth := by
  cases stmt with
  | ifElse cond yes no => cases no <;> grind [operands, mentions]
  | _ => grind [operands, mentions, Expr.mentionsOption]

theorem mentions_subset_of_branch {branch : Stmt} (depth : Nat)
    (mem : branch ∈ stmt.branches) : branch.mentions depth ⊆ stmt.mentions depth := by
  cases stmt with
  | ifElse cond yes no => cases no <;> grind [branches, mentions]
  | _ => grind [branches, mentions]

/--
What a statement evaluates itself is placed in its own context, or in the one
where its variable is awaited.
-/
theorem Placed.operand (placed : stmt.Placed level ledger context)
    {value : Expr} (mem : value ∈ stmt.operands) :
    ∃ inner : Context, value.Placed level ledger inner ∧ ∀ globals (store : Store) scope,
        store.Fits globals scope context.scopes → store.Fits globals scope inner.scopes := by
  have clear : ∀ mention ∈ value.mentions, mention.Clear level ledger.distances :=
    fun mention mentioned => placed.clear mention (mentions_subset_of_operand _ mem mentioned)
  rcases placed.resolved.operand mem with resolved | ⟨name, rfl⟩
  · exact ⟨context, Expr.placed_of_settled placed.settled resolved clear, fun _ _ _ fits => fits⟩
  · exact ⟨context.declare name, Expr.placed_of_initial placed.settled placed.resolved
        (placed.clear _ (.head _)) clear, fun _ _ _ fits => fits.declare name⟩

/-- Branches declare nothing around them. -/
theorem Placed.branch (placed : stmt.Placed level ledger context)
    {branch : Stmt} (mem : branch ∈ stmt.branches) :
    branch.Placed level ledger context ∧ context.after branch = context := by
  have resolved := placed.resolved.branch mem
  refine ⟨⟨placed.settled, resolved.1, ?_⟩, resolved.2⟩
  intro mention mentioned
  exact placed.clear mention (mentions_subset_of_branch _ mem mentioned)

/-- A statement and those after it. -/
theorem AllPlaced.cons {stmts : List Stmt}
    (placed : AllPlaced level ledger context (stmt :: stmts)) :
    stmt.Placed level ledger context ∧ AllPlaced level ledger (context.after stmt) stmts := by
  have clear := forall_mem_append.mp placed.clear
  refine ⟨⟨placed.settled, placed.resolved.1, clear.1⟩,
    placed.settled.after stmt, placed.resolved.2, ?_⟩
  rw [context.length_scopes_after]
  exact clear.2

/-- Declared names are at their level. -/
theorem Placed.declared (placed : stmt.Placed level ledger context) (mem : name ∈ stmt.declared) :
    name.lexeme ≠ "this" ∧
      (0 < context.scopes.length → level name.lexeme = context.scopes.length) := by
  rcases declares_of_declared mem context.scopes.length with ⟨initial, found⟩
  have clear := placed.clear _ found
  exact ⟨clear.1, fun inner => (clear.2 inner).1⟩

theorem Placed.block {body : List Stmt} (placed : (Stmt.block body).Placed level ledger context) :
    AllPlaced level ledger (context.enter []) body :=
  ⟨placed.settled.enter, placed.resolved, placed.clear⟩

theorem Placed.function (placed : (Stmt.funDecl decl).Placed level ledger context) :
    decl.Placed level ledger (context.define decl.name) := by
  refine ⟨placed.settled.define _, placed.resolved, ?_⟩
  rw [Context.define, context.length_scopes_mark]
  exact fun mention mentioned => placed.clear mention (.tail _ mentioned)

theorem Placed.method {superclass : Option Expr} {methods : List FunctionDecl}
    (placed : (Stmt.classDecl name superclass methods).Placed level ledger context)
    (mem : decl ∈ methods) :
    decl.Placed level ledger ((context.named name).enter [("this", true)]) := by
  refine ⟨(placed.settled.named name).enter_receiver, placed.resolved.2.2.of_mem mem, ?_⟩
  have length : ((context.named name).enter [("this", true)]).scopes.length =
      context.scopes.length + 1 :=
    congrArg (· + 1) (context.length_scopes_mark name.lexeme true)
  rw [length]
  intro mention mentioned
  refine placed.clear mention (.tail _ (mem_append_right _ ?_))
  exact FunctionDecl.mentions_subset_mentionsAll mem mentioned

end Stmt

namespace FunctionDecl

theorem Placed.parameter (placed : decl.Placed level ledger context)
    {parameter : Token} (mem : parameter ∈ decl.parameters) :
    parameter.lexeme ≠ "this" ∧ level parameter.lexeme = context.scopes.length + 1 := by
  cases decl with
  | mk name params body =>
    have clear := placed.clear _ (mem_append_left _ (mem_map_of_mem mem))
    exact ⟨clear.1, (clear.2 (Nat.succ_pos _)).1⟩

theorem Placed.body (placed : decl.Placed level ledger context) :
    Stmt.AllPlaced level ledger (context.inBody decl.parameters) decl.body := by
  cases decl with
  | mk name params body =>
    refine ⟨placed.settled.inBody _, placed.resolved.body, ?_⟩
    rcases context.inBody_scopes params with ⟨declared, scopes, _⟩
    show ∀ mention ∈ Stmt.mentionsAll (context.inBody params).scopes.length body, _
    rw [scopes]
    exact fun mention mentioned => placed.clear mention (mem_append_right _ mentioned)

end FunctionDecl

namespace Discipline

/--
Names are bound at their levels, and scopes fit the contexts of the code that
runs in them.
-/
def leveled (level : String → Nat) (ledger : Ledger) (globals : ScopeId) : Discipline where
  Site := Context
  after := Context.after
  distances := ledger.distances
  globals := globals
  Orderly := Store.Leveled level globals
  Grows := Store.Retains
  Stands store scope context := store.Fits globals scope context.scopes
  Callable store closure :=
    ∃ context : Context, closure.declaration.Placed level ledger context ∧
      store.Fits globals closure.scope context.scopes
  Bindable store closure :=
    ∃ context : Context, closure.declaration.Placed level ledger (context.enter [("this", true)]) ∧
        store.Fits globals closure.scope context.scopes
  Admits := Expr.Placed level ledger
  Allows := Stmt.Placed level ledger
  AllowsAll := Stmt.AllPlaced level ledger
  Returns context := context.inFunction = true
  Excuses _ _ := True
  grows_refl := .refl
  grows_trans := .trans
  stands_grow retains fits := fits.grow retains
  callable_grow := by
    rintro store later closure retains ⟨context, placed, fits⟩
    exact ⟨context, placed, fits.grow retains⟩
  bindable_grow := by
    rintro store later closure retains ⟨context, placed, fits⟩
    exact ⟨context, placed, fits.grow retains⟩

variable {globals : ScopeId} {machine : Machine}

section

variable {name : String} (keeps : (leveled level ledger globals).Keeps machine)

include keeps

/-- The recorded distance of an occurrence leads to the scope of its name. -/
theorem Keeps.target?_eq (fits : machine.store.Fits globals machine.current context.scopes)
    {id : ExprId} (places : ledger.Places context id name) (readable : context.Readable name)
    (unplaced : ledger.distances.find? id = none → name ≠ "this" → level name = 0) :
    machine.target? id name = machine.store.binder? machine.current name := by
  have orderly : machine.store.Leveled level globals := keeps.orderly
  have distances : machine.distances = ledger.distances := keeps.distances
  have outermost : machine.globals = globals := keeps.globals
  rw [orderly.binder?_eq fits readable]
  · have found : machine.distances.find? id = context.distance? name := by
      rw [distances, places.2]
    cases place : context.distance? name with
    | none => simp only [Machine.target?, found, place, outermost]
    | some dist => simp only [Machine.target?, found, place]
  · rw [← places.2]
    exact unplaced

/-- Assigning to a name binds it where it was bound before. -/
theorem Keeps.steps_rebind {scope : ScopeId}
    (found : machine.store.binder? machine.current name = some scope) (value : Value) :
    (leveled level ledger globals).Steps machine.store (machine.store.define scope name value) := by
  have orderly : machine.store.Leveled level globals := keeps.orderly
  have bound := Store.bound_of_binder? found
  have retains : machine.store.Retains (machine.store.define scope name value) :=
    Store.retains_define fun _ => bound
  exact ⟨orderly.define (orderly.bound scope name bound) retains, retains⟩

end

section

variable {store : Store} {scope : ScopeId}

section

variable (orderly : store.Leveled level globals)

include orderly

/-- Declaring a placed name keeps levels. -/
theorem steps_define (fits : store.Fits globals scope context.scopes) (named : name.lexeme ≠ "this")
    (placed : 0 < context.scopes.length → level name.lexeme = context.scopes.length) (value : Value)
    : (leveled level ledger globals).Steps store (store.define scope name.lexeme value) := by
  have retains : store.Retains (store.define scope name.lexeme value) :=
    Store.retains_define fun same => absurd same named
  exact ⟨orderly.define (fun _ => fits.ancestor_level placed) retains, retains⟩

/-- The scope of a block binds nothing at first. -/
theorem enters_block (fits : store.Fits globals scope context.scopes) :
    (leveled level ledger globals).Enters store ⟨.empty, some scope⟩ (context.enter []) where
  orderly := orderly.push fits nofun
  grows := Store.retains_push _ _
  stands := fits.push (fits.covers.push nofun) nofun

theorem enters_call {closure : Closure} {args : List Value}
    (placed : closure.declaration.Placed level ledger context)
    (fits : store.Fits globals closure.scope context.scopes) (given : args.length = closure.arity) :
    (leveled level ledger globals).Enters store ⟨closure.argumentBindings args, some closure.scope⟩
      (context.inBody closure.declaration.parameters) := by
  have bound (name : String) (isSome : ((closure.argumentBindings args).get? name).isSome) :
      name ≠ "this" ∧ level name = context.scopes.length + 1 := by
    rcases Option.isSome_iff_exists.mp isSome with ⟨value, found⟩
    rcases Closure.exists_of_argumentBindings found with ⟨parameter, mem, rfl, _⟩
    exact placed.parameter mem
  have covers := fits.covers.call given
  refine ⟨⟨orderly.push fits fun name isSome _ => (bound name isSome).2,
    Store.retains_push _ _⟩, ?_⟩
  rcases context.inBody_scopes closure.declaration.parameters with ⟨declared, scopes, _⟩
  show Store.Fits globals _ _ (context.inBody _).scopes
  rw [scopes] at covers ⊢
  exact fits.push covers fun isSome => absurd rfl (bound "this" isSome).1

/-- The scope of a receiver binds nothing else. -/
theorem enters_receiver (fits : store.Fits globals scope context.scopes) (receiver : Value) :
    (leveled level ledger globals).Enters store ⟨Bindings.empty.set "this" receiver, some scope⟩
      (context.enter [("this", true)]) := by
  have bound (name : String) (isSome : ((Bindings.empty.set "this" receiver).get? name).isSome) :
      name = "this" := by
    rw [Bindings.get?_set] at isSome
    split at isSome
    · next same => exact same
    · cases isSome
  refine ⟨⟨orderly.push fits fun name isSome named =>
    absurd (bound name isSome) named, Store.retains_push _ _⟩, ?_⟩
  exact fits.push (fits.covers.receiver receiver) fun _ => rfl

end

end

/-- With clear names, a search by name agrees with the distances. -/
theorem lawful_leveled (level : String → Nat) (ledger : Ledger) (globals : ScopeId) :
    (leveled level ledger globals).Lawful .byName where
  part placed mem := placed.part mem
  read := by
    intro context machine id name placed keeps fits
    rw [Access.byName_read, Run.readVariable_eq,
      keeps.target?_eq fits placed.resolved.1 placed.resolved.2
        (fun absent _ => placed.clear _ (.head _) absent)]
  receiver := by
    intro context machine id keyword placed keeps fits
    rw [Access.byName_read, Run.readVariable_eq,
      keeps.target?_eq fits placed.resolved.1 placed.resolved.2.1
        (fun _ named => absurd placed.resolved.2.2 named)]
  write := by
    intro context machine id target value placed keeps fits assigned
    rw [Access.byName_write, Run.writeVariable_eq, keeps.target?_eq fits
      placed.resolved.2 placed.target.1 (fun absent _ => placed.target.2 absent)]
  raises _ _ := trivial
  inherits _ := trivial
  rebind := by
    intro context machine id target value placed keeps fits scope found
    rw [keeps.target?_eq fits placed.resolved.2 placed.target.1
      (fun absent _ => placed.target.2 absent)] at found
    exact keeps.steps_rebind found
  operand := by
    intro context stmt value placed mem
    rcases placed.operand mem with ⟨inner, placed, moves⟩
    exact ⟨inner, placed, moves globals⟩
  branch placed mem := placed.branch mem
  unchanged placed undeclared := placed.resolved.after_eq undeclared
  returns placed := placed.resolved.1
  first placed := placed.cons.1
  rest placed := placed.cons.2
  returns_after := by
    intro context stmt returns
    exact (context.after_inFunction stmt).symm.trans returns
  define := by
    intro context stmt name store scope placed mem orderly fits value
    rcases placed.declared mem with ⟨named, leveled⟩
    refine ⟨steps_define orderly fits named leveled value, ?_⟩
    show Store.Fits globals _ scope (Context.after context stmt).scopes
    rw [context.after_of_declared mem]
    exact fits.define named value
  block := by
    intro context body placed
    exact ⟨context.enter [], placed.block, id, fun store scope orderly fits =>
      enters_block orderly fits⟩
  function := by
    intro context decl store scope placed fits
    exact ⟨context.define decl.name, placed.function, fits⟩
  method := by
    intro context name superclass methods store scope placed fits decl mem isInitializer
    exact ⟨context.named name, placed.method mem, fits⟩
  call := by
    rintro store closure args ⟨context, placed, fits⟩ orderly given
    exact ⟨context.inBody closure.declaration.parameters, placed.body,
      enters_call orderly placed fits given⟩
  bind := by
    rintro store method ⟨context, placed, fits⟩ orderly receiver
    have enters : (leveled level ledger globals).Enters store
        ⟨Bindings.empty.set "this" receiver, some method.scope⟩ (context.enter [("this", true)]) :=
      enters_receiver orderly fits receiver
    exact ⟨enters.toSteps, context.enter [("this", true)], placed, enters.stands⟩

theorem keeps_initial (level : String → Nat) (ledger : Ledger)
    (clock : Nat → Float) (output : Sink) :
    (leveled level ledger 0).Keeps { Machine.initial clock output with
        distances := ledger.distances } := by
  have parent := Machine.parent?_initial clock output
  refine ⟨rfl, rfl, ⟨?_, ?_, parent 0, ?_⟩, ?_, ?_⟩
  · intro scope other enclosed
    exact nomatch (parent scope).symm.trans enclosed
  · exact Nat.zero_lt_one
  · intro scope name isSome _ inner
    rcases Option.isSome_iff_exists.mp isSome with ⟨value, found⟩
    exact absurd (Machine.bound_initial clock output found).1 inner
  · intro scope name value found
    rw [(Machine.bound_initial clock output found).2]
    trivial
  · intro bindings mem
    cases Array.mem_toList_iff.mpr mem

end Discipline

/--
Distances and names lead to the same variables.  If local names are declared
once in the whole program, have distances wherever they occur and are not
assigned to by their own initial values, then every run of the program is the
same if variables are searched for by name from the current scope outwards.
-/
theorem search_by_name_agrees_with_distances {text : String}
    {program : Program} (accepted : (readProgram text 0).1 = .ok program)
    (unambiguous : program.Unambiguous) (fuel : Nat) (clock : Nat → Float) (output : Sink) :
    runWith .byName fuel clock output text = run fuel clock output text := by
  have read : readProgram text 0 = (.ok program, (readProgram text 0).2) := by
    rw [← accepted]
  have resolve := resolve_of_readProgram read
  simp only [run, runWith, accepted, Machine.runProgramWith, Machine.analyse]
  cases clean : (analyse program).errors with
  | cons error errors => rfl
  | nil =>
    let ledger : Ledger := Ledger.recordAll ⟨.empty, 0⟩
      (analyse program).distances (readProgram text 0).2
    have recorded : ∀ id ∈ (analyse program).distances.map Prod.fst,
        ledger.distances.find? id ≠ none := by
      intro id member
      rcases mem_map.mp member with ⟨entry, found, rfl⟩
      have known : ledger.distances.find? entry.1 = some entry.2 :=
        Distances.find?_recordAll_of_mem (resolve.unique entry.1) found
      rw [known]
      exact Option.some_ne_none _
    have placed : Stmt.AllPlaced program.level ledger .outermost program :=
      ⟨Context.settled_outermost, Ledger.fresh_empty.resolved resolve clean,
        unambiguous.clear recorded (declaresNames_of_readProgram read)⟩
    have agree := (Discipline.lawful_leveled program.level ledger 0).executeProgram fuel
        (fun _ _ _ _ _ _ => trivial) (Discipline.keeps_initial program.level ledger clock output)
        (Store.fits_initial clock output) placed
    simp only [Machine.interpretWith_eq_conclude]
    exact congrArg Machine.conclude agree.same

/-- Recursion makes several copies of a captured variable. -/
theorem captured_variable_is_found_by_name :
    let text :=
      "fun f(a) \x7b fun g() \x7b a = !a; return a; \x7d " ++
      "if (a) return f(nil); return g; \x7d print f(true)();"
    ∃ program, (readProgram text 0).1 = .ok program ∧ program.Unambiguous ∧
      runWith .byName 30 (fun _ => 0) .unlimited text = run 30 (fun _ => 0) .unlimited text := by
  intro text
  have checked : ((readProgram text 0).1.toOption.any fun program =>
      decide program.Unambiguous) = true := by
    decide +kernel
  cases accepted : (readProgram text 0).1 with
  | error failure =>
    rw [accepted] at checked
    cases checked
  | ok program =>
    rw [accepted] at checked
    have unambiguous := of_decide_eq_true checked
    exact ⟨program, rfl, unambiguous,
      search_by_name_agrees_with_distances accepted unambiguous _ _ _⟩

end Treewalk
