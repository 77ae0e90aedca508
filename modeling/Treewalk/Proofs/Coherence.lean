import Treewalk.Proofs.Analysis
import Treewalk.Proofs.Discipline

/-!
# Coherent machines

A closure is sound if its body is resolved in a context that its scope covers.
A machine is coherent if every closure that can be reached through its scopes
and fields is sound.  Soundness is kept as scopes grow, so coherence is a
discipline.
-/

namespace Treewalk

open Scoping

variable {ledger : Ledger} {machine : Machine}

/-! ## Parts of resolved code -/

section

variable {context : Context} {statement : Stmt}

/-- The parts of a resolved expression are resolved. -/
theorem Expr.Resolved.part {value part : Expr} (resolved : value.Resolved ledger context)
    (mem : part ∈ value.parts) : part.Resolved ledger context := by
  cases value with
  | call callee closing args =>
    rcases List.mem_cons.mp mem with rfl | mem
    · exact resolved.1
    · exact resolved.2.of_mem mem
  | _ => grind [parts, Resolved]

/-- Initial values are resolved before their names can be read. -/
theorem Stmt.Resolved.operand (resolved : statement.Resolved ledger context)
    {value : Expr} (mem : value ∈ statement.operands) :
    value.Resolved ledger context ∨ ∃ name, statement = .varDecl name (some value) := by
  cases statement with
  | ifElse cond yes no => cases no <;> grind [operands, Resolved]
  | _ => grind [operands, Resolved, Expr.OptionResolved]

/-- Branches declare nothing around them. -/
theorem Stmt.Resolved.branch (resolved : statement.Resolved ledger context)
    {branch : Stmt} (mem : branch ∈ statement.branches) :
    branch.Resolved ledger context ∧ context.after branch = context := by
  cases statement with
  | ifElse cond yes no => cases no <;> grind [branches, Resolved]
  | _ => grind [branches, Resolved]

theorem Stmt.Resolved.after_eq (resolved : statement.Resolved ledger context)
    (undeclared : statement.declared = []) : context.after statement = context := by
  cases statement with
  | ifElse cond yes no => cases no <;> grind [Context.after, Resolved]
  | _ => grind [Context.after, Resolved, declared]

theorem Scoping.Context.after_of_declared (context : Context) {name : Token}
    (mem : name ∈ statement.declared) : context.after statement = context.define name := by
  cases statement with
  | varDecl declared initial | funDecl decl | classDecl declared superclass methods =>
    rw [List.mem_singleton.mp mem, after]
  | _ => cases mem

theorem FunctionDecl.Resolved.body {decl : FunctionDecl} (resolved : decl.Resolved ledger context) :
    Stmt.AllResolved ledger (context.inBody decl.parameters) decl.body := by
  cases decl
  exact resolved

end

/-! ## Sound values -/

namespace Closure

/-- The body is resolved in a context that the scope of the closure covers. -/
def Sound (ledger : Ledger) (store : Store) (closure : Closure) : Prop :=
  ∃ context : Context, closure.declaration.Resolved ledger context ∧
    store.Covers closure.scope context.scopes

/-- The body is resolved inside a scope for the receiver, not yet made. -/
def MethodSound (ledger : Ledger) (store : Store) (closure : Closure) : Prop :=
  ∃ context : Context, closure.declaration.Resolved ledger (context.enter [("this", true)]) ∧
      store.Covers closure.scope context.scopes

end Closure

/-- All methods of a class are sound. -/
def Class.Sound (ledger : Ledger) (store : Store) (value : Class) : Prop :=
  ∀ layer ∈ value.layers, ∀ entry ∈ layer.methods, entry.2.MethodSound ledger store

/-- The closures that can be reached through a value are sound. -/
def Value.Sound (ledger : Ledger) (store : Store) : Value → Prop
  | .function _ closure => closure.Sound ledger store
  | .classValue value => value.Sound ledger store
  | .object _ origin => origin.Sound ledger store
  | _ => True

section

variable {later : Ledger} {store grown : Store}

/-- Sound closures stay so as records and scopes grow. -/
theorem Closure.Sound.extend {closure : Closure}
    (sound : closure.Sound ledger store) (extended : ledger.Extends later)
    (grows : store.Grows grown) : closure.Sound later grown := by
  rcases sound with ⟨context, resolved, covers⟩
  exact ⟨context, FunctionDecl.Resolved.extend extended context _ resolved, covers.grow grows⟩

theorem Closure.MethodSound.extend {closure : Closure} (sound : closure.MethodSound ledger store)
    (extended : ledger.Extends later) (grows : store.Grows grown) :
    closure.MethodSound later grown := by
  rcases sound with ⟨context, resolved, covers⟩
  exact ⟨context, FunctionDecl.Resolved.extend extended _ _ resolved, covers.grow grows⟩

theorem Class.Sound.extend {value : Class} (sound : value.Sound ledger store)
    (extended : ledger.Extends later) (grows : store.Grows grown) :
    value.Sound later grown :=
  fun layer mem entry method => (sound layer mem entry method).extend extended grows

/-- Sound values stay so as records and scopes grow. -/
theorem Value.Sound.extend {value : Value} (sound : value.Sound ledger store)
    (extended : ledger.Extends later) (grows : store.Grows grown) :
    value.Sound later grown := by
  cases value with
  | function identity closure => exact Closure.Sound.extend sound extended grows
  | classValue value | object identity origin => exact Class.Sound.extend sound extended grows
  | _ => trivial

end

/-! ## Coherent machines -/

/-- All values that the machine holds are sound. -/
structure Machine.Coherent (ledger : Ledger) (machine : Machine) : Prop where
  distances : machine.distances = ledger.distances
  bound : ∀ scope name value, machine.store.getLocal? scope name = some value →
      value.Sound ledger machine.store
  fields : ∀ bindings ∈ machine.fields, ∀ name value,
    bindings.get? name = some value → value.Sound ledger machine.store

namespace Machine

variable {later : Machine}

/-- Nothing but the scopes and the fields holds values. -/
theorem Coherent.congr (coherent : machine.Coherent ledger)
    (distances : later.distances = machine.distances) (store : later.store = machine.store)
    (fields : later.fields = machine.fields) : later.Coherent ledger where
  distances := distances.trans coherent.distances
  bound := by
    rw [store]
    exact coherent.bound
  fields := by
    rw [store, fields]
    exact coherent.fields

end Machine

/-! ## Coherence as a discipline -/

namespace Discipline

/-- Code is resolved in contexts that the scopes it runs in cover. -/
def covering (ledger : Ledger) (globals : ScopeId) : Discipline where
  Site := Context
  after := Context.after
  distances := ledger.distances
  globals := globals
  Orderly _ := True
  Grows := Store.Grows
  Stands store scope context := store.Covers scope context.scopes
  Callable store closure := closure.Sound ledger store
  Bindable store closure := closure.MethodSound ledger store
  Admits context value := value.Resolved ledger context
  Allows context statement := statement.Resolved ledger context
  AllowsAll := Stmt.AllResolved ledger
  Returns context := context.inFunction = true
  Excuses _ _ := True
  grows_refl := .refl
  grows_trans := .trans
  stands_grow grows covers := covers.grow grows
  callable_grow grows sound := sound.extend (.refl ledger) grows
  bindable_grow grows sound := sound.extend (.refl ledger) grows

variable {globals : ScopeId}

/-- Values are sound under the discipline if their closures are. -/
theorem sound_covering {value : Value} :
    (covering ledger globals).Sound machine value ↔ value.Sound ledger machine.store := by
  have classes (origin : Class) : (covering ledger globals).SoundClass machine.store origin ↔
      origin.Sound ledger machine.store :=
    and_iff_right trivial
  cases value with
  | classValue value => exact classes value
  | object identity origin => exact (and_iff_right False.elim).trans (classes origin)
  | _ => exact Iff.rfl

/-- A coherent machine keeps to the discipline. -/
theorem keeps_covering (coherent : machine.Coherent ledger) :
    (covering ledger machine.globals).Keeps machine where
  distances := coherent.distances
  globals := rfl
  orderly := trivial
  bound scope name value bound :=
    sound_covering.mpr (coherent.bound scope name value bound)
  fields bindings mem name value bound :=
    sound_covering.mpr (coherent.fields bindings mem name value bound)

/-- A machine that keeps to the discipline is coherent. -/
theorem Keeps.coherent (keeps : (covering ledger globals).Keeps machine) :
    machine.Coherent ledger where
  distances := keeps.distances
  bound scope name value bound :=
    sound_covering.mp (keeps.bound scope name value bound)
  fields bindings mem name value bound :=
    sound_covering.mp (keeps.fields bindings mem name value bound)

end Discipline

end Treewalk
