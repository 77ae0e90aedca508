import Treewalk.Machine.Value

/-!
# The store of scopes

Scopes are numbered in the order they are made.  Each binds names to values
and may be enclosed by an older scope.  A name is looked for from a scope
outwards, or in exactly one scope, a given number of steps outwards.

All operations are total.  A scope that does not exist binds nothing and
encloses nothing, so a search through it fails like any other.
-/

namespace Treewalk

/-- Names with their values; each name occurs once. -/
structure Bindings where
  entries : List (String × Value)

namespace Bindings

/-- Nothing is bound. -/
def empty : Bindings :=
  ⟨[]⟩

/-- The value of a name. -/
def get? (bindings : Bindings) (name : String) : Option Value :=
  bindings.entries.lookup name

/-- Put a value under a name in a list of entries. -/
def setEntry (name : String) (value : Value) :
    List (String × Value) → List (String × Value)
  | [] => [(name, value)]
  | (other, current) :: entries =>
    if name == other then
      (other, value) :: entries
    else
      (other, current) :: setEntry name value entries

/-- Bind a name, in place of what it was bound to. -/
def set (bindings : Bindings) (name : String) (value : Value) : Bindings :=
  ⟨setEntry name value bindings.entries⟩

theorem lookup_setEntry (name other : String) (value : Value) (entries : List (String × Value)) :
    (setEntry name value entries).lookup other =
      if other = name then some value else entries.lookup other := by
  induction entries with
  | nil =>
    by_cases same : other = name
    · simp [setEntry, same]
    · have differ : (other == name) = false := by simpa using same
      simp [setEntry, List.lookup_cons, same, differ]
  | cons entry entries inductionHypothesis =>
    obtain ⟨key, current⟩ := entry
    by_cases found : name = key
    · subst found
      by_cases same : other = name
      · simp [setEntry, same]
      · have differ : (other == name) = false := by simpa using same
        simp [setEntry, List.lookup_cons, same, differ]
    · by_cases same : other = key
      · subst same
        simp [setEntry, found, Ne.symm found]
      · have differ : (other == key) = false := by simpa using same
        simp [setEntry, List.lookup_cons, found, differ, inductionHypothesis]

/-- Binding a name changes what is bound to that name only. -/
@[simp]
theorem get?_set (bindings : Bindings) (name other : String) (value : Value) :
    (bindings.set name value).get? other =
      if other = name then some value else bindings.get? other :=
  lookup_setEntry name other value bindings.entries

end Bindings

/-- A scope: its own names, and the scope around it. -/
structure Scope where
  bindings : Bindings
  parent : Option ScopeId

/-- All scopes made so far. -/
structure Store where
  scopes : Array Scope

namespace Store

/-- No scope has been made. -/
def empty : Store :=
  ⟨#[]⟩

/-- How many scopes have been made, which is the number of the next one. -/
def size (store : Store) : Nat :=
  store.scopes.size

/-- Make a scope. -/
def push (store : Store) (scope : Scope) : Store :=
  ⟨store.scopes.push scope⟩

/-- The scope around a scope. -/
def parent? (store : Store) (scope : ScopeId) : Option ScopeId :=
  match store.scopes[scope]? with
  | some found => found.parent
  | none => none

/-- The value a scope itself binds a name to. -/
def getLocal? (store : Store) (scope : ScopeId) (name : String) :
    Option Value :=
  match store.scopes[scope]? with
  | some found => found.bindings.get? name
  | none => none

/-- Bind a name in a scope. -/
def define (store : Store) (scope : ScopeId) (name : String) (value : Value) :
    Store :=
  ⟨store.scopes.modify scope fun found =>
    { found with bindings := found.bindings.set name value }⟩

section

variable (store : Store)

include store

@[simp]
theorem size_push (scope : Scope) : (store.push scope).size = store.size + 1 := by
  simp [size, push]

theorem parent?_push (scope : Scope) (other : ScopeId) :
    (store.push scope).parent? other =
      if other = store.size then scope.parent else store.parent? other := by
  by_cases newest : other = store.size
  · simp [parent?, push, size, newest]
  · have older : other ≠ store.scopes.size := newest
    simp [parent?, push, Array.getElem?_push, newest, older]

/-- A new scope comes last and changes no other. -/
theorem getLocal?_push (scope : Scope) (other : ScopeId) (name : String) :
    (store.push scope).getLocal? other name =
      if other = store.size then scope.bindings.get? name
      else store.getLocal? other name := by
  by_cases newest : other = store.size
  · simp [getLocal?, push, size, newest]
  · have older : other ≠ store.scopes.size := newest
    simp [getLocal?, push, Array.getElem?_push, newest, older]

@[simp]
theorem size_define (scope : ScopeId) (name : String) (value : Value) :
    (store.define scope name value).size = store.size := by
  simp [size, define]

@[simp]
theorem parent?_define (scope other : ScopeId) (name : String) (value : Value) :
    (store.define scope name value).parent? other = store.parent? other := by
  by_cases same : scope = other
  · subst same
    cases found : store.scopes[scope]? <;> simp [parent?, define, Array.getElem?_modify, found]
  · simp [parent?, define, Array.getElem?_modify, same]

/-- Binding a name in a scope changes that scope at that name only. -/
theorem getLocal?_define (scope other : ScopeId) (name key : String) (value : Value) :
    (store.define scope name value).getLocal? other key =
      if scope = other ∧ name = key ∧ scope < store.size then some value
      else store.getLocal? other key := by
  by_cases same : scope = other
  · subst same
    cases found : store.scopes[scope]? with
    | none =>
      have outside : ¬ scope < store.size := by
        simpa [size] using found
      simp [getLocal?, define, Array.getElem?_modify, found, outside]
    | some current =>
      have inside : scope < store.size := by
        obtain ⟨bound, _⟩ := Array.getElem?_eq_some_iff.mp found
        exact bound
      simp [getLocal?, define, Array.getElem?_modify, found, inside, eq_comm]
  · simp [getLocal?, define, Array.getElem?_modify, same]

end

/-- The scope a given number of steps outwards. -/
def ancestor? (store : Store) (scope : ScopeId) : Nat → Option ScopeId
  | 0 => if scope < store.size then some scope else none
  | distance + 1 =>
    match store.parent? scope with
    | some parent => store.ancestor? parent distance
    | none => none

/--
The scopes from a given one outwards, up to a bound on their number.
-/
def chainWithin (store : Store) : Nat → ScopeId → List ScopeId
  | 0, _ => []
  | bound + 1, scope =>
    scope ::
      match store.parent? scope with
      | some parent => store.chainWithin bound parent
      | none => []

/--
The scopes from a given one outwards.  Enclosing scopes are older, so there
are no more of them than the number of the scope says.
-/
def chain (store : Store) (scope : ScopeId) : List ScopeId :=
  store.chainWithin (scope + 1) scope

/-- The nearest scope, from a given one outwards, that binds a name. -/
def binder? (store : Store) (scope : ScopeId) (name : String) :
    Option ScopeId :=
  (store.chain scope).find? fun candidate =>
    (store.getLocal? candidate name).isSome

/-- The value of a name, looked for from a scope outwards. -/
def get? (store : Store) (scope : ScopeId) (name : String) : Option Value :=
  match store.binder? scope name with
  | some binder => store.getLocal? binder name
  | none => none

/-- Give a name a new value where it is bound, looked for outwards. -/
def assign? (store : Store) (scope : ScopeId) (name : String) (value : Value) :
    Option Store :=
  match store.binder? scope name with
  | some binder => some (store.define binder name value)
  | none => none

/-- The value of a name in the scope a given number of steps outwards. -/
def getAt? (store : Store) (scope : ScopeId) (distance : Nat) (name : String) :
    Option Value :=
  match store.ancestor? scope distance with
  | some ancestor => store.getLocal? ancestor name
  | none => none

/-- Bind a name in the scope a given number of steps outwards. -/
def assignAt? (store : Store) (scope : ScopeId) (distance : Nat)
    (name : String) (value : Value) : Option Store :=
  match store.ancestor? scope distance with
  | some ancestor => some (store.define ancestor name value)
  | none => none

end Store

end Treewalk
