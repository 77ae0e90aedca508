import Treewalk.Machine.Evaluation

/-!
# Scopes that cover a context

The scope analysis knows local scopes by the names they declare; the machine
knows scopes by the values they bind.  A scope of the machine covers a list of
local scopes if it and the scopes around it bind all declared names that may be
read, scope by scope.
-/

namespace Treewalk

open Scoping

variable {store : Store} {scopes : List LocalScope} {value : Value}

namespace Store

variable {scope : ScopeId}

theorem lt_size_of_parent? {parent : ScopeId} (enclosed : store.parent? scope = some parent) :
    scope < store.size := by
  unfold parent? at enclosed
  split at enclosed
  · next found existing =>
    rcases Array.getElem?_eq_some_iff.mp existing with ⟨inside, _⟩
    exact inside
  · cases enclosed

theorem lt_size_of_getLocal? {name : String} (bound : store.getLocal? scope name = some value) :
    scope < store.size := by
  unfold getLocal? at bound
  split at bound
  · next found existing =>
    rcases Array.getElem?_eq_some_iff.mp existing with ⟨inside, _⟩
    exact inside
  · cases bound

/-- From an outermost scope, names are looked for there only. -/
theorem binder?_of_outermost (outermost : store.parent? scope = none) (name : String) :
    store.binder? scope name =
      if (store.getLocal? scope name).isSome then some scope else none := by
  simp only [binder?, chain, chainWithin, outermost, List.find?_cons, List.find?_nil]
  split <;> simp_all

/-- Scopes keep the scopes around them, and names stay bound. -/
structure Grows (store later : Store) : Prop where
  parent : ∀ scope parent, store.parent? scope = some parent → later.parent? scope = some parent
  bound : ∀ scope name, (store.getLocal? scope name).isSome → (later.getLocal? scope name).isSome

theorem Grows.refl (store : Store) : store.Grows store :=
  ⟨fun _ _ enclosed => enclosed, fun _ _ bound => bound⟩

theorem Grows.trans {later last : Store} (grows : store.Grows later) (further : later.Grows last) :
    store.Grows last :=
  ⟨fun scope parent enclosed =>
      further.parent scope parent (grows.parent scope parent enclosed),
    fun scope name bound => further.bound scope name (grows.bound scope name bound)⟩

/-- A new scope is all that is added. -/
theorem grows_push (store : Store) (scope : Scope) : store.Grows (store.push scope) where
  parent := by
    intro other parent enclosed
    have older := Nat.ne_of_lt (lt_size_of_parent? enclosed)
    rw [parent?_push, if_neg older, enclosed]
  bound := by
    intro other name bound
    rcases Option.isSome_iff_exists.mp bound with ⟨value, found⟩
    have older := Nat.ne_of_lt (lt_size_of_getLocal? found)
    rw [getLocal?_push, if_neg older]
    exact bound

/-- Binding a name unbinds none. -/
theorem grows_define (store : Store) (scope : ScopeId) (name : String)
    (value : Value) : store.Grows (store.define scope name value) where
  parent := by
    intro other parent enclosed
    rw [parent?_define, enclosed]
  bound := by
    intro other key bound
    rw [getLocal?_define]
    split
    · rfl
    · exact bound

/-- A scope and the scopes around it bind what local scopes declare. -/
def Covers (store : Store) : ScopeId → List LocalScope → Prop
  | _, [] => True
  | scope, names :: outer =>
    (∀ name, names.lookup name = some true → (store.getLocal? scope name).isSome) ∧
    ∃ parent, store.parent? scope = some parent ∧ store.Covers parent outer

/-- What is covered once stays covered. -/
theorem Covers.grow {later : Store} (grows : store.Grows later) (covers : store.Covers scope scopes)
    :
    later.Covers scope scopes := by
  induction scopes generalizing scope with
  | nil => trivial
  | cons names outer ih =>
    rcases covers with ⟨binds, parent, enclosed, covers⟩
    exact ⟨fun name readable => grows.bound scope name (binds name readable),
      parent, grows.parent scope parent enclosed, ih covers⟩

/-- Every local scope is matched by the scope as many steps outwards. -/
theorem Covers.ancestor {store : Store} {scopes : List LocalScope}
    (covers : store.Covers scope scopes) {dist : Nat} {names : LocalScope}
    (found : scopes[dist]? = some names) :
    ∃ ancestor, store.ancestor? scope dist = some ancestor ∧
      ∀ name, names.lookup name = some true → (store.getLocal? ancestor name).isSome := by
  induction dist generalizing scope scopes with
  | zero =>
    cases scopes with
    | nil => cases found
    | cons innermost outer =>
      cases found
      rcases covers with ⟨binds, parent, enclosed, _⟩
      refine ⟨scope, ?_, binds⟩
      rw [ancestor?, if_pos (lt_size_of_parent? enclosed)]
  | succ dist ih =>
    cases scopes with
    | nil => cases found
    | cons innermost outer =>
      rcases covers with ⟨_, parent, enclosed, covers⟩
      rcases ih covers found with ⟨ancestor, reached, binds⟩
      refine ⟨ancestor, ?_, binds⟩
      rw [ancestor?, enclosed]
      exact reached

section

variable {scope : ScopeId} {ctx : Context} (covers : store.Covers scope ctx.scopes) (name : Token)

include covers name

/-- A name that is declared but may not be read needs no binding. -/
theorem Covers.declare : store.Covers scope (ctx.declare name).scopes := by
  unfold Context.declare Context.mark
  split
  · exact covers
  · next names outer scopes =>
    rw [scopes] at covers
    rcases covers with ⟨binds, enclosed⟩
    refine ⟨?_, enclosed⟩
    intro other readable
    rw [List.lookup_cons] at readable
    split at readable
    · cases readable
    · exact binds other readable

/-- A name that is declared and bound is covered. -/
theorem Covers.define (value : Value) :
    (store.define scope name.lexeme value).Covers scope (ctx.define name).scopes := by
  have grown := covers.grow (grows_define store scope name.lexeme value)
  unfold Context.define Context.mark
  split
  · exact grown
  · next names outer scopes =>
    rw [scopes] at grown covers
    rcases grown with ⟨binds, enclosed⟩
    rcases covers with ⟨_, parent, inside, _⟩
    refine ⟨?_, enclosed⟩
    intro other readable
    rw [List.lookup_cons] at readable
    split at readable
    · next same =>
      simp only [beq_iff_eq] at same
      subst same
      rw [getLocal?_define, if_pos ⟨rfl, rfl, lt_size_of_parent? inside⟩]
      rfl
    · exact binds other readable

end

section

variable {parent : ScopeId} (covers : store.Covers parent scopes)

include covers

/-- A new scope covers the names it binds. -/
theorem Covers.push {bindings : Bindings} {names : LocalScope}
    (binds : ∀ name, names.lookup name = some true → (bindings.get? name).isSome) :
    (store.push ⟨bindings, some parent⟩).Covers store.size (names :: scopes) := by
  refine ⟨?_, parent, ?_, covers.grow (grows_push store _)⟩
  · intro name readable
    rw [getLocal?_push, if_pos rfl]
    exact binds name readable
  · rw [parent?_push, if_pos rfl]

theorem Covers.receiver (receiver : Value) :
    (store.push ⟨Bindings.empty.set "this" receiver, some parent⟩).Covers
      store.size ([("this", true)] :: scopes) := by
  refine covers.push ?_
  intro name readable
  rw [List.lookup_cons] at readable
  split at readable
  · next same =>
    rw [beq_iff_eq.mp same, Bindings.get?_set, if_pos rfl]
    rfl
  · cases readable

end

end Store

/-! ## Parameters and arguments -/

theorem Scoping.Context.foldl_define_scopes {ctx : Context}
    {names : LocalScope} {outer : List LocalScope}
    (scopes : ctx.scopes = names :: outer) (params : List Token) :
    ∃ declared, (params.foldl Context.define ctx).scopes = declared :: outer ∧
      ∀ name, declared.lookup name = some true → names.lookup name = some true ∨
          name ∈ params.map Token.lexeme := by
  induction params generalizing ctx names with
  | nil => exact ⟨names, scopes, fun name readable => .inl readable⟩
  | cons parameter params ih =>
    have defined : (ctx.define parameter).scopes =
        ((parameter.lexeme, true) :: names) :: outer := by
      simp [Context.define, Context.mark, scopes]
    rcases ih defined with ⟨declared, folded, readable⟩
    refine ⟨declared, folded, ?_⟩
    intro name found
    rcases readable name found with found | mem
    · rw [List.lookup_cons] at found
      split at found
      · next same =>
        simp only [beq_iff_eq] at same
        exact .inr (same ▸ .head _)
      · exact .inl found
    · exact .inr (.tail _ mem)

/-- Inside a function, only its parameters are added to the context. -/
theorem Scoping.Context.inBody_scopes (ctx : Context) (params : List Token) :
    ∃ declared, (ctx.inBody params).scopes = declared :: ctx.scopes ∧
      ∀ name, declared.lookup name = some true → name ∈ params.map Token.lexeme := by
  have entered : ({ ctx.enter [] with inFunction := true } :
      Context).scopes = [] :: ctx.scopes := rfl
  rcases foldl_define_scopes entered params with ⟨declared, folded, readable⟩
  refine ⟨declared, folded, ?_⟩
  intro name found
  rcases readable name found with impossible | mem
  · cases impossible
  · exact mem

theorem foldl_set_isSome (pairs : List (Token × Value)) (bindings : Bindings) (name : String)
    (bound : (bindings.get? name).isSome ∨ name ∈ pairs.map (·.1.lexeme)) :
    ((pairs.foldl (fun bindings (parameter, argument) =>
        bindings.set parameter.lexeme argument) bindings).get? name).isSome := by
  induction pairs generalizing bindings with
  | nil => exact bound.resolve_right (by simp)
  | cons pair pairs ih =>
    refine ih _ ?_
    rw [Bindings.get?_set]
    rcases bound with bound | mem
    · split
      · exact .inl rfl
      · exact .inl bound
    · rcases List.mem_cons.mp mem with rfl | mem
      · exact .inl (by simp)
      · exact .inr mem

variable {name : String} {args : List Value}

theorem exists_of_foldl_set {pairs : List (Token × Value)} {bindings : Bindings}
    (bound :
      (pairs.foldl (fun bindings (parameter, argument) =>
        bindings.set parameter.lexeme argument) bindings).get? name = some value)
    :
    bindings.get? name = some value ∨ ∃ pair ∈ pairs, pair.1.lexeme = name ∧ pair.2 = value := by
  induction pairs generalizing bindings with
  | nil => exact .inl bound
  | cons pair pairs ih =>
    rcases ih bound with found | ⟨other, mem, found⟩
    · rw [Bindings.get?_set] at found
      split at found
      · next same =>
        exact .inr ⟨pair, .head _, same.symm, Option.some.inj found⟩
      · exact .inl found
    · exact .inr ⟨other, .tail _ mem, found⟩

/-- The scope of a call holds nothing but parameters and their arguments. -/
theorem Closure.exists_of_argumentBindings {closure : Closure}
    (bound : (closure.argumentBindings args).get? name = some value) :
    ∃ parameter ∈ closure.declaration.parameters, parameter.lexeme = name ∧ value ∈ args := by
  rcases exists_of_foldl_set bound with impossible | ⟨pair, mem, same, rfl⟩
  · cases impossible
  · exact ⟨pair.1, (List.of_mem_zip mem).1, same, (List.of_mem_zip mem).2⟩

/-- A call with enough arguments binds all parameters. -/
theorem Closure.argumentBindings_isSome (closure : Closure) (given : args.length = closure.arity)
    (mem : name ∈ closure.declaration.parameters.map Token.lexeme) :
    ((closure.argumentBindings args).get? name).isSome := by
  refine foldl_set_isSome _ .empty name (.inr ?_)
  have paired : (closure.declaration.parameters.zip args).map Prod.fst =
      closure.declaration.parameters :=
    List.map_fst_zip (Nat.le_of_eq given.symm)
  rw [← paired, List.map_map] at mem
  exact mem

/-- The scope of a call covers the parameters. -/
theorem Store.Covers.call {store : Store} {closure : Closure} {ctx : Context}
    (covers : store.Covers closure.scope ctx.scopes) (given : args.length = closure.arity) :
    (store.push ⟨closure.argumentBindings args, some closure.scope⟩).Covers store.size
        (ctx.inBody closure.declaration.parameters).scopes := by
  rcases ctx.inBody_scopes closure.declaration.parameters with ⟨declared, scopes, readable⟩
  rw [scopes]
  exact covers.push fun name found => closure.argumentBindings_isSome given (readable name found)

end Treewalk
