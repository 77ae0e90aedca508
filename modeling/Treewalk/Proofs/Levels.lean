import Treewalk.Proofs.Analysis
import Treewalk.Proofs.Coverage

/-!
# Names that are bound at one level

The level of a scope is the number of steps from it out to the global scope.
If only scopes of one level bind a name, a search for the name from any scope
outwards ends in the scope that the distance of the name leads to.  Receivers
are bound at many levels; for them it matters that a scope binds the receiver
only if the text around the place does so too.
-/

namespace Treewalk

open Scoping

variable {dist : Nat}

namespace Store

variable {store later : Store} {scope ancestor globals : ScopeId} {name : String}

/-! ## Searching outwards -/

/-- Scopes lie inside older ones. -/
def Nested (store : Store) : Prop :=
  ∀ scope parent, store.parent? scope = some parent → parent < scope

variable {bindings : Bindings} {value : Value}

theorem Nested.push (nested : store.Nested) (existing : scope < store.size) :
    (store.push ⟨bindings, some scope⟩).Nested := by
  intro other parent enclosed
  rw [parent?_push] at enclosed
  split at enclosed
  · next newest =>
    cases enclosed
    rw [newest]
    exact existing
  · exact nested other parent enclosed

theorem Nested.define (nested : store.Nested) : (store.define scope name value).Nested := by
  intro other parent enclosed
  rw [parent?_define] at enclosed
  exact nested other parent enclosed

/-- A bound above the number of the scope is no bound. -/
theorem Nested.chainWithin_eq (nested : store.Nested) {bound : Nat} (enough : scope < bound) :
    store.chainWithin bound scope = store.chain scope := by
  induction scope using Nat.strongRecOn generalizing bound with
  | ind scope ih =>
    cases bound with
    | zero => exact absurd enough (Nat.not_lt_zero _)
    | succ bound =>
      unfold chain chainWithin
      cases enclosed : store.parent? scope with
      | none => rfl
      | some parent =>
        have older := nested scope parent enclosed
        have within := Nat.lt_of_lt_of_le older (Nat.le_of_lt_succ enough)
        simp only [ih parent older within, ih parent older older]

/-- A search ends at once where the name is bound. -/
theorem binder?_of_bound (bound : (store.getLocal? scope name).isSome) :
    store.binder? scope name = some scope := by
  simp [binder?, chain, chainWithin, bound]

/-- Otherwise it goes on one scope further out. -/
theorem Nested.binder?_of_unbound (nested : store.Nested) {parent : ScopeId}
    (enclosed : store.parent? scope = some parent)
    (unbound : ¬ (store.getLocal? scope name).isSome) :
    store.binder? scope name = store.binder? parent name := by
  have older := nested scope parent enclosed
  have absent := Bool.eq_false_iff.mpr unbound
  unfold binder?
  rw [chain, chainWithin, enclosed]
  simp [absent, nested.chainWithin_eq older]

theorem get?_of_bound (bound : (store.getLocal? scope name).isSome) :
    store.get? scope name = store.getLocal? scope name := by
  rw [get?, binder?_of_bound bound]

theorem Nested.get?_of_unbound (nested : store.Nested) {parent : ScopeId}
    (enclosed : store.parent? scope = some parent)
    (unbound : ¬ (store.getLocal? scope name).isSome) :
    store.get? scope name = store.get? parent name := by
  rw [get?, get?, nested.binder?_of_unbound enclosed unbound]

theorem bound_of_binder? (found : store.binder? scope name = some ancestor) :
    (store.getLocal? ancestor name).isSome := by
  have holds := List.find?_some found
  exact holds

/-! ## Steps outwards -/

theorem ancestor?_zero (existing : scope < store.size) : store.ancestor? scope 0 = some scope := by
  rw [ancestor?, if_pos existing]

theorem eq_of_ancestor?_zero (reached : store.ancestor? scope 0 = some ancestor) :
    ancestor = scope := by
  rw [ancestor?] at reached
  split at reached
  · exact (Option.some.inj reached).symm
  · cases reached

theorem exists_parent_of_ancestor?_succ (reached : store.ancestor? scope (dist + 1) = some ancestor)
    : ∃ parent, store.parent? scope = some parent ∧
      store.ancestor? parent dist = some ancestor := by
  rw [ancestor?] at reached
  cases enclosed : store.parent? scope with
  | none =>
    rw [enclosed] at reached
    cases reached
  | some parent =>
    rw [enclosed] at reached
    exact ⟨parent, rfl, reached⟩

/-- Walks outwards can be made in two parts. -/
theorem ancestor?_add (reached : store.ancestor? scope dist = some ancestor) (further : Nat) :
    store.ancestor? scope (dist + further) = store.ancestor? ancestor further := by
  induction dist generalizing scope with
  | zero => rw [eq_of_ancestor?_zero reached, Nat.zero_add]
  | succ dist ih =>
    rcases exists_parent_of_ancestor?_succ reached with ⟨parent, enclosed, reached⟩
    rw [Nat.succ_add, ancestor?, enclosed]
    exact ih reached

theorem lt_size_of_ancestor? (reached : store.ancestor? scope dist = some ancestor) :
    scope < store.size := by
  cases dist with
  | zero =>
    rw [ancestor?] at reached
    split at reached
    · next existing => exact existing
    · cases reached
  | succ dist =>
    rcases exists_parent_of_ancestor?_succ reached with ⟨_, enclosed, _⟩
    exact lt_size_of_parent? enclosed

/-- A scope is one number of steps away from a scope without a parent. -/
theorem distance_unique (outermost : store.parent? globals = none) {other : Nat}
    (reached : store.ancestor? scope dist = some globals)
    (again : store.ancestor? scope other = some globals) : dist = other := by
  induction dist generalizing scope other with
  | zero =>
    cases other with
    | zero => rfl
    | succ other =>
      rcases exists_parent_of_ancestor?_succ again with ⟨_, enclosed, _⟩
      rw [← eq_of_ancestor?_zero reached, outermost] at enclosed
      cases enclosed
  | succ dist ih =>
    rcases exists_parent_of_ancestor?_succ reached with ⟨parent, enclosed, reached⟩
    cases other with
    | zero =>
      rw [← eq_of_ancestor?_zero again, outermost] at enclosed
      cases enclosed
    | succ other =>
      rw [ancestor?, enclosed] at again
      rw [ih reached again]

/-- A search ends at the first ancestor that binds the name. -/
theorem Nested.binder?_of_ancestor (nested : store.Nested)
    (reached : store.ancestor? scope dist = some ancestor)
    (unbound : ∀ closer < dist, ∀ other, store.ancestor? scope closer = some other →
        ¬ (store.getLocal? other name).isSome) :
    store.binder? scope name = store.binder? ancestor name := by
  induction dist generalizing scope with
  | zero => rw [eq_of_ancestor?_zero reached]
  | succ dist ih =>
    have here := unbound 0 (Nat.succ_pos _) scope (ancestor?_zero (lt_size_of_ancestor? reached))
    rcases exists_parent_of_ancestor?_succ reached with ⟨parent, enclosed, reached⟩
    rw [nested.binder?_of_unbound enclosed here]
    refine ih reached ?_
    intro closer below other found
    refine unbound (closer + 1) (Nat.succ_lt_succ below) other ?_
    rw [ancestor?, enclosed]
    exact found

/-! ## Growth -/

/-- Scopes grow, and none that exists comes to bind the receiver. -/
structure Retains (store later : Store) : Prop
    extends store.Grows later where
  size_le : store.size ≤ later.size
  receiver : ∀ scope < store.size, (later.getLocal? scope "this").isSome →
    (store.getLocal? scope "this").isSome

theorem Retains.refl (store : Store) : store.Retains store :=
  ⟨.refl store, Nat.le_refl _, fun _ _ bound => bound⟩

theorem Retains.trans {last : Store} (retains : store.Retains later)
    (further : later.Retains last) : store.Retains last where
  toGrows := retains.toGrows.trans further.toGrows
  size_le := Nat.le_trans retains.size_le further.size_le
  receiver scope existing bound :=
    retains.receiver scope existing
      (further.receiver scope (Nat.lt_of_lt_of_le existing retains.size_le) bound)

/-- A new scope changes no other. -/
theorem retains_push (store : Store) (scope : Scope) : store.Retains (store.push scope) where
  toGrows := grows_push store scope
  size_le := by
    rw [size_push]
    exact Nat.le_succ _
  receiver other existing bound := by
    rw [getLocal?_push, if_neg (Nat.ne_of_lt existing)] at bound
    exact bound

theorem retains_define (unreceived : name = "this" → (store.getLocal? scope name).isSome) :
    store.Retains (store.define scope name value) where
  toGrows := grows_define store scope name value
  size_le := Nat.le_of_eq (size_define store scope name value).symm
  receiver other existing bound := by
    rw [getLocal?_define] at bound
    split at bound
    · next same =>
      rcases same with ⟨rfl, named, _⟩
      rw [← named]
      exact unreceived named
    · exact bound

theorem Retains.ancestor? (retains : store.Retains later) {dist : Nat}
    (reached : store.ancestor? scope dist = some ancestor) :
    later.ancestor? scope dist = some ancestor := by
  induction dist generalizing scope with
  | zero =>
    rw [eq_of_ancestor?_zero reached]
    exact ancestor?_zero (Nat.lt_of_lt_of_le (lt_size_of_ancestor? reached) retains.size_le)
  | succ dist ih =>
    rcases exists_parent_of_ancestor?_succ reached with ⟨parent, enclosed, reached⟩
    rw [Store.ancestor?, retains.parent scope parent enclosed]
    exact ih reached

/-! ## Levels -/

/-- Local scopes bind names, except for receivers, at the level of the name. -/
structure Leveled (level : String → Nat) (globals : ScopeId)
    (store : Store) : Prop where
  nested : store.Nested
  existing : globals < store.size
  outermost : store.parent? globals = none
  bound : ∀ scope name, (store.getLocal? scope name).isSome → name ≠ "this" → scope ≠ globals →
      store.ancestor? scope (level name) = some globals

/--
A scope covers local scopes, as many steps outwards as there are local scopes
is the global one, and receivers are bound only where local scopes declare
them.
-/
structure Fits (globals : ScopeId) (store : Store) (scope : ScopeId)
    (scopes : List LocalScope) : Prop where
  covers : store.Covers scope scopes
  outermost : store.ancestor? scope scopes.length = some globals
  receiver : ∀ distance names ancestor, scopes[distance]? = some names →
    store.ancestor? scope distance = some ancestor →
    (store.getLocal? ancestor "this").isSome → (names.lookup "this").isSome

variable {level : String → Nat} {scopes : List LocalScope} {ctx : Context}

/-- Binding a name at its level keeps levels. -/
theorem Leveled.define (leveled : store.Leveled level globals)
    (placed : name ≠ "this" → scope ≠ globals → store.ancestor? scope (level name) = some globals)
    (retains : store.Retains (store.define scope name value)) :
    (store.define scope name value).Leveled level globals where
  nested := leveled.nested.define
  existing := by
    rw [size_define]
    exact leveled.existing
  outermost := by
    rw [parent?_define]
    exact leveled.outermost
  bound := by
    intro other key bound named inner
    refine retains.ancestor? ?_
    rw [getLocal?_define] at bound
    split at bound
    · next same =>
      rcases same with ⟨rfl, rfl, _⟩
      exact placed named inner
    · exact leveled.bound other key bound named inner

theorem Fits.grow (fits : store.Fits globals scope scopes)
    (retains : store.Retains later) : later.Fits globals scope scopes where
  covers := fits.covers.grow retains.toGrows
  outermost := retains.ancestor? fits.outermost
  receiver := by
    intro dist names ancestor found reached bound
    rcases fits.covers.ancestor found with ⟨former, formerly, _⟩
    have same := (retains.ancestor? formerly).symm.trans reached
    cases same
    have existing : ancestor < store.size := by
      have inside := ancestor?_add formerly 0
      rw [Nat.add_zero, formerly] at inside
      exact lt_size_of_ancestor? inside.symm
    exact fits.receiver dist names ancestor found formerly
      (retains.receiver ancestor existing bound)

section

variable (fits : store.Fits globals scope ctx.scopes)

include fits

theorem Fits.mark {readable : Bool} (covers : store.Covers scope (ctx.mark name readable).scopes) :
    store.Fits globals scope (ctx.mark name readable).scopes := by
  refine ⟨covers, ?_, ?_⟩
  · rw [ctx.length_scopes_mark]
    exact fits.outermost
  · intro dist names ancestor found reached bound
    unfold Context.mark at found
    split at found
    · exact fits.receiver dist names ancestor found reached bound
    · next innermost outer around =>
      cases dist with
      | zero =>
        cases found
        have declared := fits.receiver 0 innermost ancestor (by rw [around]; rfl) reached bound
        rw [List.lookup_cons]
        split
        · rfl
        · exact declared
      | succ dist =>
        exact fits.receiver (dist + 1) names ancestor (by rw [around]; exact found) reached bound

theorem Fits.declare (name : Token) : store.Fits globals scope (ctx.declare name).scopes :=
  fits.mark (fits.covers.declare name)

theorem Fits.define {name : Token} (named : name.lexeme ≠ "this") (value : Value) :
    (store.define scope name.lexeme value).Fits globals scope (ctx.define name).scopes :=
  (fits.grow (retains_define fun same => absurd same named)).mark (fits.covers.define name value)

end

/-- A new scope fits one local scope more. -/
theorem Fits.push (fits : store.Fits globals scope scopes) {names : LocalScope}
    (covers : (store.push ⟨bindings, some scope⟩).Covers store.size (names :: scopes))
    (receiver : (bindings.get? "this").isSome → (names.lookup "this").isSome) :
    (store.push ⟨bindings, some scope⟩).Fits globals store.size (names :: scopes) := by
  have grown := fits.grow (retains_push store ⟨bindings, some scope⟩)
  have enclosed : (store.push ⟨bindings, some scope⟩).parent? store.size = some scope := by
    rw [parent?_push, if_pos rfl]
  refine ⟨covers, ?_, ?_⟩
  · rw [List.length_cons, ancestor?, enclosed]
    exact grown.outermost
  · intro dist others ancestor found reached bound
    cases dist with
    | zero =>
      cases found
      rw [eq_of_ancestor?_zero reached, getLocal?_push, if_pos rfl] at bound
      exact receiver bound
    | succ dist =>
      rw [ancestor?, enclosed] at reached
      exact grown.receiver dist others ancestor found reached bound

theorem Leveled.push (leveled : store.Leveled level globals)
    (fits : store.Fits globals scope scopes)
    (placed : ∀ name, (bindings.get? name).isSome → name ≠ "this" → level name = scopes.length + 1)
    :
    (store.push ⟨bindings, some scope⟩).Leveled level globals where
  nested := leveled.nested.push (lt_size_of_ancestor? fits.outermost)
  existing := by
    rw [size_push]
    exact Nat.lt_succ_of_lt leveled.existing
  outermost := by
    rw [parent?_push, if_neg (Nat.ne_of_lt leveled.existing)]
    exact leveled.outermost
  bound := by
    have retains := retains_push store ⟨bindings, some scope⟩
    intro other key bound named inner
    rw [getLocal?_push] at bound
    split at bound
    · next newest =>
      rw [placed key bound named, newest, ancestor?, parent?_push, if_pos rfl]
      exact retains.ancestor? fits.outermost
    · exact retains.ancestor? (leveled.bound other key bound named inner)

theorem Fits.ancestor_level (fits : store.Fits globals scope scopes)
    (placed : 0 < scopes.length → level name = scopes.length) (inner : scope ≠ globals) :
    store.ancestor? scope (level name) = some globals := by
  cases scopes with
  | nil => exact absurd (eq_of_ancestor?_zero fits.outermost).symm inner
  | cons names outer =>
    rw [placed (Nat.succ_pos _)]
    exact fits.outermost

/-- A name is bound at its level only. -/
theorem Leveled.level_of_bound (leveled : store.Leveled level globals)
    (fits : store.Fits globals scope scopes) (inside : dist < scopes.length)
    (reached : store.ancestor? scope dist = some ancestor)
    (bound : (store.getLocal? ancestor name).isSome) (named : name ≠ "this") :
    dist + level name = scopes.length := by
  refine distance_unique leveled.outermost ?_ fits.outermost
  rw [ancestor?_add reached]
  refine leveled.bound ancestor name bound named ?_
  intro outermost
  rw [outermost] at reached
  exact absurd (distance_unique leveled.outermost reached fits.outermost) (Nat.ne_of_lt inside)

/-- A search for the receiver ends where its distance leads. -/
theorem Fits.binder?_receiver (fits : store.Fits globals scope ctx.scopes) (nested : store.Nested)
    (readable : ctx.Readable "this") (nearest : ctx.distance? "this" = some dist) :
    store.binder? scope "this" = store.ancestor? scope dist := by
  rcases readable dist nearest with ⟨names, found, declared⟩
  rcases fits.covers.ancestor found with ⟨ancestor, reached, binds⟩
  rcases List.findIdx?_eq_some_iff_getElem.mp nearest with ⟨inside, _, minimal⟩
  rw [nested.binder?_of_ancestor reached, binder?_of_bound (binds "this" declared), reached]
  intro closer below other passed bound
  exact absurd (fits.receiver closer _ other
    (List.getElem?_eq_getElem (Nat.lt_trans below inside)) passed bound) (minimal closer below)

/--
A search for a name that has a distance ends where the distance leads; a search
for a name that has none, and no level, ends in the global scope.
-/
theorem Leveled.binder?_eq (leveled : store.Leveled level globals)
    (fits : store.Fits globals scope ctx.scopes) (readable : ctx.Readable name)
    (unplaced : ctx.distance? name = none → name ≠ "this" → level name = 0) :
    store.binder? scope name = match ctx.distance? name with
      | some dist => store.ancestor? scope dist
      | none => store.binder? globals name := by
  cases nearest : ctx.distance? name with
  | some dist =>
    by_cases received : name = "this"
    · subst received
      exact fits.binder?_receiver leveled.nested readable nearest
    rcases readable dist nearest with ⟨names, found, declared⟩
    rcases fits.covers.ancestor found with ⟨ancestor, reached, binds⟩
    rcases List.findIdx?_eq_some_iff_getElem.mp nearest with ⟨inside, _, _⟩
    simp only [reached]
    rw [leveled.nested.binder?_of_ancestor reached, binder?_of_bound (binds name declared)]
    intro closer below other passed bound
    have level := leveled.level_of_bound fits inside reached (binds name declared) received
    have other :=
      leveled.level_of_bound fits (Nat.lt_trans below inside) passed bound received
    omega
  | none =>
    rw [leveled.nested.binder?_of_ancestor fits.outermost]
    intro closer below other passed bound
    by_cases received : name = "this"
    · have declares := fits.receiver closer _ other
        (List.getElem?_eq_getElem below) passed (received ▸ bound)
      have undeclared := List.findIdx?_eq_none_iff.mp nearest _ (List.getElem_mem below)
      rw [received, declares] at undeclared
      cases undeclared
    · have level := leveled.level_of_bound fits below passed bound received
      have outermost := unplaced nearest received
      omega

/-- Outside of all local scopes a session starts in the global one. -/
theorem fits_initial (clock : Nat → Float) (output : Sink) :
    (Machine.initial clock output).store.Fits 0 0 Context.outermost.scopes := by
  refine ⟨trivial, rfl, ?_⟩
  intro distance names ancestor found
  cases found

end Store

end Treewalk
