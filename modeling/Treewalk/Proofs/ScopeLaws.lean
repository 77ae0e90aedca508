import Treewalk.Proofs.Levels

/-!
# Laws of scopes

Whatever is asked of a store that began without scopes, its scopes lie inside
older ones, so every walk outwards ends.  A search for a name ends at the least
distance at which the name is bound, which `Hits` describes.  Rebinding keeps
where every search ends, and only searches that end in the rebound scope come
to see another value.
-/

namespace Treewalk

namespace Store

/-! ## Requests -/

/-- What can be asked of a store. -/
inductive Request where
  /-- A scope that no other one encloses. -/
  | make
  /-- A scope inside another one. -/
  | child (scope : ScopeId)
  | define (scope : ScopeId) (name : String) (value : Value)
  | get (scope : ScopeId) (name : String)
  | assign (scope : ScopeId) (name : String) (value : Value)
  | getAt (scope : ScopeId) (distance : Nat) (name : String)
  | assignAt (scope : ScopeId) (distance : Nat) (name : String) (value : Value)

/-- How a store answers. -/
inductive Reply where
  | scope (made : ScopeId)
  | value (found : Value)
  | done
  | failed (fault : Fault)
  /-- The scope in question has not been made. -/
  | missing

/-- The request was not met. -/
def Reply.refuses : Reply → Bool
  | failed _ => true
  | missing => true
  | _ => false

/-- The answer to a request for the value of a name. -/
def answerRead (store : Store) (name : String) : Option Value → Reply × Store
  | some value => (.value value, store)
  | none => (.failed (.undefinedVariable name), store)

/-- The answer to a request to give a name a value. -/
def answerWrite (store : Store) (name : String) : Option Store → Reply × Store
  | some later => (.done, later)
  | none => (.failed (.undefinedVariable name), store)

/-- The answer to a request for something to be done with a scope. -/
def answerWith (store : Store) (scope : ScopeId) (reply : Reply) (later : Store) : Reply × Store :=
  if scope < store.size then (reply, later) else (.missing, store)

/-- Meet a request. -/
def perform (store : Store) : Request → Reply × Store
  | .make => (.scope store.size, store.push ⟨.empty, none⟩)
  | .child scope =>
    store.answerWith scope (.scope store.size) (store.push ⟨.empty, some scope⟩)
  | .define scope name value =>
    store.answerWith scope .done (store.define scope name value)
  | .get scope name => store.answerRead name (store.get? scope name)
  | .assign scope name value =>
    store.answerWrite name (store.assign? scope name value)
  | .getAt scope distance name =>
    store.answerRead name (store.getAt? scope distance name)
  | .assignAt scope distance name value =>
    store.answerWrite name (store.assignAt? scope distance name value)

/-- The store after a list of requests. -/
def after (store : Store) (requests : List Request) : Store :=
  requests.foldl (fun store request => (store.perform request).2) store

variable {store later : Store} {scope binder : ScopeId} {name : String}
  {value : Value} {distance : Nat}

theorem eq_of_answerRead_refuses {found : Option Value}
    (refused : (store.answerRead name found).1.refuses) :
    (store.answerRead name found).2 = store := by
  cases found with
  | none => rfl
  | some value => cases refused

theorem eq_of_answerWrite_refuses {changed : Option Store}
    (refused : (store.answerWrite name changed).1.refuses) :
    (store.answerWrite name changed).2 = store := by
  cases changed with
  | none => rfl
  | some later => cases refused

theorem eq_of_answerWith_refuses {reply : Reply} (met : ¬ reply.refuses)
    (refused : (store.answerWith scope reply later).1.refuses) :
    (store.answerWith scope reply later).2 = store := by
  unfold answerWith at refused ⊢
  split at refused
  · exact absurd refused met
  · next missing => rw [if_neg missing]

/-- A request that is not met has no effect. -/
theorem eq_of_refuses {request : Request} (refused : (store.perform request).1.refuses) :
    (store.perform request).2 = store := by
  cases request with
  | make => cases refused
  | child scope | define scope name value =>
    exact eq_of_answerWith_refuses Bool.false_ne_true refused
  | get scope name | getAt scope distance name => exact eq_of_answerRead_refuses refused
  | assign scope name value | assignAt scope distance name value =>
    exact eq_of_answerWrite_refuses refused

/-! ## Scopes lie inside older ones -/

theorem nested_empty : empty.Nested := by
  intro scope parent enclosed
  exact absurd (lt_size_of_parent? enclosed) (Nat.not_lt_zero _)

section

variable (nested : store.Nested)

include nested

theorem Nested.make {bindings : Bindings} : (store.push ⟨bindings, none⟩).Nested := by
  intro other parent enclosed
  rw [parent?_push] at enclosed
  split at enclosed
  · cases enclosed
  · exact nested other parent enclosed

theorem Nested.answerWith {reply : Reply} (further : scope < store.size → later.Nested) :
    (store.answerWith scope reply later).2.Nested := by
  unfold Store.answerWith
  split
  · next existing => exact further existing
  · exact nested

theorem Nested.answerRead (found : Option Value) : (store.answerRead name found).2.Nested := by
  cases found <;> exact nested

theorem Nested.answerWrite (target : Option ScopeId) :
    (store.answerWrite name (target.map fun scope => store.define scope name value)).2.Nested := by
  cases target with
  | none => exact nested
  | some scope => exact nested.define

end

/-- Assigning binds the name again where the search ends. -/
theorem assign?_eq_map :
    store.assign? scope name value = (store.binder? scope name).map fun binder =>
        store.define binder name value := by
  unfold assign?
  cases store.binder? scope name <;> rfl

theorem assignAt?_eq_map :
    store.assignAt? scope distance name value = (store.ancestor? scope distance).map fun ancestor =>
        store.define ancestor name value := by
  unfold assignAt?
  cases store.ancestor? scope distance <;> rfl

/-- Every request keeps scopes inside older ones. -/
theorem Nested.perform (nested : store.Nested) (request : Request) :
    (store.perform request).2.Nested := by
  cases request with
  | make => exact nested.make
  | child scope => exact nested.answerWith fun existing => nested.push existing
  | define scope name value => exact nested.answerWith fun _ => nested.define
  | get scope name | getAt scope distance name => exact nested.answerRead _
  | assign scope name value =>
    rw [Store.perform, assign?_eq_map]
    exact nested.answerWrite _
  | assignAt scope distance name value =>
    rw [Store.perform, assignAt?_eq_map]
    exact nested.answerWrite _

theorem Nested.after (nested : store.Nested) (requests : List Request) :
    (store.after requests).Nested := by
  induction requests generalizing store with
  | nil => exact nested
  | cons request requests ih => exact ih (nested.perform request)

/-- Each step outwards leads to a smaller number. -/
theorem Nested.ancestor?_add_le (nested : store.Nested) {ancestor : ScopeId}
    (reached : store.ancestor? scope distance = some ancestor) : ancestor + distance ≤ scope := by
  induction distance generalizing scope with
  | zero => exact Nat.le_of_eq (eq_of_ancestor?_zero reached)
  | succ distance ih =>
    rcases exists_parent_of_ancestor?_succ reached with ⟨parent, enclosed, reached⟩
    have older := nested scope parent enclosed
    have inside := ih reached
    exact Nat.le_trans (Nat.succ_le_succ inside) older

/-! ## Where a search ends -/

/-- The least distance at which a name is bound. -/
structure Nearest (store : Store) (scope : ScopeId) (name : String)
    (distance : Nat) : Prop where
  bound : (store.getAt? scope distance name).isSome
  least : ∀ closer, (store.getAt? scope closer name).isSome → distance ≤ closer

/-- The first scope from a given one outwards that binds a name. -/
def Hits (store : Store) (scope : ScopeId) (name : String) (binder : ScopeId) : Prop :=
  ∃ distance, store.Nearest scope name distance ∧ store.ancestor? scope distance = some binder

/-- The chain of a scope goes on with that of its parent. -/
theorem Nested.chain_eq (nested : store.Nested) (scope : ScopeId) :
    store.chain scope = scope :: ((store.parent? scope).map store.chain).getD [] := by
  rw [chain, chainWithin]
  cases enclosed : store.parent? scope with
  | none => rfl
  | some parent =>
    have older := nested scope parent enclosed
    simp [nested.chainWithin_eq older]

/-- The scopes that a search goes through are those a distance leads to. -/
theorem Nested.getElem?_chain (nested : store.Nested)
    (existing : scope < store.size) (distance : Nat) :
    (store.chain scope)[distance]? = store.ancestor? scope distance := by
  induction distance generalizing scope with
  | zero => rw [nested.chain_eq, ancestor?_zero existing, List.getElem?_cons_zero]
  | succ distance ih =>
    rw [nested.chain_eq, ancestor?, List.getElem?_cons_succ]
    cases enclosed : store.parent? scope with
    | none => rfl
    | some parent =>
      have older := nested scope parent enclosed
      exact ih (Nat.lt_trans older existing)

theorem getAt?_of_ancestor? (reached : store.ancestor? scope distance = some binder) :
    store.getAt? scope distance name = store.getLocal? binder name := by
  rw [getAt?, reached]

theorem exists_ancestor_of_getAt? (bound : (store.getAt? scope distance name).isSome) :
    ∃ binder, store.ancestor? scope distance = some binder ∧
      (store.getLocal? binder name).isSome := by
  cases reached : store.ancestor? scope distance with
  | none =>
    rw [getAt?, reached] at bound
    cases bound
  | some binder =>
    rw [getAt?_of_ancestor? reached] at bound
    exact ⟨binder, rfl, bound⟩

theorem lt_size_of_binder? (found : store.binder? scope name = some binder) :
    scope < store.size := by
  cases enclosed : store.parent? scope with
  | some parent => exact lt_size_of_parent? enclosed
  | none =>
    rw [binder?_of_outermost enclosed] at found
    split at found
    · next bound =>
      rcases Option.isSome_iff_exists.mp bound with ⟨value, bound⟩
      exact lt_size_of_getLocal? bound
    · cases found

/-- A search ends in the scope at the least distance. -/
theorem Nested.binder?_eq_some_iff (nested : store.Nested) :
    store.binder? scope name = some binder ↔ store.Hits scope name binder := by
  constructor
  · intro found
    have existing := lt_size_of_binder? found
    rcases List.find?_eq_some_iff_getElem.mp found with ⟨bound, distance, inside, here, passed⟩
    have reached : store.ancestor? scope distance = some binder := by
      rw [← nested.getElem?_chain existing, List.getElem?_eq_getElem inside, here]
    refine ⟨distance, ⟨?_, ?_⟩, reached⟩
    · rw [getAt?_of_ancestor? reached]
      exact bound
    · intro closer boundThere
      refine Nat.le_of_not_lt fun nearer => ?_
      rcases exists_ancestor_of_getAt? boundThere with ⟨other, met, binds⟩
      rw [← nested.getElem?_chain existing] at met
      rcases List.getElem?_eq_some_iff.mp met with ⟨_, rfl⟩
      have unbound := passed closer nearer
      rw [binds] at unbound
      cases unbound
  · rintro ⟨distance, ⟨bound, least⟩, reached⟩
    rw [nested.binder?_of_ancestor reached, binder?_of_bound]
    · rw [← getAt?_of_ancestor? reached]
      exact bound
    · intro closer nearer other met binds
      rw [← getAt?_of_ancestor? met] at binds
      exact Nat.not_le_of_lt nearer (least closer binds)

/-- A search for a name that is bound somewhere outwards ends. -/
theorem Nested.isSome_binder?_iff (nested : store.Nested) :
    (store.binder? scope name).isSome ↔ ∃ distance, (store.getAt? scope distance name).isSome := by
  constructor
  · intro found
    rcases Option.isSome_iff_exists.mp found with ⟨binder, found⟩
    rcases nested.binder?_eq_some_iff.mp found with ⟨distance, nearest, _⟩
    exact ⟨distance, nearest.bound⟩
  · rintro ⟨distance, bound⟩
    rcases exists_ancestor_of_getAt? bound with ⟨binder, reached, binds⟩
    have existing := lt_size_of_ancestor? reached
    rw [← nested.getElem?_chain existing] at reached
    exact List.find?_isSome.mpr ⟨binder, List.mem_of_getElem? reached, binds⟩

/-- The least distance leads to where the search ends. -/
theorem Nearest.hits (nearest : store.Nearest scope name distance) :
    ∃ binder, store.Hits scope name binder ∧ store.ancestor? scope distance = some binder := by
  rcases exists_ancestor_of_getAt? nearest.bound with ⟨binder, reached, _⟩
  exact ⟨binder, ⟨distance, nearest, reached⟩, reached⟩

theorem isSome_get? : (store.get? scope name).isSome = (store.binder? scope name).isSome := by
  unfold get?
  cases found : store.binder? scope name with
  | none => rfl
  | some binder => exact bound_of_binder? found

theorem Nested.get?_eq_getAt? (nested : store.Nested)
    (nearest : store.Nearest scope name distance) :
    store.get? scope name = store.getAt? scope distance name := by
  rcases nearest.hits with ⟨binder, hits, reached⟩
  rw [get?, nested.binder?_eq_some_iff.mpr hits, getAt?_of_ancestor? reached]

theorem Nested.assign?_eq_assignAt? (nested : store.Nested)
    (nearest : store.Nearest scope name distance) :
    store.assign? scope name value = store.assignAt? scope distance name value := by
  rcases nearest.hits with ⟨binder, hits, reached⟩
  rw [assign?_eq_map, assignAt?_eq_map, nested.binder?_eq_some_iff.mpr hits, reached]

/-! ## What an assignment changes -/

/-- Another store differs by the value that one scope binds a name to. -/
structure Rebinds (store later : Store) (binder : ScopeId) (name : String)
    (value : Value) : Prop where
  /-- The name was bound before. -/
  bound : (store.getLocal? binder name).isSome
  size : later.size = store.size
  parent : ∀ scope, later.parent? scope = store.parent? scope
  rebound : later.getLocal? binder name = some value
  others : ∀ scope other, ¬ (scope = binder ∧ other = name) →
    later.getLocal? scope other = store.getLocal? scope other
  seen : ∀ scope, store.Hits scope name binder → later.get? scope name = some value
  unseen : ∀ scope other, ¬ (other = name ∧ store.Hits scope other binder) →
    later.get? scope other = store.get? scope other

theorem chainWithin_define (bound : Nat) :
    (store.define binder name value).chainWithin bound scope = store.chainWithin bound scope := by
  induction bound generalizing scope with
  | zero => rfl
  | succ bound ih =>
    rw [chainWithin, chainWithin, parent?_define]
    cases store.parent? scope with
    | none => rfl
    | some parent => simp only [ih]

/-- Rebinding a name keeps where every search ends. -/
theorem binder?_define (bound : (store.getLocal? binder name).isSome) (other : String) :
    (store.define binder name value).binder? scope other = store.binder? scope other := by
  unfold binder? chain
  rw [chainWithin_define]
  congr 1
  funext candidate
  rw [getLocal?_define]
  split
  · next same =>
    rcases same with ⟨rfl, rfl, _⟩
    exact bound.symm
  · rfl

/-- Rebinding shows in searches that end there only. -/
theorem Nested.rebinds (nested : store.Nested) (bound : (store.getLocal? binder name).isSome) :
    store.Rebinds (store.define binder name value) binder name value := by
  rcases Option.isSome_iff_exists.mp bound with ⟨former, formerly⟩
  have existing := lt_size_of_getLocal? formerly
  have rebound : (store.define binder name value).getLocal? binder name = some value := by
    rw [getLocal?_define, if_pos ⟨rfl, rfl, existing⟩]
  have others (scope : ScopeId) (other : String) (elsewhere : ¬ (scope = binder ∧ other = name)) :
      (store.define binder name value).getLocal? scope other = store.getLocal? scope other := by
    rw [getLocal?_define, if_neg]
    rintro ⟨rfl, rfl, _⟩
    exact elsewhere ⟨rfl, rfl⟩
  refine ⟨bound, size_define _ _ _ _, fun _ => parent?_define _ _ _ _ _, rebound, others, ?_, ?_⟩
  · intro scope hits
    rw [get?, binder?_define bound, nested.binder?_eq_some_iff.mpr hits]
    exact rebound
  · intro scope other elsewhere
    rw [get?, get?, binder?_define bound]
    cases found : store.binder? scope other with
    | none => rfl
    | some first =>
      refine others first other ?_
      rintro ⟨rfl, rfl⟩
      exact elsewhere ⟨rfl, nested.binder?_eq_some_iff.mp found⟩

/-! ## All laws -/

/-- What holds of scopes and their names at any time. -/
structure Lawful (store : Store) : Prop where
  /-- Scopes lie inside older ones. -/
  nested : ∀ scope parent, store.parent? scope = some parent → parent < scope
  /-- A walk outwards has no more steps than the number of its scope says. -/
  ends : ∀ scope distance ancestor, store.ancestor? scope distance = some ancestor →
      ancestor + distance ≤ scope
  /-- A search goes through all scopes outwards, one by one. -/
  searched : ∀ scope < store.size, ∀ distance,
    (store.chain scope)[distance]? = store.ancestor? scope distance
  /-- A name is found if it is bound at some distance. -/
  found : ∀ scope name, (store.get? scope name).isSome ↔
    ∃ distance, (store.getAt? scope distance name).isSome
  /-- What is found is bound at the least distance. -/
  nearest : ∀ scope name distance, store.Nearest scope name distance →
    store.get? scope name = store.getAt? scope distance name
  /-- A name can be assigned to if it is bound at some distance. -/
  assignable : ∀ scope name value, (store.assign? scope name value).isSome ↔
      ∃ distance, (store.getAt? scope distance name).isSome
  /-- It is assigned to at the least distance. -/
  assigned : ∀ scope name value distance, store.Nearest scope name distance →
    store.assign? scope name value = store.assignAt? scope distance name value
  /-- An assignment changes one binding, which the search ends in. -/
  effect : ∀ scope name value later, store.assign? scope name value = some later →
      ∃ binder, store.Hits scope name binder ∧ store.Rebinds later binder name value
  /-- What fails has no effect. -/
  unchanged : ∀ request, (store.perform request).1.refuses → (store.perform request).2 = store

theorem Nested.lawful (nested : store.Nested) : store.Lawful where
  nested := nested
  ends _ _ _ reached := nested.ancestor?_add_le reached
  searched _ existing distance := nested.getElem?_chain existing distance
  found scope name := by
    rw [isSome_get?]
    exact nested.isSome_binder?_iff
  nearest _ _ _ nearest := nested.get?_eq_getAt? nearest
  assignable scope name value := by
    rw [assign?_eq_map, Option.isSome_map]
    exact nested.isSome_binder?_iff
  assigned _ _ _ _ nearest := nested.assign?_eq_assignAt? nearest
  effect scope name value later done := by
    rw [assign?_eq_map] at done
    rcases Option.map_eq_some_iff.mp done with ⟨binder, found, rfl⟩
    exact ⟨binder, nested.binder?_eq_some_iff.mp found, nested.rebinds (bound_of_binder? found)⟩
  unchanged _ refused := eq_of_refuses refused

/-- Stores keep the laws of scopes, whatever is asked of them. -/
theorem scopes_stay_lawful (requests : List Request) : (empty.after requests).Lawful :=
  (nested_empty.after requests).lawful

/-- A name is found from inside, shadowed there, and reassigned where it is nearest. -/
example :
    let outer := empty.after [.make, .define 0 "a" (.boolean true), .child 0]
    let inner := outer.after [.define 1 "a" (.boolean false)]
    let later := inner.after [.assign 1 "a" .nil]
    outer.get? 1 "a" = some (.boolean true) ∧
    inner.get? 1 "a" = some (.boolean false) ∧
    later.get? 1 "a" = some .nil ∧
    later.get? 0 "a" = some (.boolean true) := by
  cbv

end Store

end Treewalk
