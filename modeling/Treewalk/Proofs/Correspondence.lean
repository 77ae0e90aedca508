import Treewalk.Proofs.Likeness

/-!
# Values and machines that correspond

Values are alike if they are the same but for the declarations that functions
and methods close over.  Two machines correspond in a world if everything a
program can observe of them does.
-/

namespace Treewalk

/--
For all scopes of the first machine in the order they were made, the scope of
the second machine that code runs in instead, and the renamings of the scope
and of the local scopes around it, innermost first.  A global scope has none.
-/
abbrev World := List (ScopeId × List Renaming)

/-- The current scopes of two machines correspond, inside a chain of renamings. -/
abbrev World.Hosts (world : World) (machine machine' : Machine) (chain : List Renaming) : Prop :=
  world[machine.current]? = some (machine'.current, chain)

/-- Both machines have the scope. -/
structure World.Shares (world : World) (scope scope' : ScopeId) (chain : List Renaming) :
    Prop where
  found : world[scope]? = some (scope', chain)
  kept : (Renaming.innermost chain).spare = false

section

variable (same : Token → Token → Prop) (pairing : Pairing) (world : World)

/--
Closures made in scopes that correspond from declarations that are alike there,
inside some further local scopes that calls make.
-/
structure Closure.Alike (inner : List Renaming) (closure closure' : Closure) :
    Prop where
  initializer : closure'.isInitializer = closure.isInitializer
  declaration : ∃ chain, world.Shares closure.scope closure'.scope chain ∧
    FunctionDecl.Alike same pairing (inner ++ chain) closure.declaration closure'.declaration

/-- Entries of a class that have the same name and methods that are alike. -/
structure ClassLayer.EntryAlike (entry entry' : String × Closure) : Prop where
  name : entry'.1 = entry.1
  method : entry.2.Alike same pairing world [.identity] entry'.2

/-- Layers with the same names, and methods that are alike one by one. -/
structure ClassLayer.Alike (layer layer' : ClassLayer) : Prop where
  name : layer'.name = layer.name
  methods : List.Forall₂ (ClassLayer.EntryAlike same pairing world) layer.methods layer'.methods

/-- Classes with the same identity, and layers that are alike one by one. -/
structure Class.Alike (value value' : Class) : Prop where
  identity : value'.identity = value.identity
  layers : List.Forall₂ (ClassLayer.Alike same pairing world) value.layers value'.layers

/-- Values that differ only in the declarations they close over. -/
inductive Value.Alike : Value → Value → Prop where
  | number (value : Float) : Value.Alike (.number value) (.number value)
  | string (text : String) : Value.Alike (.string text) (.string text)
  | boolean (value : Bool) : Value.Alike (.boolean value) (.boolean value)
  | nil : Value.Alike .nil .nil
  | function {closure closure'} (identity : Nat)
      (alike : closure.Alike same pairing world [] closure') :
      Value.Alike (.function identity closure) (.function identity closure')
  | native (provided : Native) :
      Value.Alike (.native provided) (.native provided)
  | classValue {value value'} (alike : value.Alike same pairing world value') :
      Value.Alike (.classValue value) (.classValue value')
  | object {origin origin'} (identity : Nat) (alike : origin.Alike same pairing world origin') :
      Value.Alike (.object identity origin) (.object identity origin')

/-- Calls that run the same up to renaming. -/
inductive Callee.Alike : Callee → Callee → Prop where
  | closure {function function'} (alike : function.Alike same pairing world [] function') :
      Callee.Alike (.closure function) (.closure function')
  | native (provided : Native) :
      Callee.Alike (.native provided) (.native provided)
  | construct {origin origin'} (alike : origin.Alike same pairing world origin') :
      Callee.Alike (.construct origin) (.construct origin')

/-- Bindings of the same variables, up to a renaming, to values alike. -/
def Bindings.Alike (rename : Renaming) (bindings bindings' : Bindings) :
    Prop :=
  ∀ name, Option.Rel (Value.Alike same pairing world) (bindings.get? name)
    (bindings'.get? (rename name))

/-- Computations that end in the same way, short of a value. -/
inductive Signal.Alike : Signal → Signal → Prop where
  | fault {token token'} (fault : Fault) (alike : same token token') :
      Signal.Alike (.fault fault token) (.fault fault token')
  | stream (error : StreamError) : Signal.Alike (.stream error) (.stream error)
  | returned {value value'} (alike : value.Alike same pairing world value') :
      Signal.Alike (.returned value) (.returned value')
  | exhausted : Signal.Alike .exhausted .exhausted

/--
Scopes that are nested as a world says and hold values alike.  A spare scope of
the first machine is left out by the second one.
-/
structure Store.Alike (store store' : Store) : Prop where
  size : store.size = world.length
  inside : ∀ (scope scope' : ScopeId) chain, world[scope]? = some (scope', chain) →
    scope' < store'.size
  apart : ∀ {scope other scope' : ScopeId} {chain chain'}, world.Shares scope scope' chain →
    world.Shares other scope' chain' → scope = other
  outermost : ∀ scope scope' : ScopeId, world[scope]? = some (scope', []) →
    store.parent? scope = none ∧ store'.parent? scope' = none
  enclosed : ∀ (scope scope' : ScopeId) layer outer,
    world[scope]? = some (scope', layer :: outer) → ∃ parent parent' : ScopeId,
      store.parent? scope = some parent ∧ world[parent]? = some (parent', outer) ∧
        if layer.spare then scope' = parent' else store'.parent? scope' = some parent'
  bound : ∀ (scope scope' : ScopeId) chain, world.Shares scope scope' chain → ∀ name,
    Option.Rel (Value.Alike same pairing world) (store.getLocal? scope name)
      (store'.getLocal? scope' (Renaming.innermost chain name))

/-- Machines that correspond. -/
structure Machine.Alike (machine machine' : Machine) : Prop where
  store : machine.store.Alike same pairing world machine'.store
  fieldsSize : machine'.fields.size = machine.fields.size
  fields : ∀ identity : Nat, Option.Rel (Bindings.Alike same pairing world .identity)
      machine.fields[identity]? machine'.fields[identity]?
  nextIdentity : machine'.nextIdentity = machine.nextIdentity
  global : world[machine.globals]? = some (machine'.globals, [])
  distances : pairing.Recorded machine.distances machine'.distances
  output : machine'.output = machine.output
  clock : machine'.clock = machine.clock
  readings : machine'.readings = machine.readings

end

variable {same : Token → Token → Prop} {value value' : Value} {pairing : Pairing}
  {bindings : Bindings} {world : World}

/-! ## Worlds that have grown -/

section

variable {extended : Pairing} {later : World}

theorem World.getElem?_of_grown {index : Nat} {entry : ScopeId × List Renaming}
    (grown : world <+: later) (found : world[index]? = some entry) :
    later[index]? = some entry := by
  rcases grown with ⟨added, rfl⟩
  rw [List.getElem?_append_left]
  · exact found
  · exact (List.getElem?_eq_some_iff.mp found).1

/-- Scopes that correspond still do so in a longer world. -/
theorem World.Shares.grow {scope scope' : ScopeId} {chain : List Renaming}
    (shares : world.Shares scope scope' chain) (grown : world <+: later) :
    later.Shares scope scope' chain :=
  ⟨World.getElem?_of_grown grown shares.found, shares.kept⟩

/-- Closures that are alike stay so. -/
theorem Closure.Alike.grow {inner : List Renaming} {closure closure' : Closure}
    (alike : closure.Alike same pairing world inner closure')
    (extends_ : pairing.Extends extended) (grown : world <+: later) :
    closure.Alike same extended later inner closure' := by
  rcases alike with ⟨initializer, chain, shares, decl⟩
  exact ⟨initializer, chain, shares.grow grown, decl.extend extends_⟩

theorem Class.Alike.grow {value value' : Class} (alike : value.Alike same pairing world value')
    (extends_ : pairing.Extends extended) (grown : world <+: later) :
    value.Alike same extended later value' := by
  refine ⟨alike.identity, alike.layers.imp ?_⟩
  intro layer layer' layers
  refine ⟨layers.name, layers.methods.imp ?_⟩
  intro entry entry' entries
  exact ⟨entries.name, entries.method.grow extends_ grown⟩

/-- Values that are alike stay so. -/
theorem Value.Alike.extend (alike : value.Alike same pairing world value')
    (extends_ : pairing.Extends extended) (grown : world <+: later) :
    value.Alike same extended later value' := by
  cases alike with
  | number value => exact .number value
  | string text => exact .string text
  | boolean value => exact .boolean value
  | nil => exact .nil
  | function identity alike => exact .function identity (alike.grow extends_ grown)
  | native provided => exact .native provided
  | classValue alike => exact .classValue (alike.grow extends_ grown)
  | object identity alike => exact .object identity (alike.grow extends_ grown)

theorem Value.Alike.grow (alike : value.Alike same pairing world value') (grown : world <+: later) :
    value.Alike same pairing later value' :=
  alike.extend (.refl pairing) grown

theorem Value.Alike.growOption {value value' : Option Value}
    (alike : Option.Rel (Value.Alike same pairing world) value value')
    (extends_ : pairing.Extends extended) (grown : world <+: later) :
    Option.Rel (Value.Alike same extended later) value value' := by
  cases alike with
  | none => exact .none
  | some alike => exact .some (alike.extend extends_ grown)

theorem Bindings.Alike.extend {rename : Renaming} {bindings' : Bindings}
    (alike : bindings.Alike same pairing world rename bindings')
    (extends_ : pairing.Extends extended) : bindings.Alike same extended world rename bindings' :=
  fun name => Value.Alike.growOption (alike name) extends_ (List.prefix_refl _)

/-- Machines correspond when they record the distances of a further text. -/
theorem Machine.Alike.extend {machine machine' : Machine}
    (alike : machine.Alike same pairing world machine')
    (extends_ : pairing.Extends extended) {distances distances' : Distances}
    (recorded : extended.Recorded distances distances') :
    Machine.Alike same extended world { machine with distances := distances }
      { machine' with distances := distances' } where
  store :=
    { alike.store with
      bound := fun scope scope' chain shares name => Value.Alike.growOption
        (alike.store.bound scope scope' chain shares name) extends_ (List.prefix_refl _) }
  fieldsSize := alike.fieldsSize
  fields := by
    intro identity
    have fields := alike.fields identity
    show Option.Rel _ machine.fields[identity]? machine'.fields[identity]?
    generalize machine.fields[identity]? = found, machine'.fields[identity]? = found' at fields ⊢
    cases fields with
    | none => exact .none
    | some bindings => exact .some (bindings.extend extends_)
  nextIdentity := alike.nextIdentity
  global := alike.global
  distances := recorded
  output := alike.output
  clock := alike.clock
  readings := alike.readings

end

/-! ## What a program can observe of values -/

section

section

variable {chain : List Renaming} {decl decl' : FunctionDecl}
  (alike : decl.Alike same pairing chain decl')

include alike

theorem FunctionDecl.Alike.name : decl'.name.lexeme = decl.name.lexeme := by
  cases alike with
  | mk rename kept named listed executed => exact named

/-- Functions that are alike take as many arguments. -/
theorem FunctionDecl.Alike.arity : decl'.arity = decl.arity := by
  cases alike with
  | mk rename kept named listed executed => exact listed.length_eq.symm

end

section

variable {inner : List Renaming} {closure closure' : Closure}
  (alike : closure.Alike same pairing world inner closure')

include alike

theorem Closure.Alike.name : closure'.name = closure.name := by
  rcases alike.declaration with ⟨chain, _, decl⟩
  exact decl.name

theorem Closure.Alike.arity : closure'.arity = closure.arity := by
  rcases alike.declaration with ⟨chain, _, decl⟩
  exact decl.arity

end

/-- Lists of methods that are alike find methods that are. -/
theorem ClassLayer.lookup_alike {name : String} {entries entries' : List (String × Closure)}
    (alike : List.Forall₂ (ClassLayer.EntryAlike same pairing world) entries entries') :
    Option.Rel (Closure.Alike same pairing world [.identity])
      (entries.lookup name) (entries'.lookup name) := by
  induction alike with
  | nil => exact .none
  | cons head tail ih =>
    rw [List.lookup_cons, List.lookup_cons, head.name]
    split
    · exact .some head.method
    · exact ih

theorem ClassLayer.Alike.find? {layer layer' : ClassLayer}
    (alike : layer.Alike same pairing world layer') (name : String) :
    Option.Rel (Closure.Alike same pairing world [.identity])
      (layer.find? name) (layer'.find? name) :=
  ClassLayer.lookup_alike (List.rel_reverse alike.methods)

theorem ClassLayer.findSome?_alike (name : String) {layers layers' : List ClassLayer}
    (alike : List.Forall₂ (ClassLayer.Alike same pairing world) layers layers') :
    Option.Rel (Closure.Alike same pairing world [.identity])
      (layers.findSome? fun layer => layer.find? name)
      (layers'.findSome? fun layer => layer.find? name) := by
  induction alike with
  | nil => exact .none
  | @cons layer layer' layers layers' head tail ih =>
    have found := head.find? name
    rw [List.findSome?_cons, List.findSome?_cons]
    generalize layer.find? name = method, layer'.find? name = method' at found
    cases found with
    | none => exact ih
    | some method => exact .some method

section

variable {value value' : Class} (alike : value.Alike same pairing world value')

include alike

/-- Classes that are alike find methods that are. -/
theorem Class.Alike.findMethod? (name : String) :
    Option.Rel (Closure.Alike same pairing world [.identity])
      (value.findMethod? name) (value'.findMethod? name) :=
  ClassLayer.findSome?_alike name alike.layers

theorem Class.Alike.name : value'.name = value.name := by
  cases alike.layers with
  | cons own inherited => exact own.name

theorem Class.Alike.arity : value'.arity = value.arity := by
  have found := alike.findMethod? Class.initializerName
  unfold Class.arity Class.initializer?
  generalize value.findMethod? Class.initializerName = method,
    value'.findMethod? Class.initializerName = method' at found ⊢
  cases found with
  | none => rfl
  | some method => exact method.arity

end

namespace Value.Alike

variable {other other' : Value}

section

variable (alike : value.Alike same pairing world value')

include alike

theorem truthy : value'.truthy = value.truthy := by
  cases alike <;> rfl

/-- Values that are alike print the same. -/
theorem text : value'.text = value.text := by
  cases alike with
  | function identity alike | object identity alike => simp only [Value.text, alike.name]
  | classValue alike => exact alike.name
  | _ => rfl

/-- Values that are alike are equal to values that are alike. -/
theorem equal (others : other.Alike same pairing world other') :
    value'.equal other' = value.equal other := by
  cases alike <;> cases others <;> try rfl
  next alike _ _ others => simp only [Value.equal, alike.identity, others.identity]

/-- Values that are alike are called alike. -/
theorem callee? : Option.Rel (Callee.Alike same pairing world) value.callee? value'.callee? := by
  cases alike with
  | function identity alike => exact .some (.closure alike)
  | native provided => exact .some (.native provided)
  | classValue alike => exact .some (.construct alike)
  | _ => exact .none

/-- Operators do not look inside functions, classes and instances. -/
theorem unary (kind : TokenKind) : Operator.unary kind value' = Operator.unary kind value := by
  cases kind with
  | punctuator mark => cases mark <;> cases alike <;> rfl
  | _ => cases alike <;> rfl

theorem binary (others : other.Alike same pairing world other') (kind : TokenKind) :
    Operator.binary kind value' other' = Operator.binary kind value other := by
  have equal := alike.equal others
  unfold Operator.binary
  split
  · rw [equal]
  · rw [equal]
  · cases alike <;> cases others <;> rfl
  · cases alike <;> cases others <;> rfl

theorem decides (kind : TokenKind) :
    Operator.decides kind value' = Operator.decides kind value := by
  unfold Operator.decides
  rw [alike.truthy]

end

end Value.Alike

theorem Callee.Alike.arity {callee callee' : Callee}
    (alike : callee.Alike same pairing world callee') : callee'.arity = callee.arity := by
  cases alike with
  | closure alike => exact Closure.Alike.arity alike
  | native provided => rfl
  | construct alike => exact Class.Alike.arity alike

theorem Value.alike_ofLiteral (literal : Literal) :
    (Value.ofLiteral literal).Alike same pairing world (Value.ofLiteral literal) := by
  cases literal with
  | number value => exact .number value
  | string text => exact .string text
  | boolean value => exact .boolean value
  | nil => exact .nil

theorem Operator.alike_of_unary {kind : TokenKind} {operand : Value}
    (computed : Operator.unary kind operand = .ok value) :
    value.Alike same pairing world value := by
  unfold Operator.unary at computed
  split at computed <;> cases computed
  · exact .boolean _
  · exact .number _

/-- What an operator yields is alike itself: it holds no closure. -/
theorem Operator.alike_of_binary {kind : TokenKind} {left right : Value}
    (computed : Operator.binary kind left right = .ok value) :
    value.Alike same pairing world value := by
  unfold Operator.binary Operator.sum Operator.arithmetic at computed
  repeat' split at computed
  all_goals
    cases computed <;> first | exact .boolean _ | exact .number _ | exact .string _

end

/-! ## Scopes that correspond -/

namespace Store.Alike

variable {store store' : Store} {scope scope' : ScopeId} {chain : List Renaming}

section

variable (alike : store.Alike same pairing world store')

include alike

theorem lt_size (found : world[scope]? = some (scope', chain)) : scope < store.size := by
  rw [alike.size]
  exact (List.getElem?_eq_some_iff.mp found).1

/-- Scopes that correspond bind corresponding names to values that are alike. -/
theorem define (shares : world.Shares scope scope' chain) (name : String) {value value' : Value}
    (values : value.Alike same pairing world value') :
    (store.define scope name value).Alike same pairing world
      (store'.define scope' (Renaming.innermost chain name) value') where
  size := by rw [size_define, alike.size]
  inside := by
    rw [size_define]
    exact alike.inside
  apart := alike.apart
  outermost := by
    simp only [parent?_define]
    exact alike.outermost
  enclosed := by
    simp only [parent?_define]
    exact alike.enclosed
  bound := by
    intro other other' others otherShares key
    have kept := alike.bound other other' others otherShares key
    rw [getLocal?_define, getLocal?_define]
    by_cases here : scope = other
    · subst here
      cases shares.found.symm.trans otherShares.found
      by_cases named : name = key
      · subst named
        rw [if_pos ⟨rfl, rfl, alike.lt_size shares.found⟩,
          if_pos ⟨rfl, rfl, alike.inside _ _ _ shares.found⟩]
        exact .some values
      · have renamed : Renaming.innermost chain name ≠ Renaming.innermost chain key :=
          fun equal => named ((Renaming.innermost chain).injective equal)
        rw [if_neg (fun both => named both.2.1), if_neg (fun both => renamed both.2.1)]
        exact kept
    · have here' : scope' ≠ other' := by
        rintro rfl
        exact here (alike.apart shares otherShares)
      rw [if_neg (fun both => here both.1), if_neg (fun both => here' both.1)]
      exact kept

/--
A new scope of the first machine: the second one has made a scope too, or it
stays where it is and the scope is spare.
-/
theorem pushOnto {parent parent' image : ScopeId} (found : world[parent]? = some (parent', chain))
    {layer : Renaming} {last' : Store} (inside : image < last'.size)
    (older : ∀ other < store'.size, other < last'.size ∧
      last'.parent? other = store'.parent? other ∧
        ∀ name, last'.getLocal? other name = store'.getLocal? other name)
    (enters : if layer.spare then image = parent' else
      store'.size ≤ image ∧ last'.parent? image = some parent' ∧ ∀ name,
        Option.Rel (Value.Alike same pairing world) (bindings.get? name)
          (last'.getLocal? image (layer name))) :
    (store.push ⟨bindings, some parent⟩).Alike same pairing (world ++ [(image, layer :: chain)])
      last' := by
  have grown : world <+: world ++ [(image, layer :: chain)] := List.prefix_append _ _
  have cases {other other' : Nat} {others : List Renaming}
      (otherFound : (world ++ [(image, layer :: chain)])[other]? = some (other', others)) :
      other = store.size ∧ other' = image ∧ others = layer :: chain ∨
        other ≠ store.size ∧ world[other]? = some (other', others) := by
    have bounded := (List.getElem?_eq_some_iff.mp otherFound).1
    rw [List.length_append, List.length_singleton, ← alike.size] at bounded
    rw [alike.size] at bounded ⊢
    rcases Nat.lt_succ_iff_lt_or_eq.mp bounded with before | rfl
    · rw [List.getElem?_append_left before] at otherFound
      exact .inr ⟨Nat.ne_of_lt before, otherFound⟩
    · rw [List.getElem?_append_right (Nat.le_refl _), Nat.sub_self] at otherFound
      cases otherFound
      exact .inl ⟨rfl, rfl, rfl⟩
  have shared {other other' : Nat} {others : List Renaming}
      (shares : World.Shares (world ++ [(image, layer :: chain)]) other other' others) :
      other = store.size ∧ other' = image ∧ others = layer :: chain ∧ layer.spare = false ∨
        other ≠ store.size ∧ world.Shares other other' others := by
    rcases cases shares.found with ⟨rfl, rfl, rfl⟩ | ⟨differs, otherFound⟩
    · exact .inl ⟨rfl, rfl, rfl, shares.kept⟩
    · exact .inr ⟨differs, otherFound, shares.kept⟩
  constructor
  · rw [size_push, alike.size, List.length_append, List.length_singleton]
  · intro other other' others otherFound
    rcases cases otherFound with ⟨rfl, rfl, rfl⟩ | ⟨_, otherFound⟩
    · exact inside
    · exact (older other' (alike.inside _ _ _ otherFound)).1
  · intro first second both firsts seconds shares again
    have newest {other : ScopeId} {others : List Renaming} (kept : layer.spare = false)
        (earlier : world.Shares other image others) : False := by
      rw [if_neg (by simp [kept])] at enters
      exact Nat.not_lt_of_le enters.1 (alike.inside _ _ _ earlier.found)
    rcases shared shares with ⟨rfl, rfl, _, kept⟩ | ⟨_, earlier⟩ <;>
      rcases shared again with ⟨rfl, same, _, kept'⟩ | ⟨_, earlier'⟩
    · rfl
    · exact (newest kept earlier').elim
    · subst same
      exact (newest kept' earlier).elim
    · exact alike.apart earlier earlier'
  · intro other other' otherFound
    rcases cases otherFound with ⟨_, _, impossible⟩ | ⟨differs, otherFound⟩
    · cases impossible
    · rw [parent?_push, if_neg differs, (older other' (alike.inside _ _ _ otherFound)).2.1]
      exact alike.outermost other other' otherFound
  · intro other other' otherLayer outer otherFound
    rcases cases otherFound with ⟨rfl, rfl, same⟩ | ⟨differs, otherFound⟩
    · cases same
      refine ⟨parent, parent', ?_, World.getElem?_of_grown grown found, ?_⟩
      · rw [parent?_push, if_pos rfl]
      · split at enters
        · next spare => exact (if_pos spare).mpr enters
        · next spare => exact (if_neg spare).mpr enters.2.1
    · rcases alike.enclosed other other' otherLayer outer otherFound with
        ⟨around, around', enclosed, outside, enclosed'⟩
      rw [parent?_push, if_neg differs, (older other' (alike.inside _ _ _ otherFound)).2.1]
      exact ⟨around, around', enclosed, World.getElem?_of_grown grown outside, enclosed'⟩
  · intro other other' others shares key
    rw [getLocal?_push]
    rcases shared shares with ⟨rfl, rfl, rfl, kept⟩ | ⟨differs, shares⟩
    · rw [if_neg (by simp [kept])] at enters
      rw [if_pos rfl]
      exact Value.Alike.growOption (enters.2.2 key) (.refl pairing) grown
    · rw [if_neg differs, (older other' (alike.inside _ _ _ shares.found)).2.2]
      exact Value.Alike.growOption (alike.bound other other' others shares key) (.refl pairing)
        grown

/-- Scopes that are made at the same time correspond. -/
theorem push {parent parent' : ScopeId} {rename : Renaming} (kept : rename.spare = false)
    (found : world[parent]? = some (parent', chain)) {bindings bindings' : Bindings}
    (contents : bindings.Alike same pairing world rename bindings') :
    (store.push ⟨bindings, some parent⟩).Alike same pairing
      (world ++ [(store'.size, rename :: chain)]) (store'.push ⟨bindings', some parent'⟩) := by
  refine alike.pushOnto found ?_ ?_ ?_
  · rw [size_push]
    exact Nat.lt_succ_self _
  · intro other before
    rw [size_push, parent?_push, if_neg (Nat.ne_of_lt before)]
    refine ⟨Nat.lt_succ_of_lt before, rfl, fun name => ?_⟩
    rw [getLocal?_push, if_neg (Nat.ne_of_lt before)]
  · rw [if_neg (by simp [kept]), parent?_push, if_pos rfl]
    refine ⟨Nat.le_refl _, rfl, fun name => ?_⟩
    rw [getLocal?_push, if_pos rfl]
    exact contents name

/-- A new scope that only the first machine makes. -/
theorem pushSpare (found : world[scope]? = some (scope', chain)) :
    (store.push ⟨.empty, some scope⟩).Alike same pairing
      (world ++ [(scope', .unshared :: chain)]) store' :=
  alike.pushOnto found (alike.inside _ _ _ found) (fun _ before => ⟨before, rfl, fun _ => rfl⟩) rfl

end

/-- Going outwards from scopes that correspond leads to such scopes. -/
theorem ancestor (alike : store.Alike same pairing world store')
    (found : world[scope]? = some (scope', chain)) {dist : Nat} {rename : Renaming}
    (outwards : chain[dist]? = some rename) (kept : rename.spare = false) :
    ∃ (ancestor ancestor' : ScopeId) (outer : List Renaming),
      store.ancestor? scope dist = some ancestor ∧
        store'.ancestor? scope' (Renaming.shared chain dist) = some ancestor' ∧
        world.Shares ancestor ancestor' (rename :: outer) := by
  induction dist generalizing scope scope' chain with
  | zero =>
    cases chain with
    | nil => cases outwards
    | cons innermost outer =>
      cases outwards
      refine ⟨scope, scope', outer, ?_, ?_, found, kept⟩
      · rw [ancestor?, if_pos (alike.lt_size found)]
      · show store'.ancestor? scope' 0 = some scope'
        rw [ancestor?, if_pos (alike.inside _ _ _ found)]
  | succ dist ih =>
    cases chain with
    | nil => cases outwards
    | cons innermost outer =>
      rcases alike.enclosed scope scope' innermost outer found with
        ⟨parent, parent', enclosed, around, enclosed'⟩
      rw [ancestor?, enclosed, Renaming.shared_cons]
      split at enclosed'
      · next spare =>
        subst enclosed'
        rw [if_pos spare]
        exact ih around outwards
      · next shared =>
        rw [if_neg shared, ancestor?, enclosed']
        exact ih around outwards

section

variable (alike : store.Alike same pairing world store') (found : world[scope]? = some (scope', []))
  (name : String)

include alike found name

/-- A global name is bound on both machines or on none of them. -/
theorem binder? :
    store.binder? scope name = none ∧ store'.binder? scope' name = none ∨
      store.binder? scope name = some scope ∧ store'.binder? scope' name = some scope' := by
  rcases alike.outermost scope scope' found with ⟨outside, outside'⟩
  have bound : Option.Rel (Value.Alike same pairing world) (store.getLocal? scope name)
      (store'.getLocal? scope' name) := alike.bound scope scope' [] ⟨found, rfl⟩ name
  rw [binder?_of_outermost outside, binder?_of_outermost outside']
  generalize store.getLocal? scope name = value, store'.getLocal? scope' name = value' at bound
  cases bound with
  | none => exact .inl ⟨rfl, rfl⟩
  | some values => exact .inr ⟨rfl, rfl⟩

end

end Store.Alike

end Treewalk
