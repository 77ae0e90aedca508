import Treewalk.Proofs.Correspondence
import Treewalk.Proofs.CountedLoops
import Treewalk.Proofs.ScopeSafety

/-!
# Programs that are alike run alike

Programs that are alike, on machines that correspond, take corresponding
steps: they end in the same way, with values that are alike, on machines that
correspond again.  What they have written is the same.

Names that are renamed would show if a local variable were missing.  Runs are
therefore compared under an access that ends when it meets such a variable;
on resolved programs it makes no difference.
-/

namespace Treewalk

open Scoping Run List Bindings

namespace Access

/-- A variable that is missing at its distance ends the computation. -/
def strict : Access :=
  guarded ⟨fun _ _ => exhausted, fun _ _ _ => exhausted⟩

end Access

/-! ## Computations that correspond -/

section

variable (same : Token → Token → Prop) (pairing : Pairing)

/-- A pair of machines that a computation has led to. -/
structure Machine.Advances (world : World) (machine machine' : Machine)
    (later : World) (last last' : Machine) : Prop where
  grown : world <+: later
  alike : last.Alike same pairing later last'
  current : last.current = machine.current
  current' : last'.current = machine'.current
  output : machine.output.Grows last.output

/-- Two computations end alike, on machines that correspond. -/
inductive Similar {α β : Type} (world : World) (machine machine' : Machine)
    (post : World → α → β → Prop) :
    EStateM.Result Signal Machine α → EStateM.Result Signal Machine β → Prop where
  | ok {later value value' last last'}
      (advances : Machine.Advances same pairing world machine machine' later last last')
      (holds : post later value value') :
      Similar world machine machine' post (.ok value last) (.ok value' last')
  | error {later signal signal' last last'}
      (advances : Machine.Advances same pairing world machine machine' later last last')
      (ends : signal.Alike same pairing later signal') :
      Similar world machine machine' post (.error signal last) (.error signal' last')

end

variable {args' args : List Value} {token' token name : Token} {value' value : Value}
  {bindings' bindings : Bindings} {closure' closure : Closure} {machine' machine : Machine}

section

variable {same : Token → Token → Prop} {pairing : Pairing} {world later last : World}
  {next next' : Machine} {α β γ δ : Type} {post : World → α → β → Prop} {run : Run α} {run' : Run β}

theorem Machine.Alike.advances (alike : machine.Alike same pairing world machine') :
    Machine.Advances same pairing world machine machine' world machine machine' :=
  ⟨prefix_refl _, alike, rfl, rfl, .refl _⟩

theorem Machine.Advances.trans {final final' : Machine}
    (advances : Machine.Advances same pairing world machine machine' later next next')
    (further : Machine.Advances same pairing later next next' last final final') :
    Machine.Advances same pairing world machine machine' last final final' :=
  ⟨advances.grown.trans further.grown, further.alike, further.current.trans advances.current,
    further.current'.trans advances.current', advances.output.trans further.output⟩

theorem Machine.Advances.found
    (advances : Machine.Advances same pairing world machine machine' later next next')
    {chain : List Renaming} (found : world.Hosts machine machine' chain) :
    later.Hosts next next' chain := by
  rw [World.Hosts, advances.current, advances.current']
  exact World.getElem?_of_grown advances.grown found

theorem Similar.after {result : EStateM.Result Signal Machine α}
    {result' : EStateM.Result Signal Machine β}
    (advances : Machine.Advances same pairing world machine machine' later next next')
    (rest : Similar same pairing later next next' post result result') :
    Similar same pairing world machine machine' post result result' := by
  cases rest with
  | ok further holds => exact .ok (advances.trans further) holds
  | error further ends => exact .error (advances.trans further) ends

section

variable {step : α → Run γ} {step' : β → Run δ} {further : World → γ → δ → Prop}
  (similar : Similar same pairing world machine machine' post (run machine) (run' machine'))

include similar

/-- Similar computations compose. -/
theorem Similar.bind
    (continues : ∀ later next next' value value',
      Machine.Advances same pairing world machine machine' later next next' →
      post later value value' →
      Similar same pairing later next next' further (step value next) (step' value' next'))
    :
    Similar same pairing world machine machine' further ((run >>= step) machine)
      ((run' >>= step') machine') := by
  simp only [Bind.bind, EStateM.bind]
  generalize run machine = result, run' machine' = result' at similar
  cases similar with
  | ok advances holds => exact (continues _ _ _ _ _ advances holds).after advances
  | error advances ends => exact .error advances ends

/-- The rest starts on machines that correspond, in scopes that still do. -/
theorem Similar.andThen {chain : List Renaming} (found : world.Hosts machine machine' chain)
    (continues : ∀ {later next next' value value'},
      Machine.Alike same pairing later next next' → later.Hosts next next' chain →
      world <+: later → post later value value' →
      Similar same pairing later next next' further (step value next) (step' value' next'))
    :
    Similar same pairing world machine machine' further ((run >>= step) machine)
      ((run' >>= step') machine') :=
  similar.bind fun _ _ _ _ _ advances holds =>
    continues advances.alike (advances.found found) advances.grown holds

end

/-- Two computations end alike if they start on machines that correspond. -/
abbrev Machine.Alike.Runs (_ : machine.Alike same pairing world machine')
    (post : World → α → β → Prop) (run : Run α) (run' : Run β) : Prop :=
  Similar same pairing world machine machine' post (run machine) (run' machine')

section

variable (alike : machine.Alike same pairing world machine')

include alike

theorem similar_pure {value : α} {value' : β} (holds : post world value value') :
    alike.Runs post (pure value : Run α) (pure value' : Run β) :=
  .ok alike.advances holds

theorem similar_raise (fault : Fault) (tokens : same token token') :
    alike.Runs post (raise fault token : Run α) (raise fault token' : Run β) :=
  .error alike.advances (.fault fault tokens)

theorem similar_exhausted : alike.Runs post (exhausted : Run α) (exhausted : Run β) :=
  .error alike.advances .exhausted

theorem similar_returned (values : value.Alike same pairing world value') :
    alike.Runs post (throw (.returned value) : Run α) (throw (.returned value') : Run β) :=
  .error alike.advances (.returned values)

/-- A step of which both sides have the same result. -/
theorem similar_orRaise {post : World → α → α → Prop} (tokens : same token token')
    {result : Except Fault α} (holds : ∀ value, result = .ok value → post world value value) :
    alike.Runs post (orRaise token result) (orRaise token' result) := by
  cases result with
  | ok value => exact similar_pure alike (holds value rfl)
  | error fault => exact similar_raise alike fault tokens

end

theorem Machine.Alike.within (alike : machine.Alike same pairing world machine')
    (scope scope' : ScopeId) :
    Machine.Alike same pairing world { machine with current := scope }
      { machine' with current := scope' } :=
  { alike with }

/-- The scopes that were current before are so again after a computation. -/
theorem Similar.within (scope scope' : ScopeId)
    (inner : Similar same pairing world { machine with current := scope }
      { machine' with current := scope' } post (run { machine with current := scope })
      (run' { machine' with current := scope' })) :
    Similar same pairing world machine machine' post (Run.within scope run machine)
      (Run.within scope' run' machine') := by
  simp only [Run.within]
  generalize run { machine with current := scope } = result,
    run' { machine' with current := scope' } = result' at inner
  have back {later : World} {next next' : Machine}
      (advances : Machine.Advances same pairing world { machine with current := scope }
        { machine' with current := scope' } later next next') :
      Machine.Advances same pairing world machine machine' later
        { next with current := machine.current } { next' with current := machine'.current } :=
    ⟨advances.grown, advances.alike.within _ _, rfl, rfl, advances.output⟩
  cases inner with
  | ok advances holds => exact .ok (back advances) holds
  | error advances ends => exact .error (back advances) ends

/-- The first machine has been in a scope of its own. -/
theorem Similar.withinFirst {scope : ScopeId} {result' : EStateM.Result Signal Machine β}
    (inner : Similar same pairing world { machine with current := scope } machine' post
      (run { machine with current := scope }) result') :
    Similar same pairing world machine machine' post (Run.within scope run machine) result' := by
  simp only [Run.within]
  generalize run { machine with current := scope } = result at inner
  have back {later : World} {next next' : Machine}
      (advances : Machine.Advances same pairing world { machine with current := scope } machine'
        later next next') :
      Machine.Advances same pairing world machine machine' later
        { next with current := machine.current } next' :=
    ⟨advances.grown, { advances.alike with }, rfl, advances.current', advances.output⟩
  cases inner with
  | ok advances holds => exact .ok (back advances) holds
  | error advances ends => exact .error (back advances) ends

end

/-! ## Steps of the machine -/

section

variable {same : Token → Token → Prop} {pairing : Pairing} {world later : World}
  {chain : List Renaming}

theorem Machine.Alike.withStore (alike : machine.Alike same pairing world machine')
    (grown : world <+: later) {store store' : Store}
    (stores : store.Alike same pairing later store') :
    Machine.Alike same pairing later { machine with store := store }
      { machine' with store := store' } where
  store := stores
  fieldsSize := alike.fieldsSize
  fields := by
    intro identity
    have kept := alike.fields identity
    simp only
    generalize machine.fields[identity]? = bindings,
      machine'.fields[identity]? = bindings' at kept ⊢
    cases kept with
    | none => exact .none
    | some kept =>
      exact .some fun name => Value.Alike.growOption (kept name) (.refl pairing) grown
  nextIdentity := alike.nextIdentity
  global := World.getElem?_of_grown grown alike.global
  distances := alike.distances
  output := alike.output
  clock := alike.clock
  readings := alike.readings

section

variable (alike : machine.Alike same pairing world machine')

include alike

theorem similar_currentScope : alike.Runs
      (fun _ scope scope' => scope = machine.current ∧ scope' = machine'.current) currentScope
      currentScope :=
  .ok alike.advances ⟨rfl, rfl⟩

/-- Scopes made on both sides correspond. -/
theorem similar_newScope {parent parent' : ScopeId} (found : world[parent]? = some (parent', chain))
    {rename : Renaming} (kept : rename.spare = false)
    (contents : bindings.Alike same pairing world rename bindings') :
    alike.Runs (fun later scope scope' => later[scope]? = some (scope', rename :: chain))
      (newScope parent bindings) (newScope parent' bindings') := by
  have grown := prefix_append world [(machine'.store.size, rename :: chain)]
  refine .ok ⟨grown, alike.withStore grown (alike.store.push kept found contents),
    rfl, rfl, .refl _⟩ ?_
  rw [alike.store.size, getElem?_append_right (Nat.le_refl _), Nat.sub_self]
  rfl

theorem Machine.Alike.define
    {scope scope' : ScopeId} (shares : world.Shares scope scope' chain) {name name' : String}
    (named : name' = Renaming.innermost chain name) {value value' : Value}
    (values : value.Alike same pairing world value') :
    Machine.Advances same pairing world machine machine' world
      { machine with store := machine.store.define scope name value }
      { machine' with store := machine'.store.define scope' name' value' } := by
  subst named
  exact ⟨prefix_refl _, alike.withStore (prefix_refl _)
    (alike.store.define shares name values), rfl, rfl, .refl _⟩

theorem similar_defineHere (found : world.Hosts machine machine' chain) {name name' : String}
    (declares : Renaming.Declares chain name name')
    (values : value.Alike same pairing world value') :
    alike.Runs (fun _ _ _ => True) (defineHere name value) (defineHere name' value') :=
  .ok (alike.define ⟨found, declares.1⟩ declares.2 values) trivial

theorem similar_freshIdentity :
    alike.Runs (fun _ identity identity' => identity' = identity) freshIdentity
      freshIdentity := by
  refine .ok ⟨prefix_refl _, ?_, rfl, rfl, .refl _⟩ alike.nextIdentity
  exact { alike with nextIdentity := congrArg (· + 1) alike.nextIdentity }

theorem similar_newFunction (closures : closure.Alike same pairing world [] closure') :
    alike.Runs (Value.Alike same pairing) (newFunction closure) (newFunction closure') := by
  refine (similar_freshIdentity alike).bind ?_
  rintro later next next' _ identity advances rfl
  exact similar_pure advances.alike
    (.function identity (closures.grow (.refl pairing) advances.grown))

theorem similar_newObject
    {origin origin' : Class} (origins : origin.Alike same pairing world origin') :
    alike.Runs (Value.Alike same pairing) (newObject origin) (newObject origin') := by
  have size := alike.fieldsSize
  unfold Machine.Alike.Runs newObject
  rw [size]
  refine .ok ⟨prefix_refl _, ?_, rfl, rfl, .refl _⟩ (.object _ origins)
  refine { alike with fieldsSize := ?_, fields := ?_ }
  · simp [alike.fieldsSize]
  · intro identity
    simp only [Array.getElem?_push, alike.fieldsSize]
    split
    · exact .some fun name => .none
    · exact alike.fields identity

omit alike in
/-- A scope that binds only the receiver has nothing to rename. -/
theorem Bindings.alike_receiver {receiver receiver' : Value}
    (receivers : receiver.Alike same pairing world receiver') :
    (empty.set "this" receiver).Alike same pairing world .identity
      (empty.set "this" receiver') := by
  intro name
  rw [get?_set, get?_set, Renaming.identity_apply]
  split
  · exact .some receivers
  · exact .none

/-- Methods bound on both sides are alike. -/
theorem similar_bindReceiver {method method' : Closure} {receiver receiver' : Value}
    (methods : method.Alike same pairing world [.identity] method')
    (receivers : receiver.Alike same pairing world receiver') :
    alike.Runs (fun later => Closure.Alike same pairing later []) (bindReceiver method receiver)
      (bindReceiver method' receiver') := by
  rcases methods with ⟨initializer, chain, shares, decl⟩
  refine (similar_newScope alike shares.found rfl (alike_receiver receivers)).bind ?_
  intro later next next' inner inner' advances entered
  exact similar_pure advances.alike ⟨initializer, _, ⟨entered, rfl⟩, decl⟩

theorem similar_field? (identity : Nat) (name : String) :
    alike.Runs (fun later => Option.Rel (Value.Alike same pairing later)) (field? identity name)
      (field? identity name) := by
  refine .ok alike.advances ?_
  have kept := alike.fields identity
  generalize machine.fields[identity]? = bindings, machine'.fields[identity]? = bindings' at kept
  cases kept with
  | none => exact .none
  | some kept => exact kept name

theorem similar_setField (identity : Nat) (name : String)
    (values : value.Alike same pairing world value') :
    alike.Runs (fun later _ _ => later = world) (setField identity name value)
      (setField identity name value') := by
  refine .ok ⟨prefix_refl _, ?_, rfl, rfl, .refl _⟩ rfl
  refine { alike with fieldsSize := ?_, fields := ?_ }
  · simp [alike.fieldsSize]
  · intro other
    have kept := alike.fields other
    simp only [Array.getElem?_modify]
    generalize machine.fields[other]? = bindings, machine'.fields[other]? = bindings' at kept ⊢
    split
    · cases kept with
      | none => exact .none
      | some kept =>
        refine .some fun key => ?_
        rw [get?_set, get?_set, Renaming.identity_apply]
        split
        · exact .some values
        · exact kept key
    · exact kept

theorem similar_readProperty
    {object object' : Value} (objects : object.Alike same pairing world object')
    {property property' : Token} (fixed : Token.Fixed same property property') :
    alike.Runs (Value.Alike same pairing) (readProperty object property)
      (readProperty object' property') := by
  have whole := objects
  cases objects with
  | @object origin origin' identity origins =>
    simp only [readProperty]
    rw [fixed.lexeme]
    refine (similar_field? alike identity property.lexeme).bind ?_
    intro later next next' value value' advances values
    cases values with
    | some values => exact similar_pure advances.alike values
    | none =>
      have found := (origins.grow (.refl pairing) advances.grown).findMethod? property.lexeme
      simp only
      generalize origin.findMethod? property.lexeme = method,
        origin'.findMethod? property.lexeme = method' at found
      cases found with
      | none => exact similar_raise advances.alike _ fixed.same
      | some methods =>
        refine (similar_bindReceiver advances.alike methods (whole.grow advances.grown)).bind ?_
        intro last final final' closure closure' further closures
        exact similar_newFunction further.alike closures
  | _ => exact similar_raise alike _ fixed.same

theorem similar_printLine (text : String) :
    alike.Runs (fun _ _ _ => True) (printLine text) (printLine text) := by
  have grows := Sink.grows_write machine.output (text ++ "\n").toUTF8
  have advances (output : Sink) (grown : machine.output.Grows output) :
      Machine.Advances same pairing world machine machine' world { machine with output := output }
        { machine' with output := output } :=
    ⟨prefix_refl _, { alike with output := rfl }, rfl, rfl, grown⟩
  unfold Machine.Alike.Runs printLine write Sink.writeText
  rw [alike.output]
  simp only
  split
  · exact .ok (advances _ grows) trivial
  · exact .error (advances _ grows) (.stream _)

theorem similar_readClock : alike.Runs (Value.Alike same pairing) readClock readClock := by
  have shown : machine'.clock machine'.readings = machine.clock machine.readings := by
    rw [alike.clock, alike.readings]
  unfold Machine.Alike.Runs readClock
  rw [shown]
  refine .ok ⟨prefix_refl _, ?_, rfl, rfl, .refl _⟩ (.number _)
  exact { alike with readings := congrArg (· + 1) alike.readings }

theorem similar_inheritedLayers (tokens : same token token') {parent parent' : Value}
    (parents : parent.Alike same pairing world parent') :
    alike.Runs (fun later => List.Forall₂ (ClassLayer.Alike same pairing later))
      (inheritedLayers token parent) (inheritedLayers token' parent') := by
  cases parents with
  | classValue classes => exact similar_pure alike classes.layers
  | _ => exact similar_raise alike _ tokens

omit alike in
theorem Run.closeMethods_alike {scope scope' : ScopeId}
    (shares : world.Shares scope scope' chain) {methods methods' : List FunctionDecl}
    (declared : FunctionDecl.AllAlike same pairing (.identity :: chain) methods methods') :
    List.Forall₂ (ClassLayer.EntryAlike same pairing world)
      (closeMethods scope methods) (closeMethods scope' methods') := by
  induction methods generalizing methods' with
  | nil =>
    cases declared
    exact .nil
  | cons method methods ih =>
    cases declared with
    | cons head tail =>
      refine .cons ⟨head.name, ?_, chain, shares, head⟩ (ih tail)
      simp only [head.name]

theorem similar_newClass
    (shares : world.Shares machine.current machine'.current chain) (name : String)
    {inherited inherited' : List ClassLayer}
    (layers : List.Forall₂ (ClassLayer.Alike same pairing world) inherited inherited')
    {methods methods' : List FunctionDecl}
    (declared : FunctionDecl.AllAlike same pairing (.identity :: chain) methods methods') :
    alike.Runs (Value.Alike same pairing) (newClass name inherited methods)
      (newClass name inherited' methods') := by
  refine (similar_currentScope alike).bind ?_
  rintro later next next' scope _ advances ⟨rfl, rfl⟩
  refine (similar_freshIdentity advances.alike).bind ?_
  rintro last final final' _ identity further rfl
  have grown := advances.grown.trans further.grown
  refine similar_pure further.alike (.classValue ?_)
  have own : ClassLayer.Alike same pairing world ⟨name, closeMethods machine.current methods⟩
      ⟨name, closeMethods machine'.current methods'⟩ :=
    ⟨rfl, closeMethods_alike shares declared⟩
  exact Class.Alike.grow ⟨rfl, .cons own layers⟩ (.refl pairing) grown

theorem similar_checkCall (tokens : same token token') {callee callee' : Value}
    (callees : callee.Alike same pairing world callee') (given : Nat) :
    alike.Runs (Callee.Alike same pairing) (orRaise token (checkCall callee given))
      (orRaise token' (checkCall callee' given)) := by
  have found := callees.callee?
  unfold Machine.Alike.Runs checkCall
  generalize callee.callee? = called, callee'.callee? = called' at found
  cases found with
  | none => exact similar_raise alike _ tokens
  | some found =>
    simp only [found.arity]
    split
    · exact similar_pure alike found
    · exact similar_raise alike _ tokens

end

/-! ## Access to variables -/

/--
Occurrences that correspond refer to scopes that both machines have.  Only a
global name may have none.
-/
theorem Machine.Alike.target (alike : machine.Alike same pairing world machine')
    (found : world.Hosts machine machine' chain) {id id' : ExprId}
    {name name' : Token} (refers : Token.Refers same pairing chain id id' name name') :
    (machine.distances.find? id = none ∧ machine'.distances.find? id' = none ∧
        machine.target? id name.lexeme = none ∧ machine'.target? id' name'.lexeme = none ∧
        name'.lexeme = name.lexeme) ∨
      ∃ scope scope' outer, machine.target? id name.lexeme = some scope ∧
        machine'.target? id' name'.lexeme = some scope' ∧ world.Shares scope scope' outer ∧
        name'.lexeme = Renaming.innermost outer name.lexeme := by
  rcases refers with ⟨_, place, paired, renamed⟩
  rcases alike.distances _ _ _ _ paired with ⟨recorded, recorded'⟩
  unfold Machine.target?
  cases place with
  | none =>
    simp only [recorded, recorded', Option.map_none]
    have lexeme : name'.lexeme = name.lexeme := renamed
    rw [lexeme]
    rcases alike.store.binder? alike.global name.lexeme with ⟨unbound, unbound'⟩ | ⟨bound, bound'⟩
    · exact .inl ⟨trivial, trivial, unbound, unbound', rfl⟩
    · exact .inr ⟨_, _, [], bound, bound', ⟨alike.global, rfl⟩, rfl⟩
  | some dist =>
    simp only [recorded, recorded', Option.map_some]
    rcases renamed with ⟨rename, outwards, kept, lexeme⟩
    rcases alike.store.ancestor found outwards kept with
      ⟨ancestor, ancestor', outer, reached, reached', shares⟩
    exact .inr ⟨ancestor, ancestor', _, reached, reached', shares, lexeme⟩

section

variable {id : ExprId} {scope : ScopeId} (reached : machine.target? id name.lexeme = some scope)

include reached

theorem Access.strict_read : Access.strict.read id name machine =
      match machine.store.getLocal? scope name.lexeme with
      | some value => .ok value machine
      | none => exhausted machine := by
  simp only [strict, guarded, readVariable_eq, readIn, reached, Option.bind_some]
  cases recorded : machine.distances.find? id with
  | some dist =>
    simp only [Machine.target?, recorded] at reached
    simp only [Machine.binds, recorded, reached]
    cases machine.store.getLocal? scope name.lexeme <;> rfl
  | none =>
    simp only [Machine.target?, recorded] at reached
    have isBound := find?_some reached
    rcases Option.isSome_iff_exists.mp isBound with ⟨value, bound⟩
    simp only [Machine.binds, recorded, bound, if_true]

theorem Access.strict_write (value : Value) :
    Access.strict.write id name value machine = writeVariable id name value machine := by
  have reaches : machine.reaches id = true := by
    unfold Machine.target? at reached
    unfold Machine.reaches
    cases recorded : machine.distances.find? id with
    | some dist =>
      simp only [recorded] at reached
      simp [reached]
    | none => rfl
  simp only [strict, guarded, reaches, if_true]

end

/-- Variables are reached alike by occurrences that correspond. -/
structure Access.Faithful (access : Access) (same : Token → Token → Prop) (pairing : Pairing) :
    Prop where
  read : ∀ {world : World} {machine machine' : Machine} {chain id id' name name'},
    machine.Alike same pairing world machine' → world.Hosts machine machine' chain →
    Token.Refers same pairing chain id id' name name' →
      Similar same pairing world machine machine' (Value.Alike same pairing)
        (access.read id name machine) (access.read id' name' machine')
  write : ∀ {world : World} {machine machine' : Machine} {chain id id' name name' value value'},
    machine.Alike same pairing world machine' → world.Hosts machine machine' chain →
    Token.Refers same pairing chain id id' name name' →
    Value.Alike same pairing world value value' →
      Similar same pairing world machine machine' (fun later _ _ => later = world)
        (access.write id name value machine) (access.write id' name' value' machine')

theorem similar_writeVariable (alike : machine.Alike same pairing world machine')
    (found : world.Hosts machine machine' chain) {id id' : ExprId} {name' : Token}
    (refers : Token.Refers same pairing chain id id' name name')
    (values : value.Alike same pairing world value') :
    alike.Runs (fun later _ _ => later = world) (writeVariable id name value)
      (writeVariable id' name' value') := by
  rw [Machine.Alike.Runs, writeVariable_eq, writeVariable_eq]
  rcases alike.target found refers with
    ⟨_, _, unbound, unbound', lexeme⟩ | ⟨scope, scope', outer, reached, reached', shares, lexeme⟩
  · rw [unbound, unbound', writeIn, writeIn, lexeme]
    exact similar_raise alike _ refers.same
  · rw [reached, reached']
    exact .ok (alike.define shares lexeme values) rfl

/-- If names do not change, a variable that is missing is reported alike. -/
theorem Access.faithful_recorded (pairing : Pairing) : Access.recorded.Faithful Eq pairing where
  read := by
    intro world machine machine' chain id id' name name' alike found refers
    have tokens := refers.same
    subst tokens
    show Similar _ _ _ _ _ _ (readVariable id name machine) (readVariable id' name machine')
    rw [readVariable_eq, readVariable_eq]
    unfold readIn
    rcases alike.target found refers with
      ⟨_, _, unbound, unbound', _⟩ | ⟨scope, scope', outer, reached, reached', shares, lexeme⟩
    · rw [unbound, unbound']
      exact similar_raise alike _ rfl
    · have values := alike.store.bound scope scope' outer shares name.lexeme
      rw [← lexeme] at values
      rw [reached, reached', Option.bind_some, Option.bind_some]
      generalize machine.store.getLocal? scope name.lexeme = value,
        machine'.store.getLocal? scope' name.lexeme = value' at values
      cases values with
      | none => exact similar_raise alike _ rfl
      | some values => exact .ok alike.advances values
  write alike found refers values := similar_writeVariable alike found refers values

/-- Strict access reaches the variables that correspond. -/
theorem Access.faithful_strict (same : Token → Token → Prop) (pairing : Pairing) :
    Access.strict.Faithful same pairing where
  read := by
    intro world machine machine' chain id id' name name' alike found refers
    rcases alike.target found refers with ⟨unrecorded, unrecorded', unbound, unbound', lexeme⟩ |
      ⟨scope, scope', outer, reached, reached', shares, lexeme⟩
    · simp only [strict, guarded, Machine.binds, unrecorded, unrecorded', if_true,
        readVariable_eq, readIn, unbound, unbound', Option.bind_none]
      rw [lexeme]
      exact similar_raise alike _ refers.same
    · have values := alike.store.bound scope scope' outer shares name.lexeme
      rw [strict_read reached, strict_read reached', lexeme]
      generalize machine.store.getLocal? scope name.lexeme = value,
        machine'.store.getLocal? scope' (Renaming.innermost outer name.lexeme) = value' at values
      cases values with
      | none => exact similar_exhausted alike
      | some values => exact .ok alike.advances values
  write := by
    intro world machine machine' chain id id' name name' value value' alike found refers values
    have written := similar_writeVariable alike found refers values
    rcases alike.target found refers with
      ⟨unrecorded, unrecorded', _⟩ | ⟨_, _, _, reached, reached', _⟩
    · simp only [strict, guarded, Machine.reaches, unrecorded, unrecorded', if_true]
      exact written
    · rw [strict_write reached, strict_write reached']
      exact written

/-! ## Calls -/

theorem Bindings.alike_empty (rename : Renaming) :
    empty.Alike same pairing world rename .empty :=
  fun _ => .none

/-- The arguments of a call are bound to parameters that correspond. -/
theorem Bindings.Alike.foldl_set {rename : Renaming} {params params' : List Token}
    (listed : List.Forall₂ (fun parameter parameter' =>
        parameter'.lexeme = rename parameter.lexeme)
      params params') (given : List.Forall₂ (Value.Alike same pairing world) args args')
    (alike : bindings.Alike same pairing world rename bindings') :
    Bindings.Alike same pairing world rename ((params.zip args).foldl
        (fun bindings (parameter, argument) => bindings.set parameter.lexeme argument) bindings)
      ((params'.zip args').foldl (fun bindings (parameter, argument) =>
          bindings.set parameter.lexeme argument) bindings') := by
  induction listed generalizing args args' bindings bindings' with
  | nil => exact alike
  | cons named listed ih =>
    cases given with
    | nil => exact alike
    | cons value given =>
      simp only [zip_cons_cons, foldl_cons]
      refine ih given ?_
      intro key
      rw [get?_set, get?_set, named]
      simp only [rename.injective.eq_iff]
      split
      · exact .some value
      · exact alike key

theorem Similar.finishCall {closure closure' : Closure}
    (closures : closure.Alike same pairing world [] closure') {body body' : Run Unit}
    (executed : Similar same pairing world machine machine' (fun _ _ _ => True)
      (body machine) (body' machine')) :
    Similar same pairing world machine machine' (Value.Alike same pairing)
      (Run.finishCall closure body machine) (Run.finishCall closure' body' machine') := by
  rcases closures with ⟨initializer, chain, shares, _⟩
  have outcomes {later : World} {next next' : Machine}
      (advances : Machine.Advances same pairing world machine machine' later next next')
      {value value' : Value} (values : value.Alike same pairing later value') :
      (closure.outcome next.store value).Alike same pairing later
        (closure'.outcome next'.store value') := by
    unfold Closure.outcome Closure.receiver
    rw [initializer]
    split
    · have receivers := advances.alike.store.bound _ _ chain (shares.grow advances.grown) "this"
      rw [(Renaming.innermost chain).receiver] at receivers
      generalize next.store.getLocal? closure.scope "this" = receiver,
        next'.store.getLocal? closure'.scope "this" = receiver' at receivers
      cases receivers with
      | none => exact .nil
      | some receivers => exact receivers
    · exact values
  unfold Run.finishCall
  generalize body machine = result, body' machine' = result' at executed
  cases executed with
  | ok advances _ => exact .ok advances (outcomes advances .nil)
  | error advances ends =>
    cases ends with
    | returned values => exact .ok advances (outcomes advances values)
    | fault fault tokens => exact .error advances (.fault fault tokens)
    | stream error => exact .error advances (.stream error)
    | exhausted => exact .error advances .exhausted

/-! ## Evaluation -/

variable (same pairing) in
/--
Trees that are alike are evaluated alike with a bound of fuel.  The second one
may have loops that are marked.
-/
structure Simulates (access : Access) (fuel : Nat) : Prop where
  evaluate : ∀ {world machine machine' chain value value'},
    Machine.Alike same pairing world machine machine' → world.Hosts machine machine' chain →
    Expr.Alike same pairing chain value value' →
      Similar same pairing world machine machine' (Value.Alike same pairing)
        (evaluateWith access fuel value machine)
        (Run.Counted.evaluate pairing.marks access fuel value' machine')
  evaluateAll : ∀ {world machine machine' chain values values'},
    Machine.Alike same pairing world machine machine' → world.Hosts machine machine' chain →
    Expr.AllAlike same pairing chain values values' → Similar same pairing world machine machine'
        (fun later => List.Forall₂ (Value.Alike same pairing later))
        (evaluateAllWith access fuel values machine)
        (Run.Counted.evaluateAll pairing.marks access fuel values' machine')
  invoke : ∀ {world machine machine' callee callee' args args'},
    Machine.Alike same pairing world machine machine' →
    Callee.Alike same pairing world callee callee' →
    List.Forall₂ (Value.Alike same pairing world) args args' →
      Similar same pairing world machine machine' (Value.Alike same pairing)
        (invokeWith access fuel callee args machine)
        (Run.Counted.invoke pairing.marks access fuel callee' args' machine')
  apply : ∀ {world machine machine' closure closure' args args'},
    Machine.Alike same pairing world machine machine' →
    Closure.Alike same pairing world [] closure closure' →
    List.Forall₂ (Value.Alike same pairing world) args args' →
      Similar same pairing world machine machine' (Value.Alike same pairing)
        (applyWith access fuel closure args machine)
        (Run.Counted.apply pairing.marks access fuel closure' args' machine')
  execute : ∀ {world machine machine' chain stmt stmt'},
    Machine.Alike same pairing world machine machine' → world.Hosts machine machine' chain →
    Stmt.Alike same pairing chain stmt stmt' →
      Similar same pairing world machine machine' (fun _ _ _ => True)
        (Run.executeWith access fuel stmt machine)
        (Run.Counted.execute pairing.marks access fuel stmt' machine')
  executeAll : ∀ {world machine machine' chain stmts stmts'},
    Machine.Alike same pairing world machine machine' → world.Hosts machine machine' chain →
    Stmt.AllAlike same pairing chain stmts stmts' →
      Similar same pairing world machine machine' (fun _ _ _ => True)
        (executeAllWith access fuel stmts machine)
        (Run.Counted.executeAll pairing.marks access fuel stmts' machine')
  stepped : ∀ {world machine machine' chain stmts stmts'},
    Machine.Alike same pairing world machine machine' → world.Hosts machine machine' chain →
    Stmt.AllAlike same pairing (.unshared :: chain) stmts stmts' →
      Similar same pairing world machine machine' (fun _ _ _ => True)
        (Run.executeWith access fuel (.block stmts) machine)
        (Run.Counted.sequence pairing.marks access fuel stmts' machine')

theorem simulates_zero (access : Access) : Simulates same pairing access 0 where
  evaluate alike _ _ := similar_exhausted alike
  evaluateAll alike _ _ := similar_exhausted alike
  invoke alike _ _ := similar_exhausted alike
  apply alike _ _ := similar_exhausted alike
  execute alike _ _ := similar_exhausted alike
  executeAll alike _ _ := similar_exhausted alike
  stepped alike _ _ := similar_exhausted alike

variable {access : Access} {fuel : Nat}

theorem Simulates.evaluate_succ (faithful : access.Faithful same pairing)
    (simulates : Simulates same pairing access fuel)
    (alike : machine.Alike same pairing world machine')
    (found : world.Hosts machine machine' chain) {value value' : Expr}
    (values : value.Alike same pairing chain value') :
    alike.Runs (Value.Alike same pairing) (evaluateWith access (fuel + 1) value)
      (Run.Counted.evaluate pairing.marks access (fuel + 1) value') := by
  cases values with
  | literal value => exact similar_pure alike (Value.alike_ofLiteral value)
  | grouping inner => exact simulates.evaluate alike found inner
  | unary fixed unmarked inner =>
    simp only [evaluateWith, Run.Counted.evaluate]
    refine (simulates.evaluate alike found inner).andThen found fun alike _ _ operands => ?_
    rw [fixed.kind, operands.unary]
    exact similar_orRaise alike fixed.same fun _ computed => Operator.alike_of_unary computed
  | binary first fixed second =>
    simp only [evaluateWith, Run.Counted.evaluate]
    refine (simulates.evaluate alike found first).andThen found fun alike found _ lefts => ?_
    refine (simulates.evaluate alike found second).andThen found fun alike _ grown rights => ?_
    rw [fixed.kind, (lefts.grow grown).binary rights]
    exact similar_orRaise alike fixed.same fun _ computed => Operator.alike_of_binary computed
  | logical first fixed second =>
    simp only [evaluateWith, Run.Counted.evaluate]
    refine (simulates.evaluate alike found first).andThen found fun alike found _ lefts => ?_
    rw [fixed.kind, lefts.decides]
    split
    · exact similar_pure alike lefts
    · exact simulates.evaluate alike found second
  | name refers | receiver refers => exact faithful.read alike found refers
  | assign inner refers =>
    simp only [evaluateWith, Run.Counted.evaluate]
    refine (simulates.evaluate alike found inner).andThen found fun alike found _ assigneds => ?_
    refine (faithful.write alike found refers assigneds).bind ?_
    rintro _ final final' _ _ further rfl
    exact similar_pure further.alike assigneds
  | call called fixed given =>
    simp only [evaluateWith, Run.Counted.evaluate]
    refine (simulates.evaluate alike found called).andThen found fun alike found _ functions => ?_
    refine (simulates.evaluateAll alike found given).andThen found fun alike found grown args => ?_
    rw [args.length_eq]
    refine (similar_checkCall alike fixed.same (functions.grow grown) _).andThen found
      fun alike _ grown callees => ?_
    exact simulates.invoke alike callees (args.imp fun _ _ alike => alike.grow grown)
  | get owner fixed =>
    simp only [evaluateWith, Run.Counted.evaluate]
    exact (simulates.evaluate alike found owner).andThen found fun alike _ _ objects =>
      similar_readProperty alike objects fixed
  | set owner fixed inner =>
    simp only [evaluateWith, Run.Counted.evaluate]
    refine (simulates.evaluate alike found owner).andThen found fun alike found _ objects => ?_
    cases objects with
    | object identity origins =>
      refine (simulates.evaluate alike found inner).andThen found fun alike _ _ assigneds => ?_
      rw [fixed.lexeme]
      refine (similar_setField alike identity _ assigneds).bind ?_
      rintro _ ended ended' _ _ finished rfl
      exact similar_pure finished.alike assigneds
    | _ => exact similar_raise alike _ fixed.same

section

variable (simulates : Simulates same pairing access fuel)
  (alike : machine.Alike same pairing world machine')

include simulates alike

theorem Simulates.evaluateAll_succ (found : world.Hosts machine machine' chain)
    {values values' : List Expr} (trees : Expr.AllAlike same pairing chain values values') :
    alike.Runs (fun later => List.Forall₂ (Value.Alike same pairing later))
      (evaluateAllWith access (fuel + 1) values)
      (Run.Counted.evaluateAll pairing.marks access (fuel + 1) values') := by
  cases trees with
  | nil => exact similar_pure alike .nil
  | cons head tail =>
    simp only [evaluateAllWith, Run.Counted.evaluateAll]
    refine (simulates.evaluate alike found head).andThen found fun alike found _ firsts => ?_
    exact (simulates.evaluateAll alike found tail).andThen found fun alike _ grown rest =>
      similar_pure alike (.cons (firsts.grow grown) rest)

theorem Simulates.apply_succ (closures : closure.Alike same pairing world [] closure')
    (given : List.Forall₂ (Value.Alike same pairing world) args args') :
    alike.Runs (Value.Alike same pairing) (applyWith access (fuel + 1) closure args)
      (Run.Counted.apply pairing.marks access (fuel + 1) closure' args') := by
  have kept := closures
  rcases closure with ⟨decl, scope, isInitializer⟩
  rcases closure' with ⟨decl', scope', isInitializer'⟩
  rcases closures with ⟨_, chain, shares, decls⟩
  cases decls with
  | mk rename fresh named listed executed =>
    simp only [applyWith, Run.Counted.apply, Closure.argumentBindings]
    have contents := Bindings.Alike.foldl_set listed given (alike_empty rename)
    refine (similar_newScope alike shares.found fresh contents).bind ?_
    intro later next next' inner inner' advances entered
    refine Similar.finishCall (kept.grow (.refl pairing) advances.grown) ?_
    exact Similar.within inner inner'
      (simulates.executeAll (advances.alike.within inner inner') entered executed)

theorem Simulates.invoke_succ {callee callee' : Callee}
    (callees : callee.Alike same pairing world callee')
    (given : List.Forall₂ (Value.Alike same pairing world) args args') :
    alike.Runs (Value.Alike same pairing) (invokeWith access (fuel + 1) callee args)
      (Run.Counted.invoke pairing.marks access (fuel + 1) callee' args') := by
  cases callees with
  | closure functions => exact simulates.apply alike functions given
  | native provided =>
    cases provided
    exact similar_readClock alike
  | @construct origin origin' origins =>
    simp only [invokeWith, Run.Counted.invoke]
    refine (similar_newObject alike origins).bind ?_
    intro later next next' object object' advances objects
    have initializers := (origins.grow (.refl pairing)
      advances.grown).findMethod? Class.initializerName
    unfold Class.initializer?
    generalize origin.findMethod? Class.initializerName = method,
      origin'.findMethod? Class.initializerName = method' at initializers
    cases initializers with
    | none => exact similar_pure advances.alike objects
    | some methods =>
      refine (similar_bindReceiver advances.alike methods objects).bind ?_
      intro last final final' closure closure' further closures
      refine (simulates.apply further.alike closures (given.imp ?_)).bind ?_
      · intro argument argument' argumentsAlike
        exact argumentsAlike.grow (advances.grown.trans further.grown)
      · intro end_ ended ended' _ _ finished _
        exact similar_pure finished.alike (objects.grow (further.grown.trans finished.grown))

theorem Simulates.executeAll_succ (found : world.Hosts machine machine' chain)
    {stmts stmts' : List Stmt} (trees : Stmt.AllAlike same pairing chain stmts stmts') :
    alike.Runs (fun _ _ _ => True) (executeAllWith access (fuel + 1) stmts)
      (Run.Counted.executeAll pairing.marks access (fuel + 1) stmts') := by
  cases trees with
  | nil => exact similar_pure alike trivial
  | cons head tail =>
    simp only [executeAllWith, Run.Counted.executeAll]
    exact (simulates.execute alike found head).andThen found fun alike found _ _ =>
      simulates.executeAll alike found tail

end

/-- A fault of the superclass is reported at tokens that correspond. -/
theorem Run.superclassToken_same {name' : Token} (fixed : Token.Fixed same name name')
    {superclass superclass' : Expr} (trees : superclass.Alike same pairing chain superclass') :
    same (superclassToken name superclass) (superclassToken name' superclass') := by
  cases trees with
  | name refers => exact refers.same
  | _ => exact fixed.same

theorem Expr.Alike.loop?_eq_none {value value' : Expr}
    (alike : value.Alike same pairing chain value') : value'.loop? pairing.marks = none := by
  cases alike with
  | unary fixed unmarked inner => simp [Expr.loop?, unmarked]
  | _ => rfl

section

variable (simulates : Simulates same pairing access fuel)
  (alike : machine.Alike same pairing world machine') (found : world.Hosts machine machine' chain)

include simulates alike found

/-- A block with nothing declared in it makes a scope that the second machine lacks. -/
theorem Simulates.stepped_succ {stmts stmts' : List Stmt}
    (trees : Stmt.AllAlike same pairing (.unshared :: chain) stmts stmts') :
    alike.Runs (fun _ _ _ => True) (Run.executeWith access (fuel + 1) (.block stmts))
      (Run.Counted.sequence pairing.marks access (fuel + 1) stmts') := by
  have grown := prefix_append world [(machine'.current, .unshared :: chain)]
  have pushed := alike.withStore grown (alike.store.pushSpare found)
  have entered : World.Hosts (world ++ [(machine'.current, .unshared :: chain)]) { machine with
        store := machine.store.push ⟨.empty, some machine.current⟩
        current := machine.store.size } machine' (.unshared :: chain) := by
    rw [World.Hosts, alike.store.size, getElem?_append_right (Nat.le_refl _), Nat.sub_self]
    rfl
  have executed :=
    (simulates.executeAll (pushed.within _ machine'.current) entered trees).withinFirst
  exact executed.after ⟨grown, pushed, rfl, rfl, .refl _⟩

section

variable {stmt stmt' : Stmt} (trees : stmt.Alike same pairing chain stmt')

include trees

theorem Simulates.loop_succ {cond cond' : Expr} (tested : cond.Alike same pairing chain cond')
    {round round' : Run Unit}
    (rounds : ∀ {later next next'}, Machine.Alike same pairing later next next' →
      later.Hosts next next' chain →
      Similar same pairing later next next' (fun _ _ _ => True) (round next) (round' next'))
    :
    alike.Runs (fun _ _ _ => True) (do
        let value ← evaluateWith access fuel cond
        if value.truthy then
          round
          Run.executeWith access fuel stmt
        else
          return () : Run Unit)
      (do
        let value ← Run.Counted.evaluate pairing.marks access fuel cond'
        if value.truthy then
          round'
          Run.Counted.execute pairing.marks access fuel stmt'
        else
          return () : Run Unit) := by
  refine (simulates.evaluate alike found tested).andThen found fun alike found _ values => ?_
  rw [values.truthy]
  split
  · exact (rounds alike found).andThen found fun alike found _ _ =>
      simulates.execute alike found trees
  · exact similar_pure alike trivial

/-- Statements that are alike do the same. -/
theorem Simulates.execute_succ :
    alike.Runs (fun _ _ _ => True) (Run.executeWith access (fuel + 1) stmt)
      (Run.Counted.execute pairing.marks access (fuel + 1) stmt') := by
  have whole := trees
  cases trees with
  | expression inner =>
    simp only [Run.executeWith, Run.Counted.execute]
    exact (simulates.evaluate alike found inner).andThen found fun alike _ _ _ =>
      similar_pure alike trivial
  | print inner =>
    simp only [Run.executeWith, Run.Counted.execute]
    refine (simulates.evaluate alike found inner).andThen found fun alike _ _ printeds => ?_
    rw [printeds.text]
    exact similar_printLine alike _
  | varPlain declared => exact similar_defineHere alike found declared .nil
  | varInitial declared inner =>
    simp only [Run.executeWith, Run.Counted.execute]
    exact (simulates.evaluate alike found inner).andThen found fun alike found _ values =>
      similar_defineHere alike found declared values
  | block rename fresh inner =>
    simp only [Run.executeWith, Run.Counted.execute]
    refine (similar_currentScope alike).bind ?_
    rintro later next next' outer outer' advances ⟨rfl, rfl⟩
    have around := World.getElem?_of_grown advances.grown found
    refine (similar_newScope advances.alike around fresh (alike_empty rename)).bind ?_
    intro last final final' scope scope' further entered
    exact Similar.within scope scope'
      (simulates.executeAll (further.alike.within scope scope') entered inner)
  | ifThen tested chosen =>
    simp only [Run.executeWith, Run.Counted.execute, tested.loop?_eq_none]
    refine (simulates.evaluate alike found tested).andThen found fun alike found _ values => ?_
    rw [values.truthy]
    split
    · exact simulates.execute alike found chosen
    · exact similar_pure alike trivial
  | ifElse tested chosen otherwise =>
    simp only [Run.executeWith, Run.Counted.execute, tested.loop?_eq_none]
    refine (simulates.evaluate alike found tested).andThen found fun alike found _ values => ?_
    rw [values.truthy]
    split
    · exact simulates.execute alike found chosen
    · exact simulates.execute alike found otherwise
  | whileLoop tested repeated =>
    exact simulates.loop_succ alike found whole tested fun alike found =>
      simulates.execute alike found repeated
  | countedLoop marked tested repeated =>
    simp only [Run.executeWith, Run.Counted.execute, Expr.loop?, marked, if_true]
    exact simulates.loop_succ alike found whole tested fun alike found =>
      simulates.execute alike found repeated
  | steppedLoop marked tested repeated =>
    simp only [Run.executeWith, Run.Counted.execute, Expr.loop?, marked, if_true]
    exact simulates.loop_succ alike found whole tested fun alike found =>
      simulates.stepped alike found repeated
  | @funDecl _ decl decl' declared inner =>
    simp only [Run.executeWith, Run.Counted.execute]
    refine (similar_currentScope alike).bind ?_
    rintro later next next' _ _ advances ⟨rfl, rfl⟩
    have closures : Closure.Alike same pairing later [] ⟨decl, machine.current, false⟩
        ⟨decl', machine'.current, false⟩ :=
      ⟨rfl, chain, ⟨World.getElem?_of_grown advances.grown found, declared.1⟩, inner⟩
    exact (similar_newFunction advances.alike closures).andThen (advances.found found)
      fun alike found _ functions => similar_defineHere alike found declared functions
  | returnPlain keyword keyword' => exact similar_returned alike .nil
  | returnValue keyword keyword' inner =>
    simp only [Run.executeWith, Run.Counted.execute]
    exact (simulates.evaluate alike found inner).andThen found fun alike _ _ returneds =>
      similar_returned alike returneds
  | classPlain fixed declared inner =>
    simp only [Run.executeWith, Run.Counted.execute]
    rw [fixed.lexeme]
    rw [fixed.lexeme] at declared
    exact (similar_newClass alike ⟨found, declared.1⟩ _ .nil inner).andThen found
      fun alike found _ values => similar_defineHere alike found declared values
  | classExtending fixed declared superclasses inner =>
    simp only [Run.executeWith, Run.Counted.execute]
    rw [fixed.lexeme]
    rw [fixed.lexeme] at declared
    refine (simulates.evaluate alike found superclasses).andThen found
      fun alike found _ parents => ?_
    refine (similar_inheritedLayers alike (superclassToken_same fixed superclasses)
      parents).andThen found fun alike found _ layers => ?_
    exact (similar_newClass alike ⟨found, declared.1⟩ _ layers inner).andThen found
      fun alike found _ values => similar_defineHere alike found declared values

end

end

/-- By induction on the fuel, code that is alike does the same. -/
theorem simulates (faithful : access.Faithful same pairing) (fuel : Nat) :
    Simulates same pairing access fuel := by
  induction fuel with
  | zero => exact simulates_zero access
  | succ fuel ih =>
    exact {
      evaluate := fun alike found trees => ih.evaluate_succ faithful alike found trees
      evaluateAll := fun alike found trees => ih.evaluateAll_succ alike found trees
      invoke := fun alike callees given => ih.invoke_succ alike callees given
      apply := fun alike closures given => ih.apply_succ alike closures given
      execute := fun alike found trees => ih.execute_succ alike found trees
      executeAll := fun alike found trees => ih.executeAll_succ alike found trees
      stepped := fun alike found trees => ih.stepped_succ alike found trees }

end

end Treewalk
