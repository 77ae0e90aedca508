import Mathlib.Data.List.Permutation
import Treewalk.Proofs.ParserSoundness
import Treewalk.Proofs.Discipline

/-!
# The faults of shaped code

The code that a program can come to are the nodes of the program and those of
the functions that the machine holds when it starts.  Which code is run is a
discipline, and so is which faults are met: each is raised by a node of the
code, at a token of that node.
-/

namespace Treewalk

/-- The methods of a class and of its superclasses. -/
def Class.closures (value : Class) : List Closure :=
  value.layers.flatMap fun layer => layer.methods.map Prod.snd

/-- The closures that can be reached through a value. -/
def Value.closures : Value → List Closure
  | function _ closure => [closure]
  | classValue value => value.closures
  | object _ origin => origin.closures
  | _ => []

/-- A node of a function that a machine holds. -/
def Machine.HoldsNode (machine : Machine) (node : Node) : Prop :=
  ∃ value, machine.Holds value ∧ ∃ closure ∈ value.closures,
    node.Occurs (.function closure.declaration)

/-- A node of a program, or of a function that the machine it runs on holds. -/
def Program.Code (program : Program) (machine : Machine) (node : Node) : Prop :=
  (∃ statement ∈ program, node.Occurs (.stmt statement)) ∨ machine.HoldsNode node

/--
The fault is not about an unknown operator; and if it is about a superclass, it
is at the name of the superclass of a class in the code.
-/
def Fault.Known (code : Node → Prop) (fault : Fault) (token : Token) : Prop :=
  fault ≠ .unknownOperator ∧ (fault = .superclassNotClass →
    ∃ name id methods, code (.stmt (.classDecl name (some (.name id token)) methods)))

/-! ## What a node can raise -/

section

variable {fault : Fault} {token : Token}

theorem Operator.fault_of_binary {op : Token} {left right : Value}
    (marked : Grammar.isAnyMark Grammar.binaryMarks op)
    (refused : Operator.binary op.kind left right = .error fault) :
    fault ≠ .unknownOperator ∧ fault ≠ .superclassNotClass := by
  unfold Grammar.isAnyMark at marked
  split at marked
  · next mark kind =>
    rw [kind] at refused
    unfold Operator.binary Operator.sum Operator.arithmetic at refused
    repeat' split at refused
    all_goals cases refused <;> simp_all [Grammar.binaryMarks]
  · cases marked

/-- A shaped expression raises known faults only. -/
theorem Expr.Raises.known {value : Expr} (raises : value.Raises fault token)
    (shaped : (Node.expr value).Shaped) (code : Node → Prop) : fault.Known code token := by
  have other : fault ≠ .unknownOperator ∧ fault ≠ .superclassNotClass := by
    cases value with
    | literal value | grouping inner | logical left op right => exact raises.elim
    | unary op operand =>
      rcases raises with ⟨_, value, refused⟩
      unfold Operator.unary at refused
      split at refused <;> cases refused
      exact ⟨nofun, nofun⟩
    | binary left op right =>
      rcases raises with ⟨_, value, other, refused⟩
      exact Operator.fault_of_binary shaped refused
    | call callee closing args =>
      rcases raises with ⟨_, function, given, refused⟩
      unfold Run.checkCall at refused
      split at refused
      · cases refused
        exact ⟨nofun, nofun⟩
      · split at refused <;> cases refused
        exact ⟨nofun, nofun⟩
    | get object property => rcases raises with ⟨_, rfl | rfl⟩ <;> exact ⟨nofun, nofun⟩
    | _ =>
      cases raises.2
      exact ⟨nofun, nofun⟩
  exact ⟨other.1, fun same => absurd same other.2⟩

/-- A class declaration blames the name of its own superclass. -/
theorem Run.token_of_superclassNotClass {fuel : Nat} {name superclass : Token}
    {id : ExprId} {methods : List FunctionDecl} {machine later : Machine}
    (ended : executeWith .recorded fuel
        (.classDecl name (some (.name id superclass)) methods) machine =
      .error (.fault .superclassNotClass token) later) :
    token = superclass := by
  cases fuel with
  | zero => cases ended
  | succ fuel =>
    cases fuel with
    | zero => cases ended
    | succ fuel =>
      simp only [executeWith, evaluateWith] at ended
      change EStateM.bind (readVariable id superclass) _ machine = _ at ended
      rw [EStateM.bind, readVariable_eq, readIn] at ended
      generalize (machine.target? id superclass.lexeme).bind _ = found at ended
      cases found with
      | none => cases ended
      | some parent =>
        cases parent <;> cases ended
        all_goals rfl

theorem Fault.eq_of_message (same : fault.message = "Unknown binary operator.") :
    fault = .unknownOperator := by
  -- Messages with a part of their own start with other words.
  have other {opening rest : String}
      (start : ¬ opening.toList <+: "Unknown binary operator.".toList)
      (whole : fault.message = opening ++ rest) : fault = .unknownOperator := by
    refine absurd ⟨rest.toList, ?_⟩ start
    rw [← String.toList_append, ← whole, same]
  cases fault with
  | unknownOperator => rfl
  | undefinedVariable name | undefinedProperty name =>
    exact other (by decide +kernel) String.append_assoc
  | arityMismatch expected given =>
    exact other (by decide +kernel)
      (String.append_assoc.trans (String.append_assoc.trans String.append_assoc))
  | _ => exact absurd same (by decide)

end

/-! ## Running given code -/

/-- Code consists of whole trees, and all of its nodes have their shapes. -/
structure Node.Closed (code : Node → Prop) : Prop where
  child : ∀ {node child}, code node → child ∈ node.children → code child
  shaped : ∀ {node}, code node → node.Shaped

namespace Discipline

/-- All code that is run, now or by calls later, is given code. -/
def running (code : Node → Prop) (distances : Distances) (globals : ScopeId) : Discipline where
  Site := Unit
  after _ _ := ()
  distances := distances
  globals := globals
  Orderly _ := True
  Grows _ _ := True
  Stands _ _ _ := True
  Callable _ closure := code (.function closure.declaration)
  Bindable _ method := code (.function method.declaration)
  Admits _ value := code (.expr value)
  Allows _ statement := code (.stmt statement)
  AllowsAll _ statements := ∀ statement ∈ statements, code (.stmt statement)
  Returns _ := True
  Excuses := Fault.Known code
  grows_refl _ := trivial
  grows_trans _ _ := trivial
  stands_grow _ _ := trivial
  callable_grow _ callable := callable
  bindable_grow _ bindable := bindable

variable {code : Node → Prop}

/-- Running code that is closed is lawful. -/
theorem lawful_running (closed : Node.Closed code) (distances : Distances) (globals : ScopeId) :
    (running code distances globals).Lawful .recorded where
  part admits mem := closed.child admits (List.mem_map_of_mem mem)
  read _ _ _ := rfl
  receiver _ _ _ := rfl
  write _ _ _ _ := rfl
  raises admits raised := raised.known (closed.shaped admits) code
  inherits {_ name superclass methods} allows := by
    rcases closed.shaped allows superclass (.head _) with ⟨id, token, rfl⟩
    exact ⟨nofun, fun _ => ⟨name, id, methods, allows⟩⟩
  rebind _ _ _ _ _ _ := ⟨trivial, trivial⟩
  operand allows mem :=
    ⟨(), closed.child allows (Node.operand_mem mem), fun _ _ _ => trivial⟩
  branch {_ statement _} allows mem := by
    refine ⟨closed.child allows (Node.inner_mem ?_), rfl⟩
    cases statement with
    | block body => cases mem
    | _ => exact mem
  unchanged _ _ := rfl
  returns _ := trivial
  first allows := allows _ (.head _)
  rest allows statement mem := allows statement (.tail _ mem)
  returns_after _ := trivial
  define _ _ _ _ _ := ⟨⟨trivial, trivial⟩, trivial⟩
  block allows :=
    ⟨(), fun _ mem => closed.child allows (Node.inner_mem mem),
      fun _ => trivial, fun _ _ _ _ => ⟨⟨trivial, trivial⟩, trivial⟩⟩
  function allows _ := closed.child allows (Node.function_mem (.head _))
  method allows _ _ mem _ := closed.child allows (Node.function_mem mem)
  call callable _ _ :=
    ⟨(), fun _ mem => closed.child callable (List.mem_map_of_mem mem), ⟨trivial, trivial⟩, trivial⟩
  bind bindable _ _ := ⟨⟨trivial, trivial⟩, bindable⟩

theorem keeps_running {machine : Machine} (held : ∀ node, machine.HoldsNode node → code node) :
    (running code machine.distances machine.globals).Keeps machine := by
  have sound (value : Value) (holds : machine.Holds value) :
      (running code machine.distances machine.globals).Sound machine value := by
    have methods {origin : Class} (reached : origin.closures ⊆ value.closures) :
        (running code machine.distances machine.globals).SoundClass machine.store origin :=
      ⟨trivial, fun layer mem entry method => held _ ⟨value, holds, entry.2, reached
        (List.mem_flatMap.mpr ⟨layer, mem, List.mem_map_of_mem method⟩), .here⟩⟩
    cases value with
    | function identity closure => exact held _ ⟨_, holds, closure, .head _, .here⟩
    | classValue value => exact methods (List.Subset.refl _)
    | object identity origin => exact ⟨False.elim, methods (List.Subset.refl _)⟩
    | _ => trivial
  exact ⟨rfl, rfl, trivial, fun _ _ value bound => sound value (.bound bound),
    fun _ mem _ value bound => sound value (.field mem bound)⟩

end Discipline

namespace Program

variable {program : Program} {machine : Machine} {fuel : Nat}

/-- The code of a program is closed under its parts. -/
theorem closed_code (shaped : Node.Everywhere Node.Shaped (program.map .stmt))
    (held : ∀ node, machine.HoldsNode node → node.Shaped) :
    Node.Closed (program.Code machine) where
  child {_ _} reached mem := by
    rcases reached with ⟨statement, inside, occurs⟩ | ⟨value, holds, closure, inside, occurs⟩
    · exact .inl ⟨statement, inside, occurs.child mem⟩
    · exact .inr ⟨value, holds, closure, inside, occurs.child mem⟩
  shaped reached := by
    rcases reached with ⟨statement, inside, occurs⟩ | holds
    · exact shaped _ (List.mem_map_of_mem inside) _ occurs
    · exact held _ holds

/-- A fault of a program is known for a node of its code. -/
theorem known_of_fault (closed : Node.Closed (program.Code machine)) {fault : Fault}
    {token : Token} {later : Machine}
    (ended : Run.executeProgram .recorded fuel program machine =
      .error (.fault fault token) later) :
    fault.Known (program.Code machine) token := by
  have allows : ∀ statement ∈ program, program.Code machine (.stmt statement) :=
    fun statement mem => .inl ⟨statement, mem, .here⟩
  have stands : (Discipline.running (program.Code machine) machine.distances machine.globals).Stands
      machine.store machine.current () := trivial
  have ends :=
    ((Discipline.lawful_running closed _ _).executeProgram fuel
      (fun _ _ _ _ _ _ => trivial)
    (Discipline.keeps_running fun _ => .inr) stands allows).ends
  rw [ended] at ends
  exact ends.2

/-- A run that stops with an error has met a fault. -/
theorem fault_of_interpret {error : RuntimeError}
    (stopped : (machine.interpret fuel program).1 = .failed (.runtime error)) :
    ∃ fault token later, error = fault.report token ∧
      Run.executeProgram .recorded fuel program machine = .error (.fault fault token) later := by
  have flushed {later : Machine} {outcome : Outcome}
      (ended : (later.flushThen outcome).1 = .failed (.runtime error)) :
      outcome = .failed (.runtime error) := by
    unfold Machine.flushThen at ended
    split at ended
    · exact ended
    · cases ended
    · exact ended
  rw [Machine.interpret, Machine.interpretWith_eq_conclude] at stopped
  cases ran : Run.executeProgram .recorded fuel program machine with
  | ok _ later =>
    rw [ran] at stopped
    cases flushed stopped
  | error signal later =>
    rw [ran] at stopped
    cases signal with
    | fault fault token =>
      cases flushed stopped
      exact ⟨fault, token, later, rfl, rfl⟩
    | returned value => cases flushed stopped
    | stream error | exhausted => cases stopped

end Program

/--
All nodes of an accepted program have their shapes.  So on a machine whose
functions consist of such nodes, whatever its distances and its scopes, no run
meets an unknown operator, and a superclass that is no class is reported where
the class that is being declared names it.
-/
theorem accepted_programs_meet_no_unknown_operator {stream : TokenStream} {firstId : ExprId}
    {program : Program} (accepted : (parse stream firstId).result = .ok program) :
    (∀ statement ∈ program, ∀ node : Node, node.Occurs (.stmt statement) → node.Shaped) ∧
    ∀ machine : Machine, (∀ node, machine.HoldsNode node → node.Shaped) → ∀ fuel : Nat,
      (∀ fault token later,
        Run.executeProgram .recorded fuel program machine = .error (.fault fault token) later →
          fault.Known (program.Code machine) token) ∧
      (∀ name superclass methods,
        program.Code machine (.stmt (.classDecl name (some superclass) methods)) →
        ∀ before token later,
          Run.executeWith .recorded fuel (.classDecl name (some superclass) methods) before =
            .error (.fault .superclassNotClass token) later →
          ∃ id, superclass = .name id token) ∧
      ∀ error, (machine.interpret fuel program).1 = .failed (.runtime error) →
        error.message ≠ "Unknown binary operator." ∧
        ∃ (fault : Fault) (token : Token), error = fault.report token ∧
          fault.Known (program.Code machine) token := by
  have shaped : Node.Everywhere Node.Shaped (program.map .stmt) := fun node mem inner occurs =>
    ((Grammar.derives_of_parse_ok accepted).grown
      fun _ _ => trivial).1 node mem inner occurs |>.shaped
  refine ⟨fun statement mem => shaped _ (List.mem_map_of_mem mem), ?_⟩
  intro machine held fuel
  have closed := Program.closed_code shaped held
  refine ⟨fun _ _ _ ended => Program.known_of_fault closed ended, ?_, ?_⟩
  · intro name superclass methods inside before token later ended
    rcases closed.shaped inside superclass (.head _) with ⟨id, named, rfl⟩
    exact ⟨id, congrArg _ (Run.token_of_superclassNotClass ended).symm⟩
  · intro error stopped
    rcases Program.fault_of_interpret stopped with ⟨fault, token, later, rfl, ended⟩
    have known := Program.known_of_fault closed ended
    exact ⟨fun same => known.1 (Fault.eq_of_message same), fault, token, rfl, known⟩

/-- A class extends a function that the program declares before it. -/
theorem function_as_superclass_is_blamed :
    let mark (mark : Punctuator) : Token := ⟨.punctuator mark, "", 1⟩
    let name (text : String) : Token := ⟨.identifier, text, 1⟩
    let stream : TokenStream := ⟨[⟨.keyword .funWord, "fun", 1⟩, name "f", mark .leftParen,
      mark .rightParen, mark .leftBrace, mark .rightBrace, ⟨.keyword .classWord, "class", 1⟩,
      name "A", mark .less, name "f", mark .leftBrace, mark .rightBrace], ⟨.endOfText, "", 1⟩⟩
    let program : Program := [.funDecl (.mk (name "f") [] []),
      .classDecl (name "A") (some (.name 0 (name "f"))) []]
    let machine := Machine.initial (fun _ => 0) .unlimited
    (parse stream 0).result = .ok program ∧ (∀ node, machine.HoldsNode node → node.Shaped) ∧
      Fault.superclassNotClass.Known (program.Code machine) (name "f") := by
  intro mark name stream program machine
  have accepted : (parse stream 0).result = .ok program := by cbv
  have held : ∀ node, machine.HoldsNode node → node.Shaped := by
    rintro node ⟨value, holds, closure, mem, _⟩
    cases holds with
    | bound bound =>
      cases (Machine.bound_initial _ _ bound).2
      cases mem
    | field inside => cases Array.not_mem_empty _ inside
  exact ⟨accepted, held,
    ((accepted_programs_meet_no_unknown_operator accepted).2 machine held 2).1 _ _ _ rfl⟩

end Treewalk
