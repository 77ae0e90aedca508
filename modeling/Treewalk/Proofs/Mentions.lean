import Treewalk.Proofs.Analysis

/-!
# What a program mentions

A program mentions names where it declares them and where it reads or assigns
to them.  Names are unambiguous if each one that is declared in a local scope
is declared at one place of the whole program, has a distance wherever it
occurs, and is not assigned to by its own initial value.
-/

namespace Treewalk

open Scoping List

/-- A place of a program where a name stands for a variable. -/
inductive Mention where
  /-- A variable is declared, inside a number of local scopes. -/
  | declares (name : Token) (depth : Nat) (initial : Option Expr)
  | reads (id : ExprId) (name : Token)
  | assigns (id : ExprId) (name : Token)

namespace Expr

mutual

/-- The names that an expression mentions. -/
def mentions : Expr → List Mention
  | literal _ => []
  | grouping inner => inner.mentions
  | unary _ operand => operand.mentions
  | binary left _ right => left.mentions ++ right.mentions
  | logical left _ right => left.mentions ++ right.mentions
  | name id token => [.reads id token]
  | receiver _ _ => []
  | assign id target value => value.mentions ++ [.assigns id target]
  | call callee _ arguments => callee.mentions ++ mentionsAll arguments
  | get object _ => object.mentions
  | set object _ value => object.mentions ++ value.mentions

def mentionsAll : List Expr → List Mention
  | [] => []
  | value :: values => value.mentions ++ mentionsAll values

end

def mentionsOption : Option Expr → List Mention
  | none => []
  | some value => value.mentions

end Expr

mutual

/-- The names that a function mentions, inside a number of local scopes. -/
def FunctionDecl.mentions (depth : Nat) : FunctionDecl → List Mention
  | .mk _ parameters body =>
    parameters.map (Mention.declares · (depth + 1) none) ++ Stmt.mentionsAll (depth + 1) body

def FunctionDecl.mentionsAll (depth : Nat) :
    List FunctionDecl → List Mention
  | [] => []
  | declaration :: declarations =>
    declaration.mentions depth ++ FunctionDecl.mentionsAll depth declarations

/-- The names that a statement mentions, inside a number of local scopes. -/
def Stmt.mentions (depth : Nat) : Stmt → List Mention
  | .expression value => value.mentions
  | .print value => value.mentions
  | .varDecl name initial =>
    .declares name depth initial :: Expr.mentionsOption initial
  | .block body => Stmt.mentionsAll (depth + 1) body
  | .ifElse condition yes none => condition.mentions ++ yes.mentions depth
  | .ifElse condition yes (some no) =>
    condition.mentions ++ yes.mentions depth ++ no.mentions depth
  | .whileLoop condition body => condition.mentions ++ body.mentions depth
  | .funDecl declaration =>
    .declares declaration.name depth none :: declaration.mentions depth
  | .returnValue _ value => Expr.mentionsOption value
  | .classDecl name superclass methods =>
    .declares name depth none :: (Expr.mentionsOption superclass ++
      FunctionDecl.mentionsAll (depth + 1) methods)

def Stmt.mentionsAll (depth : Nat) : List Stmt → List Mention
  | [] => []
  | statement :: statements =>
    statement.mentions depth ++ Stmt.mentionsAll depth statements

end

namespace Mention

/-- The declared name, with the number of local scopes around it. -/
def declaration? : Mention → Option (String × Nat)
  | declares name depth _ => some (name.lexeme, depth)
  | _ => none

/-- The occurrence of a name that is read or assigned to. -/
def occurrence? : Mention → Option (ExprId × String)
  | declares _ _ _ => none
  | reads id name => some (id, name.lexeme)
  | assigns id name => some (id, name.lexeme)

/-- The name that is assigned to. -/
def assigned? : Mention → Option String
  | assigns _ name => some name.lexeme
  | _ => none

/-- The name of a local variable, with its initial value. -/
def initializer? : Mention → Option (String × Expr)
  | declares name (_ + 1) (some initial) => some (name.lexeme, initial)
  | _ => none

end Mention

/-- The names that an expression assigns to. -/
def Expr.assigned (value : Expr) : List String :=
  value.mentions.filterMap Mention.assigned?

namespace Program

variable (program : Program)

/-- The names that a program mentions. -/
def mentions : List Mention :=
  Stmt.mentionsAll 0 program

/-- All declarations of a program, with the local scopes around them. -/
def declarations : List (String × Nat) :=
  program.mentions.filterMap Mention.declaration?

/-- The names that are declared in local scopes. -/
def localNames : List String :=
  (program.declarations.filter fun declaration => 0 < declaration.2).map Prod.fst

/-- All occurrences of names in a program. -/
def occurrences : List (ExprId × String) :=
  program.mentions.filterMap Mention.occurrence?

/-- The initial values of local variables. -/
def localInitializers : List (String × Expr) :=
  program.mentions.filterMap Mention.initializer?

/--
Names of local scopes are declared once in the whole program, have distances
wherever they occur, and are not assigned to by their own initial values.
-/
structure Unambiguous : Prop where
  once : ∀ name ∈ program.localNames, (program.declarations.map Prod.fst).count name = 1
  placed : ∀ occurrence ∈ program.occurrences, occurrence.2 ∈ program.localNames →
      occurrence.1 ∈ (analyse program).distances.map Prod.fst
  initial : ∀ initializer ∈ program.localInitializers, initializer.1 ∉ initializer.2.assigned

instance : Decidable program.Unambiguous :=
  decidable_of_iff
    ((∀ name ∈ program.localNames, (program.declarations.map Prod.fst).count name = 1) ∧
      (∀ occurrence ∈ program.occurrences, occurrence.2 ∈ program.localNames →
          occurrence.1 ∈ (analyse program).distances.map Prod.fst) ∧
      ∀ initializer ∈ program.localInitializers, initializer.1 ∉ initializer.2.assigned)
    ⟨fun ⟨once, placed, initial⟩ => ⟨once, placed, initial⟩, fun unambiguous =>
        ⟨unambiguous.once, unambiguous.placed, unambiguous.initial⟩⟩

/-- The number of local scopes around the first declaration of a name. -/
def level (name : String) : Nat :=
  (program.declarations.lookup name).getD 0

end Program

variable {program : Program} {name : String} {depth : Nat}

/-! ## Levels of names -/

theorem lookup_of_count_eq_one {entries : List (String × Nat)}
    (once : (entries.map Prod.fst).count name = 1) (mem : (name, depth) ∈ entries) :
    entries.lookup name = some depth := by
  rcases append_of_mem mem with ⟨before, after, rfl⟩
  refine lookup_eq_some_iff.mpr ⟨before, after, rfl, ?_⟩
  intro entry earlier
  rw [map_append, map_cons, count_append, count_cons_self] at once
  have absent : (before.map Prod.fst).count name = 0 := by omega
  have differs : entry.1 ≠ name := by
    intro same
    exact count_eq_zero.mp absent (same ▸ mem_map_of_mem (f := Prod.fst) earlier)
  simpa using differs.symm

namespace Program

theorem mem_localNames (mem : (name, depth) ∈ program.declarations) (inner : 0 < depth) :
    name ∈ program.localNames := by
  refine mem_map.mpr ⟨(name, depth), ?_, rfl⟩
  exact mem_filter.mpr ⟨mem, decide_eq_true inner⟩

/-- The level of a local name is the depth of its one declaration. -/
theorem Unambiguous.level_eq (unambiguous : program.Unambiguous)
    (mem : (name, depth) ∈ program.declarations) (inner : 0 < depth) :
    program.level name = depth := by
  unfold level
  rw [lookup_of_count_eq_one (unambiguous.once name (mem_localNames mem inner)) mem]
  rfl

/-- All other names are on the outermost level. -/
theorem level_eq_zero (undeclared : name ∉ program.localNames) : program.level name = 0 := by
  unfold level
  cases found : program.declarations.lookup name with
  | none => rfl
  | some depth =>
    rcases lookup_eq_some_iff.mp found with ⟨before, after, split, _⟩
    have mem : (name, depth) ∈ program.declarations := by
      rw [split]
      simp
    refine Nat.eq_zero_of_not_pos ?_
    intro inner
    exact undeclared (mem_localNames mem inner)

end Program

/--
A mention is clear if it does not declare the receiver, local declarations
stand at the level of their name and do not assign to it themselves, and
occurrences without a distance are of names without a level.
-/
def Mention.Clear (level : String → Nat) (distances : Distances) :
    Mention → Prop
  | declares name depth initial =>
    name.lexeme ≠ "this" ∧
      (0 < depth → level name.lexeme = depth ∧
        ∀ value, initial = some value → name.lexeme ∉ value.assigned)
  | reads id name => distances.find? id = none → level name.lexeme = 0
  | assigns id name => distances.find? id = none → level name.lexeme = 0

/-- All mentions in an unambiguous program are clear. -/
theorem Program.Unambiguous.clear (unambiguous : program.Unambiguous) {distances : Distances}
    (recorded : ∀ id ∈ (analyse program).distances.map Prod.fst, distances.find? id ≠ none)
    (named : ∀ name depth initial, .declares name depth initial ∈ program.mentions →
        name.lexeme ≠ "this") :
    ∀ mention ∈ program.mentions, mention.Clear program.level distances := by
  have occurs {id : ExprId} {name : Token} (mem : (id, name.lexeme) ∈ program.occurrences)
      (absent : distances.find? id = none) : program.level name.lexeme = 0 := by
    refine level_eq_zero ?_
    intro declared
    exact recorded id (unambiguous.placed _ mem declared) absent
  intro mention mem
  cases mention with
  | reads id name | assigns id name => exact occurs (mem_filterMap.mpr ⟨_, mem, rfl⟩)
  | declares name depth initial =>
    refine ⟨named name depth initial mem, ?_⟩
    intro inner
    refine ⟨unambiguous.level_eq (mem_filterMap.mpr ⟨_, mem, rfl⟩) inner, ?_⟩
    rintro value rfl
    cases depth with
    | zero => exact absurd inner (Nat.lt_irrefl 0)
    | succ depth =>
      exact unambiguous.initial (name.lexeme, value) (mem_filterMap.mpr ⟨_, mem, rfl⟩)

/-! ## Declared names are identifiers -/

namespace Mention

/-- What is declared is not the receiver. -/
def Proper : Mention → Prop
  | declares name _ _ => name.lexeme ≠ "this"
  | _ => True

end Mention

mutual

/-- Expressions declare nothing. -/
theorem Expr.mentions_proper : ∀ value : Expr, ∀ mention ∈ value.mentions, mention.Proper
  | .literal _ | .receiver _ _ => forall_mem_nil _
  | .grouping inner | .unary _ inner | .get inner _ => inner.mentions_proper
  | .binary left _ right | .logical left _ right | .set left _ right =>
    forall_mem_append.mpr ⟨left.mentions_proper, right.mentions_proper⟩
  | .name _ _ => forall_mem_singleton.mpr trivial
  | .assign _ _ value =>
    forall_mem_append.mpr ⟨value.mentions_proper, forall_mem_singleton.mpr trivial⟩
  | .call callee _ args =>
    forall_mem_append.mpr ⟨callee.mentions_proper, Expr.mentionsAll_proper args⟩

theorem Expr.mentionsAll_proper :
    ∀ values : List Expr, ∀ mention ∈ Expr.mentionsAll values, mention.Proper
  | [] => forall_mem_nil _
  | value :: values =>
    forall_mem_append.mpr ⟨value.mentions_proper, Expr.mentionsAll_proper values⟩

end

theorem Expr.mentionsOption_proper (value : Option Expr) :
    ∀ mention ∈ Expr.mentionsOption value, mention.Proper := by
  cases value with
  | none => exact forall_mem_nil _
  | some value => exact value.mentions_proper

mutual

theorem FunctionDecl.mentions_proper (depth : Nat) : ∀ decl : FunctionDecl,
    Node.Formed [.function decl] → ∀ mention ∈ decl.mentions depth, mention.Proper
  | .mk _ _ body, formed => forall_mem_append.mpr
    ⟨forall_mem_map.mpr fun name mem => (formed.here.2.1 name mem).lexeme,
      Stmt.mentionsAll_proper (depth + 1) body formed.below⟩

theorem FunctionDecl.mentionsAll_proper (depth : Nat) : ∀ decls : List FunctionDecl,
    Node.Formed (decls.map .function) →
      ∀ mention ∈ FunctionDecl.mentionsAll depth decls, mention.Proper
  | [], _ => forall_mem_nil _
  | decl :: decls, formed => forall_mem_append.mpr
    ⟨decl.mentions_proper depth formed.head,
      FunctionDecl.mentionsAll_proper depth decls formed.tail⟩

/-- Variables, parameters, functions and classes are declared by identifiers. -/
theorem Stmt.mentions_proper (depth : Nat) : ∀ stmt : Stmt,
    Node.Formed [.stmt stmt] → ∀ mention ∈ stmt.mentions depth, mention.Proper
  | .expression value, _ | .print value, _ => value.mentions_proper
  | .varDecl _ initial, formed =>
    forall_mem_cons.mpr ⟨formed.here.lexeme, Expr.mentionsOption_proper initial⟩
  | .block body, formed => Stmt.mentionsAll_proper (depth + 1) body formed.inner
  | .ifElse cond yes none, formed | .whileLoop cond yes, formed => forall_mem_append.mpr
    ⟨cond.mentions_proper, yes.mentions_proper depth formed.inner⟩
  | .ifElse cond yes (some no), formed => forall_mem_append.mpr
    ⟨forall_mem_append.mpr ⟨cond.mentions_proper, yes.mentions_proper depth formed.inner.head⟩,
      no.mentions_proper depth formed.inner.tail⟩
  | .funDecl decl, formed => forall_mem_cons.mpr
    ⟨formed.functions.here.1.lexeme, decl.mentions_proper depth formed.functions⟩
  | .returnValue _ value, _ => Expr.mentionsOption_proper value
  | .classDecl _ superclass methods, formed => forall_mem_cons.mpr
    ⟨formed.here.1.lexeme, forall_mem_append.mpr ⟨Expr.mentionsOption_proper superclass,
      FunctionDecl.mentionsAll_proper (depth + 1) methods formed.functions⟩⟩

theorem Stmt.mentionsAll_proper (depth : Nat) : ∀ stmts : List Stmt,
    Node.Formed (stmts.map .stmt) → ∀ mention ∈ Stmt.mentionsAll depth stmts, mention.Proper
  | [], _ => forall_mem_nil _
  | stmt :: stmts, formed => forall_mem_append.mpr
    ⟨stmt.mentions_proper depth formed.head, Stmt.mentionsAll_proper depth stmts formed.tail⟩

end

theorem declaresNames_of_readProgram {text : String} {firstId nextId : ExprId}
    (accepted : readProgram text firstId = (.ok program, nextId)) (name : Token) (depth : Nat)
    (initial : Option Expr) (mem : .declares name depth initial ∈ program.mentions) :
    name.lexeme ≠ "this" :=
  Stmt.mentionsAll_proper 0 program (formed_of_readProgram accepted) _ mem

end Treewalk
