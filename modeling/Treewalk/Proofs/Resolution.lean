import Treewalk.Scoping

/-!
# Resolved trees

A tree is resolved in a context if the distance recorded for every occurrence
of a name in it is the one that the context gives, and every name that is read
may be read there.  What is recorded later, for ids that were not in use, does
not touch a resolved tree.
-/

namespace Treewalk

open Scoping

/-- The distances recorded so far; ids from the bound on are not in use. -/
structure Ledger where
  distances : Distances
  bound : ExprId

variable {ctx : Context} {ledger later : Ledger}

namespace Ledger

/-- The recorded distance of an occurrence is the one its context gives. -/
def Places (ledger : Ledger) (context : Context) (id : ExprId) (name : String) : Prop :=
  id < ledger.bound ∧ ledger.distances.find? id = context.distance? name

/-- A later ledger says the same of all ids in use. -/
structure Extends (ledger later : Ledger) : Prop where
  bound_le : ledger.bound ≤ later.bound
  same : ∀ id, id < ledger.bound → later.distances.find? id = ledger.distances.find? id

theorem Extends.refl (ledger : Ledger) : ledger.Extends ledger :=
  ⟨Nat.le_refl _, fun _ _ => rfl⟩

/-- An occurrence stays where it was placed. -/
theorem Places.extend {id : ExprId} {name : String} (places : ledger.Places ctx id name)
    (extended : ledger.Extends later) : later.Places ctx id name :=
  ⟨Nat.lt_of_lt_of_le places.1 extended.bound_le, (extended.same id places.1).trans places.2⟩

end Ledger

namespace Scoping.Context

/-- Inside a class, after its name. -/
def named (context : Context) (name : Token) : Context :=
  { context.define name with inClass := true }

/-- The scope that a name is found in allows it to be read. -/
def Readable (context : Context) (name : String) : Prop :=
  ∀ distance, context.distance? name = some distance →
    ∃ scope, context.scopes[distance]? = some scope ∧ scope.lookup name = some true

/-- All declared names may be read. -/
def Settled (context : Context) : Prop :=
  ∀ scope ∈ context.scopes, ∀ name, scope.lookup name ≠ some false

/-- Only names of the innermost scope, and not the receiver, may be awaited. -/
structure Steady (context : Context) : Prop where
  outer : ∀ scope ∈ context.scopes.tail, ∀ name, scope.lookup name ≠ some false
  receiver : context.awaits "this" = false

end Scoping.Context

/-! ## Resolved expressions and statements -/

namespace Expr

section

variable (ledger : Ledger) (context : Context)

mutual

/-- The occurrences in an expression are recorded as a context says. -/
def Resolved : Expr → Prop
  | literal _ => True
  | unary _ operand => Resolved operand
  | binary left _ right => Resolved left ∧ Resolved right
  | grouping inner => Resolved inner
  | name id token =>
    ledger.Places context id token.lexeme ∧ context.Readable token.lexeme
  | assign id target value =>
    Resolved value ∧ ledger.Places context id target.lexeme
  | logical left _ right => Resolved left ∧ Resolved right
  | call callee _ arguments => Resolved callee ∧ AllResolved arguments
  | get object _ => Resolved object
  | set object _ value => Resolved object ∧ Resolved value
  | receiver id keyword =>
    ledger.Places context id keyword.lexeme ∧
      context.Readable keyword.lexeme ∧ keyword.lexeme = "this"

def AllResolved : List Expr → Prop
  | [] => True
  | value :: values => Resolved value ∧ AllResolved values

end

def OptionResolved : Option Expr → Prop
  | none => True
  | some value => value.Resolved ledger context

end

theorem AllResolved.of_mem {values : List Expr}
    (resolved : AllResolved ledger ctx values) {value : Expr}
    (mem : value ∈ values) : value.Resolved ledger ctx := by
  induction values with
  | nil => cases mem
  | cons first others ih =>
    rcases List.mem_cons.mp mem with rfl | mem
    · exact resolved.1
    · exact ih resolved.2 mem

section

variable (extended : ledger.Extends later)

include extended

set_option linter.unusedSectionVars false in
mutual

/-- Resolved expressions stay so in later ledgers. -/
theorem Resolved.extend :
    ∀ value : Expr, value.Resolved ledger ctx → value.Resolved later ctx
  | literal _, _ => trivial
  | unary _ operand, resolved | grouping operand, resolved | get operand _, resolved =>
    Resolved.extend operand resolved
  | binary left _ right, resolved | logical left _ right, resolved | set left _ right, resolved =>
    ⟨Resolved.extend left resolved.1, Resolved.extend right resolved.2⟩
  | name _ _, resolved | receiver _ _, resolved => ⟨resolved.1.extend extended, resolved.2⟩
  | assign _ _ value, resolved =>
    ⟨Resolved.extend value resolved.1, resolved.2.extend extended⟩
  | call callee _ args, resolved =>
    ⟨Resolved.extend callee resolved.1, AllResolved.extend args resolved.2⟩

theorem AllResolved.extend :
    ∀ values : List Expr, AllResolved ledger ctx values → AllResolved later ctx values
  | [], _ => trivial
  | value :: values, resolved =>
    ⟨Resolved.extend value resolved.1, AllResolved.extend values resolved.2⟩

end

theorem OptionResolved.extend :
    ∀ value : Option Expr, OptionResolved ledger ctx value → OptionResolved later ctx value
  | none, _ => trivial
  | some value, resolved => Resolved.extend extended value resolved

end

end Expr

section

variable (ledger : Ledger)

mutual

/-- The body of a function is resolved after its parameters. -/
def FunctionDecl.Resolved (context : Context) : FunctionDecl → Prop
  | .mk _ parameters body =>
    Stmt.AllResolved (context.inBody parameters) body

def FunctionDecl.AllResolved (context : Context) : List FunctionDecl → Prop
  | [] => True
  | declaration :: declarations =>
    declaration.Resolved context ∧ FunctionDecl.AllResolved context declarations

/--
The occurrences in a statement are recorded as a context says, branches and
loop bodies declare nothing around them, and only functions return.  It makes
no difference to a superclass whether it is looked up before or after the name
of its class.
-/
def Stmt.Resolved (context : Context) : Stmt → Prop
  | .expression value => value.Resolved ledger context
  | .print value => value.Resolved ledger context
  | .varDecl name initial =>
    Expr.OptionResolved ledger (context.declare name) initial
  | .block body => Stmt.AllResolved (context.enter []) body
  | .ifElse condition yes none =>
    condition.Resolved ledger context ∧ yes.Resolved context ∧ context.after yes = context
  | .ifElse condition yes (some no) =>
    condition.Resolved ledger context ∧ yes.Resolved context ∧
      context.after yes = context ∧ no.Resolved context ∧ context.after no = context
  | .whileLoop condition body =>
    condition.Resolved ledger context ∧ body.Resolved context ∧ context.after body = context
  | .funDecl declaration =>
    declaration.Resolved (context.define declaration.name)
  | .returnValue _ value =>
    context.inFunction = true ∧ Expr.OptionResolved ledger context value
  | .classDecl name superclass methods =>
    Expr.OptionResolved ledger context superclass ∧
      Expr.OptionResolved ledger (context.named name) superclass ∧ FunctionDecl.AllResolved
        ((context.named name).enter [("this", true)]) methods

/-- The statements of a list are resolved, each after those before it. -/
def Stmt.AllResolved (context : Context) : List Stmt → Prop
  | [] => True
  | statement :: statements =>
    statement.Resolved context ∧ Stmt.AllResolved (context.after statement) statements

end

end

theorem FunctionDecl.AllResolved.of_mem {decls : List FunctionDecl}
    (resolved : FunctionDecl.AllResolved ledger ctx decls) {decl : FunctionDecl}
    (mem : decl ∈ decls) : decl.Resolved ledger ctx := by
  induction decls with
  | nil => cases mem
  | cons first others ih =>
    rcases List.mem_cons.mp mem with rfl | mem
    · exact resolved.1
    · exact ih resolved.2 mem

section

variable (extended : ledger.Extends later)

include extended

set_option linter.unusedSectionVars false in
mutual

theorem FunctionDecl.Resolved.extend :
    ∀ (ctx : Context) (decl : FunctionDecl), decl.Resolved ledger ctx → decl.Resolved later ctx
  | ctx, .mk _ params body, resolved =>
    Stmt.AllResolved.extend (ctx.inBody params) body resolved

theorem FunctionDecl.AllResolved.extend :
    ∀ (ctx : Context) (decls : List FunctionDecl), FunctionDecl.AllResolved ledger ctx decls →
        FunctionDecl.AllResolved later ctx decls
  | _, [], _ => trivial
  | ctx, decl :: decls, resolved =>
    ⟨FunctionDecl.Resolved.extend ctx decl resolved.1,
      FunctionDecl.AllResolved.extend ctx decls resolved.2⟩

/-- Resolved statements stay so in later ledgers. -/
theorem Stmt.Resolved.extend : ∀ (ctx : Context) (stmt : Stmt),
      stmt.Resolved ledger ctx → stmt.Resolved later ctx
  | _, .expression value, resolved | _, .print value, resolved =>
    Expr.Resolved.extend extended value resolved
  | _, .varDecl _ initial, resolved => Expr.OptionResolved.extend extended initial resolved
  | ctx, .block body, resolved => Stmt.AllResolved.extend (ctx.enter []) body resolved
  | ctx, .ifElse cond yes none, resolved | ctx, .whileLoop cond yes, resolved =>
    ⟨Expr.Resolved.extend extended cond resolved.1,
      Stmt.Resolved.extend ctx yes resolved.2.1, resolved.2.2⟩
  | ctx, .ifElse cond yes (some no), resolved =>
    ⟨Expr.Resolved.extend extended cond resolved.1,
      Stmt.Resolved.extend ctx yes resolved.2.1, resolved.2.2.1,
      Stmt.Resolved.extend ctx no resolved.2.2.2.1, resolved.2.2.2.2⟩
  | ctx, .funDecl decl, resolved =>
    FunctionDecl.Resolved.extend (ctx.define decl.name) decl resolved
  | _, .returnValue _ value, resolved =>
    ⟨resolved.1, Expr.OptionResolved.extend extended value resolved.2⟩
  | ctx, .classDecl name superclass methods, resolved =>
    ⟨Expr.OptionResolved.extend extended superclass resolved.1,
      Expr.OptionResolved.extend extended superclass resolved.2.1,
      FunctionDecl.AllResolved.extend
        ((ctx.named name).enter [("this", true)]) methods resolved.2.2⟩

theorem Stmt.AllResolved.extend :
    ∀ (ctx : Context) (stmts : List Stmt), Stmt.AllResolved ledger ctx stmts →
        Stmt.AllResolved later ctx stmts
  | _, [], _ => trivial
  | ctx, stmt :: stmts, resolved =>
    ⟨Stmt.Resolved.extend ctx stmt resolved.1,
      Stmt.AllResolved.extend (ctx.after stmt) stmts resolved.2⟩

end

end

end Treewalk
