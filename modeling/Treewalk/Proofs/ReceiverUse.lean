import Treewalk.Proofs.LexicalDistances

/-!
# Where programs use receivers

The word for the receiver is reserved: no variable, parameter, function or
class is declared by it, and nothing is assigned to it.  A program that keeps
the scope rules uses the receiver only inside methods.
-/

namespace Treewalk

open Scoping List

namespace Expr

variable (received : Bool)

mutual

/--
Nothing is assigned to the receiver, and the receiver is used only where there
is one.
-/
def Proper : Expr → Prop
  | literal _ => True
  | grouping inner => Proper inner
  | unary _ operand => Proper operand
  | binary left _ right => Proper left ∧ Proper right
  | logical left _ right => Proper left ∧ Proper right
  | name _ _ => True
  | receiver _ _ => received = true
  | assign _ target value => target.lexeme ≠ "this" ∧ Proper value
  | call callee _ arguments => Proper callee ∧ AllProper arguments
  | get object _ => Proper object
  | set object _ value => Proper object ∧ Proper value

def AllProper : List Expr → Prop
  | [] => True
  | value :: values => Proper value ∧ AllProper values

end

def OptionProper : Option Expr → Prop
  | none => True
  | some value => value.Proper received

end Expr

mutual

/-- No parameter is the receiver, and the body is proper. -/
def FunctionDecl.Proper (received : Bool) : FunctionDecl → Prop
  | .mk _ parameters body =>
    (∀ parameter ∈ parameters, parameter.lexeme ≠ "this") ∧ Stmt.AllProper received body

def FunctionDecl.AllProper (received : Bool) : List FunctionDecl → Prop
  | [] => True
  | declaration :: declarations =>
    declaration.Proper received ∧ FunctionDecl.AllProper received declarations

/--
A statement declares no receiver and uses one only where there is one.  The
methods of a class have one; what stands for the superclass uses none.
-/
def Stmt.Proper (received : Bool) : Stmt → Prop
  | .expression value => value.Proper received
  | .print value => value.Proper received
  | .varDecl name initial =>
    name.lexeme ≠ "this" ∧ Expr.OptionProper received initial
  | .block body => Stmt.AllProper received body
  | .ifElse condition yes none =>
    condition.Proper received ∧ yes.Proper received
  | .ifElse condition yes (some no) =>
    condition.Proper received ∧ yes.Proper received ∧ no.Proper received
  | .whileLoop condition body =>
    condition.Proper received ∧ body.Proper received
  | .funDecl declaration =>
    declaration.name.lexeme ≠ "this" ∧ declaration.Proper received
  | .returnValue _ value => Expr.OptionProper received value
  | .classDecl name superclass methods =>
    name.lexeme ≠ "this" ∧ (∀ inside, Expr.OptionProper inside superclass) ∧
      FunctionDecl.AllProper true methods

def Stmt.AllProper (received : Bool) : List Stmt → Prop
  | [] => True
  | statement :: statements =>
    statement.Proper received ∧ Stmt.AllProper received statements

end

/-! ## Receivers are used inside classes -/

mutual

/-- An expression without scope errors is proper. -/
theorem Expr.proper_of_clean {ctx : Context} : ∀ value : Expr,
    Node.Formed [.expr value] → (ofExpr ctx value).errors = [] → value.Proper ctx.inClass
  | .literal _, _, _ => trivial
  | .grouping inner, formed, clean | .unary _ inner, formed, clean | .get inner _, formed, clean =>
    inner.proper_of_clean formed.below clean
  | .binary left _ right, formed, clean | .logical left _ right, formed, clean
  | .set left _ right, formed, clean => by
    rcases append_eq_nil_iff.mp clean with ⟨first, second⟩
    exact ⟨left.proper_of_clean formed.below.head first,
      right.proper_of_clean formed.below.tail second⟩
  | .name _ _, _, _ => trivial
  | .receiver _ _, _, clean => by
    unfold ofExpr at clean
    split at clean
    · next inside => exact inside
    · cases clean
  | .assign _ _ value, formed, clean =>
    ⟨formed.here.lexeme, value.proper_of_clean formed.below (append_eq_nil_iff.mp clean).1⟩
  | .call callee _ args, formed, clean => by
    rcases append_eq_nil_iff.mp clean with ⟨first, second⟩
    exact ⟨callee.proper_of_clean formed.below.head first,
      Expr.allProper_of_clean args formed.below.tail second⟩

theorem Expr.allProper_of_clean {ctx : Context} :
    ∀ values : List Expr, Node.Formed (values.map .expr) → (ofExprs ctx values).errors = [] →
        Expr.AllProper ctx.inClass values
  | [], _, _ => trivial
  | value :: values, formed, clean => by
    rcases append_eq_nil_iff.mp clean with ⟨first, second⟩
    exact ⟨value.proper_of_clean formed.head first,
      Expr.allProper_of_clean values formed.tail second⟩

end

theorem Expr.optionProper_of_clean {ctx : Context} (value : Option Expr)
    (formed : Node.Formed (value.toList.map .expr)) (clean : (ofOption ctx value).errors = []) :
    Expr.OptionProper ctx.inClass value := by
  cases value with
  | none => trivial
  | some value => exact value.proper_of_clean formed clean

mutual

theorem FunctionDecl.proper_of_clean {ctx : Context} :
    ∀ decl : FunctionDecl, Node.Formed [.function decl] →
      (ofFunction ctx decl).errors = [] → decl.Proper ctx.inClass
  | .mk _ params body, formed, clean => by
    have inside := Stmt.allProper_of_clean body formed.below (append_eq_nil_iff.mp clean).2
    rw [Context.inBody, Context.inClass_foldl_define] at inside
    exact ⟨fun parameter mem => (formed.here.2.1 parameter mem).lexeme, inside⟩

theorem FunctionDecl.allProper_of_clean {ctx : Context} :
    ∀ methods : List FunctionDecl, Node.Formed (methods.map .function) →
      (ofMethods ctx methods).errors = [] → FunctionDecl.AllProper ctx.inClass methods
  | [], _, _ => trivial
  | method :: methods, formed, clean => by
    rcases append_eq_nil_iff.mp clean with ⟨first, second⟩
    exact ⟨method.proper_of_clean formed.head first,
      FunctionDecl.allProper_of_clean methods formed.tail second⟩

/-- A statement without scope errors is proper. -/
theorem Stmt.proper_of_clean {ctx : Context} : ∀ stmt : Stmt,
    Node.Formed [.stmt stmt] → (ofStmt ctx stmt).errors = [] → stmt.Proper ctx.inClass
  | .expression value, formed, clean | .print value, formed, clean =>
    value.proper_of_clean formed.below clean
  | .varDecl name initial, formed, clean => by
    have initially := Expr.optionProper_of_clean initial formed.operands
      (append_eq_nil_iff.mp clean).2
    rw [Context.declare, Context.inClass_mark] at initially
    exact ⟨formed.here.lexeme, initially⟩
  | .block body, formed, clean => by
    have entered : (ofStmts (ctx.enter []) body).errors = [] := clean
    have inside := Stmt.allProper_of_clean body formed.inner entered
    exact inside
  | .ifElse cond yes none, formed, clean | .whileLoop cond yes, formed, clean => by
    rcases append_eq_nil_iff.mp clean with ⟨first, second⟩
    exact ⟨cond.proper_of_clean formed.operands first, yes.proper_of_clean formed.inner second⟩
  | .ifElse cond yes (some no), formed, clean => by
    rcases append_eq_nil_iff.mp clean with ⟨before, third⟩
    rcases append_eq_nil_iff.mp before with ⟨first, second⟩
    have otherwise := no.proper_of_clean formed.inner.tail third
    rw [Context.inClass_after] at otherwise
    exact ⟨cond.proper_of_clean formed.operands first,
      yes.proper_of_clean formed.inner.head second, otherwise⟩
  | .funDecl decl, formed, clean => by
    have inside := decl.proper_of_clean formed.functions (append_eq_nil_iff.mp clean).2
    rw [Context.define, Context.inClass_mark] at inside
    exact ⟨formed.functions.here.1.lexeme, inside⟩
  | .returnValue _ value, formed, clean =>
    Expr.optionProper_of_clean value formed.operands (append_eq_nil_iff.mp clean).2
  | .classDecl _ superclass methods, formed, clean => by
    refine ⟨formed.here.1.lexeme, fun inside => ?_,
      FunctionDecl.allProper_of_clean methods formed.functions
        (append_eq_nil_iff.mp clean).2⟩
    cases superclass with
    | none => trivial
    | some superclass =>
      rcases formed.here.2 _ (.head _) with ⟨id, token, rfl⟩
      trivial

theorem Stmt.allProper_of_clean {ctx : Context} : ∀ stmts : List Stmt,
    Node.Formed (stmts.map .stmt) →
      (ofStmts ctx stmts).errors = [] → Stmt.AllProper ctx.inClass stmts
  | [], _, _ => trivial
  | stmt :: stmts, formed, clean => by
    rcases append_eq_nil_iff.mp clean with ⟨first, others⟩
    have later := Stmt.allProper_of_clean stmts formed.tail others
    rw [Context.inClass_after] at later
    exact ⟨stmt.proper_of_clean formed.head first, later⟩

end

/-- A program that is read and keeps the scope rules is formed. -/
theorem proper_of_readProgram {text : String} {firstId nextId : ExprId} {prog : Program}
    (accepted : readProgram text firstId = (.ok prog, nextId))
    (clean : (analyse prog).errors = []) :
    Stmt.AllProper false prog :=
  Stmt.allProper_of_clean prog (formed_of_readProgram accepted) clean

end Treewalk
