import Mathlib.Logic.Basic
import Treewalk.Proofs.Derivation
import Treewalk.Scoping

/-!
# Relabelled trees

A tree is relabelled by replacing every token by another one of its kind and
shifting all ids.

Scope analysis looks at lexemes only.  Where these are kept, what it finds in
a relabelled tree is what it finds in the tree itself.
-/

namespace Treewalk

/-- Tokens are replaced by tokens of their kind. -/
structure Relabelling where
  token : Token → Token
  kind : ∀ source, (token source).kind = source.kind

namespace Relabelling

instance : CoeFun Relabelling fun _ => Token → Token :=
  ⟨token⟩

/-- All tokens are kept. -/
def identity : Relabelling :=
  ⟨id, fun _ => rfl⟩

theorem map_identity (tokens : List Token) : tokens.map identity = tokens :=
  List.map_id tokens

/-- Lexemes are kept. -/
def KeepsLexemes (change : Relabelling) : Prop :=
  ∀ token, (change token).lexeme = token.lexeme

end Relabelling

/-! ## Trees -/

section

variable (change : Relabelling) (shift : Nat)

namespace Expr

mutual

/-- Replace the tokens of an expression and shift its ids. -/
def relabel : Expr → Expr
  | literal value => literal value
  | unary operator operand => unary (change operator) (relabel operand)
  | binary left operator right => binary (relabel left) (change operator) (relabel right)
  | grouping inner => grouping (relabel inner)
  | name id token => name (id + shift) (change token)
  | assign id target value => assign (id + shift) (change target) (relabel value)
  | logical left operator right => logical (relabel left) (change operator) (relabel right)
  | call callee closing arguments =>
    call (relabel callee) (change closing) (relabelAll arguments)
  | get object property => get (relabel object) (change property)
  | set object property value => set (relabel object) (change property) (relabel value)
  | receiver id keyword => receiver (id + shift) (change keyword)

def relabelAll : List Expr → List Expr
  | [] => []
  | value :: values => relabel value :: relabelAll values

end

end Expr

mutual

/-- Replace the tokens of a function and shift its ids. -/
def FunctionDecl.relabel : FunctionDecl → FunctionDecl
  | .mk name parameters body =>
    .mk (change name) (parameters.map change) (Stmt.relabelAll body)

def FunctionDecl.relabelAll : List FunctionDecl → List FunctionDecl
  | [] => []
  | declaration :: declarations =>
    declaration.relabel :: FunctionDecl.relabelAll declarations

/-- Replace the tokens of a statement and shift its ids. -/
def Stmt.relabel : Stmt → Stmt
  | .expression value => .expression (value.relabel change shift)
  | .print value => .print (value.relabel change shift)
  | .varDecl name initial =>
    .varDecl (change name) (initial.map (Expr.relabel change shift))
  | .block body => .block (Stmt.relabelAll body)
  | .ifElse condition yes none =>
    .ifElse (condition.relabel change shift) yes.relabel none
  | .ifElse condition yes (some no) =>
    .ifElse (condition.relabel change shift) yes.relabel (some no.relabel)
  | .whileLoop condition body =>
    .whileLoop (condition.relabel change shift) body.relabel
  | .funDecl declaration => .funDecl declaration.relabel
  | .returnValue keyword value =>
    .returnValue (change keyword) (value.map (Expr.relabel change shift))
  | .classDecl name superclass methods =>
    .classDecl (change name) (superclass.map (Expr.relabel change shift))
      (FunctionDecl.relabelAll methods)

def Stmt.relabelAll : List Stmt → List Stmt
  | [] => []
  | statement :: statements => statement.relabel :: Stmt.relabelAll statements

end

section

open Relabelling

mutual

theorem Expr.relabel_identity : ∀ value : Expr, value.relabel identity 0 = value
  | .literal _ => rfl
  | .unary op operand => congrArg (Expr.unary op) (Expr.relabel_identity operand)
  | .binary left op right =>
    congrArg₂ (Expr.binary · op ·) (Expr.relabel_identity left) (Expr.relabel_identity right)
  | .grouping inner => congrArg Expr.grouping (Expr.relabel_identity inner)
  | .name _ _ => rfl
  | .assign id target value => congrArg (Expr.assign id target) (Expr.relabel_identity value)
  | .logical left op right =>
    congrArg₂ (Expr.logical · op ·) (Expr.relabel_identity left) (Expr.relabel_identity right)
  | .call callee closing args =>
    congrArg₂ (Expr.call · closing ·) (Expr.relabel_identity callee) (Expr.relabelAll_identity args)
  | .get object property => congrArg (Expr.get · property) (Expr.relabel_identity object)
  | .set object property value =>
    congrArg₂ (Expr.set · property ·) (Expr.relabel_identity object) (Expr.relabel_identity value)
  | .receiver _ _ => rfl

theorem Expr.relabelAll_identity : ∀ values : List Expr, Expr.relabelAll identity 0 values = values
  | [] => rfl
  | value :: values =>
    congrArg₂ List.cons (Expr.relabel_identity value) (Expr.relabelAll_identity values)

end

theorem Expr.map_relabel_identity (value : Option Expr) :
    value.map (Expr.relabel identity 0) = value := by
  cases value with
  | none => rfl
  | some value => exact congrArg some (Expr.relabel_identity value)

mutual

theorem FunctionDecl.relabel_identity : ∀ decl : FunctionDecl, decl.relabel identity 0 = decl
  | .mk name params body =>
    congrArg₂ (FunctionDecl.mk name) (List.map_id params) (Stmt.relabelAll_identity body)

theorem FunctionDecl.relabelAll_identity : ∀ decls : List FunctionDecl,
      FunctionDecl.relabelAll identity 0 decls = decls
  | [] => rfl
  | decl :: decls =>
    congrArg₂ List.cons (FunctionDecl.relabel_identity decl)
      (FunctionDecl.relabelAll_identity decls)

/-- Changing nothing keeps a statement as it is. -/
theorem Stmt.relabel_identity : ∀ stmt : Stmt, stmt.relabel identity 0 = stmt
  | .expression value => congrArg Stmt.expression (Expr.relabel_identity value)
  | .print value => congrArg Stmt.print (Expr.relabel_identity value)
  | .varDecl name initial => congrArg (Stmt.varDecl name) (Expr.map_relabel_identity initial)
  | .block body => congrArg Stmt.block (Stmt.relabelAll_identity body)
  | .ifElse cond yes none =>
    congrArg₂ (Stmt.ifElse · · none) (Expr.relabel_identity cond) (Stmt.relabel_identity yes)
  | .ifElse cond yes (some no) => by
    rw [Stmt.relabel, Expr.relabel_identity cond,
      Stmt.relabel_identity yes, Stmt.relabel_identity no]
  | .whileLoop cond body =>
    congrArg₂ Stmt.whileLoop (Expr.relabel_identity cond) (Stmt.relabel_identity body)
  | .funDecl decl => congrArg Stmt.funDecl (FunctionDecl.relabel_identity decl)
  | .returnValue keyword value =>
    congrArg (Stmt.returnValue keyword) (Expr.map_relabel_identity value)
  | .classDecl name superclass methods =>
    congrArg₂ (Stmt.classDecl name) (Expr.map_relabel_identity superclass)
      (FunctionDecl.relabelAll_identity methods)

theorem Stmt.relabelAll_identity : ∀ stmts : List Stmt, Stmt.relabelAll identity 0 stmts = stmts
  | [] => rfl
  | stmt :: stmts =>
    congrArg₂ List.cons (Stmt.relabel_identity stmt) (Stmt.relabelAll_identity stmts)

end

end

theorem FunctionDecl.name_relabel (decl : FunctionDecl) :
    (decl.relabel change shift).name = change decl.name := by
  cases decl
  rfl

/-! ## Derivations -/

namespace Grammar

/-- Relabel the tree of a nonterminal. -/
def Nonterminal.relabel : (goal : Nonterminal) → goal.Tree → goal.Tree
  | declarations => Stmt.relabelAll change shift
  | declaration => Stmt.relabel change shift
  | superclass => Option.map (Expr.relabel change shift)
  | methods => FunctionDecl.relabelAll change shift
  | function => FunctionDecl.relabel change shift
  | parameters => List.map change
  | parameterList => List.map change
  | varDeclaration => Stmt.relabel change shift
  | initialValue => Option.map (Expr.relabel change shift)
  | statement => Stmt.relabel change shift
  | expressionStatement => Stmt.relabel change shift
  | forInitial => Option.map (Stmt.relabel change shift)
  | block => Stmt.relabelAll change shift
  | optionalExpression => Option.map (Expr.relabel change shift)
  | expression => Expr.relabel change shift
  | level _ => Expr.relabel change shift
  | operand _ => Expr.relabel change shift
  | unary => Expr.relabel change shift
  | call => Expr.relabel change shift
  | arguments => Expr.relabelAll change shift
  | argumentList => Expr.relabelAll change shift
  | primary => Expr.relabel change shift

/-- Loops can be lowered before or after. -/
theorem relabel_lowerFor (initial : Option Stmt) (cond step : Option Expr) (body : Stmt) :
    (lowerFor initial cond step body).relabel change shift =
      lowerFor (initial.map (Stmt.relabel change shift)) (cond.map (Expr.relabel change shift))
        (step.map (Expr.relabel change shift)) (body.relabel change shift) := by
  cases initial <;> cases cond <;> cases step <;> rfl

theorem relabel_join (level : Level) (left : Expr) (op : Token) (right : Expr) :
    (level.join left op right).relabel change shift =
      level.join (left.relabel change shift) (change op) (right.relabel change shift) := by
  cases level <;> rfl

end Grammar

end

variable {findings : Findings} {change : Relabelling}

/-! ## Scope analysis -/

namespace Scoping

section

variable (keeps : change.KeepsLexemes)

include keeps

theorem Context.define_relabel (ctx : Context) (name : Token) :
    ctx.define (change name) = ctx.define name := by
  rw [Context.define, Context.define, keeps]

theorem Context.declare_relabel (ctx : Context) (name : Token) :
    ctx.declare (change name) = ctx.declare name := by
  rw [Context.declare, Context.declare, keeps]

theorem Context.foldl_define_relabel (ctx : Context) (names : List Token) :
    (names.map change).foldl Context.define ctx = names.foldl Context.define ctx := by
  induction names generalizing ctx with
  | nil => rfl
  | cons name names ih =>
    rw [List.map_cons, List.foldl_cons, List.foldl_cons, Context.define_relabel keeps, ih]

theorem Context.inBody_relabel (ctx : Context) (params : List Token) :
    ctx.inBody (params.map change) = ctx.inBody params :=
  Context.foldl_define_relabel keeps _ params

theorem Context.after_relabel (shift : Nat) : ∀ (ctx : Context) (stmt : Stmt),
      ctx.after (stmt.relabel change shift) = ctx.after stmt
  | ctx, .varDecl name _ | ctx, .funDecl (.mk name _ _) | ctx, .classDecl name _ _ =>
    Context.define_relabel keeps ctx name
  | ctx, .ifElse _ yes none | ctx, .whileLoop _ yes => Context.after_relabel shift ctx yes
  | ctx, .ifElse _ yes (some no) => by
    rw [Stmt.relabel, Context.after, Context.after, Context.after_relabel shift ctx yes,
      Context.after_relabel shift _ no]
  | _, .expression _ => rfl
  | _, .print _ => rfl
  | _, .block _ => rfl
  | _, .returnValue _ _ => rfl

end

namespace Findings

/-- Findings in a relabelled tree. -/
def relabel (change : Relabelling) (shift : Nat) (findings : Findings) :
    Findings :=
  ⟨findings.distances.map fun (id, distance) => (id + shift, distance),
    findings.errors.map fun error => ⟨error.fault, change error.token⟩⟩

variable {shift : Nat}

theorem relabel_append (findings others : Findings) : (findings ++ others).relabel change shift =
      findings.relabel change shift ++ others.relabel change shift := by
  show relabel change shift (append findings others) =
    append (relabel change shift findings) (relabel change shift others)
  simp [relabel, append]

theorem errorIf_relabel (cond : Bool) (fault : ScopingFault) (token : Token) :
    (errorIf cond fault token).relabel change shift = errorIf cond fault (change token) := by
  cases cond <;> rfl

/-- What is found for an occurrence only gets another id. -/
theorem occurrence_relabel (ctx : Context) (id : ExprId) (name : String) :
    (occurrence ctx id name).relabel change shift = occurrence ctx (id + shift) name := by
  unfold occurrence
  split <;> rfl

theorem redeclaration_relabel (keeps : change.KeepsLexemes) (ctx : Context) (name : Token) :
    (redeclaration ctx name).relabel change shift = redeclaration ctx (change name) := by
  unfold redeclaration
  rw [errorIf_relabel, keeps]

theorem errors_relabel : (findings.relabel change shift).errors = [] ↔ findings.errors = [] :=
  List.map_eq_nil_iff

/-- Without a shift, only the tokens of breaches change. -/
theorem relabel_zero (clean : findings.errors = []) : findings.relabel change 0 = findings := by
  rcases findings with ⟨distances, errors⟩
  cases clean
  exact congrArg (Findings.mk · []) (List.map_id' distances)

end Findings

section

variable (keeps : change.KeepsLexemes) (shift : Nat)

include keeps

section

variable (ctx : Context)

set_option linter.unusedSectionVars false in
mutual

/-- The analysis finds the same in a relabelled expression. -/
theorem ofExpr_relabel : ∀ value : Expr, ofExpr ctx (value.relabel change shift) =
        (ofExpr ctx value).relabel change shift
  | .literal _ => rfl
  | .grouping inner | .unary _ inner | .get inner _ => ofExpr_relabel inner
  | .binary left _ right | .logical left _ right | .set left _ right => by
    rw [Expr.relabel, ofExpr, ofExpr, Findings.relabel_append,
      ofExpr_relabel left, ofExpr_relabel right]
  | .name id token => by
    rw [Expr.relabel, ofExpr, ofExpr, Findings.relabel_append,
      Findings.errorIf_relabel, Findings.occurrence_relabel, keeps]
  | .assign id target value => by
    rw [Expr.relabel, ofExpr, ofExpr, Findings.relabel_append, Findings.occurrence_relabel, keeps,
      ofExpr_relabel value]
  | .receiver id keyword => by
    rw [Expr.relabel, ofExpr, ofExpr]
    split
    · rw [Findings.occurrence_relabel, keeps]
    · rw [Findings.errorIf_relabel]
  | .call callee _ args => by
    rw [Expr.relabel, ofExpr, ofExpr, Findings.relabel_append,
      ofExpr_relabel callee, ofExprs_relabel args]

theorem ofExprs_relabel : ∀ values : List Expr, ofExprs ctx (Expr.relabelAll change shift values) =
        (ofExprs ctx values).relabel change shift
  | [] => rfl
  | value :: values => by
    rw [Expr.relabelAll, ofExprs, ofExprs, Findings.relabel_append,
      ofExpr_relabel value, ofExprs_relabel values]

end

theorem ofOption_relabel (value : Option Expr) :
    ofOption ctx (value.map (Expr.relabel change shift)) =
      (ofOption ctx value).relabel change shift := by
  cases value with
  | none => rfl
  | some value => exact ofExpr_relabel keeps shift ctx value

end

include shift

theorem ofParameters_relabel (ctx : Context) (names : List Token) :
    ofParameters ctx (names.map change) = (ofParameters ctx names).relabel change shift := by
  induction names generalizing ctx with
  | nil => rfl
  | cons name names ih =>
    rw [List.map_cons, ofParameters, ofParameters, Findings.relabel_append,
      Findings.redeclaration_relabel keeps, Context.define_relabel keeps, ih]

theorem inheritsItself_relabel (name : Token) (superclass : Option Expr) :
    inheritsItself (change name) (superclass.map (Expr.relabel change shift)) =
      (inheritsItself name superclass).relabel change shift := by
  cases superclass with
  | none => rfl
  | some superclass =>
    cases superclass with
    | name id token =>
      simp [Expr.relabel, inheritsItself, Findings.errorIf_relabel, keeps name, keeps token]
    | _ => rfl

set_option linter.unusedSectionVars false in
mutual

theorem ofFunction_relabel :
    ∀ (ctx : Context) (decl : FunctionDecl), ofFunction ctx (decl.relabel change shift) =
        (ofFunction ctx decl).relabel change shift
  | ctx, .mk _ params body => by
    rw [FunctionDecl.relabel, ofFunction, ofFunction,
      Findings.relabel_append, ofParameters_relabel keeps shift,
      Context.inBody_relabel keeps, ofStmts_relabel _ body]

theorem ofMethods_relabel :
    ∀ (ctx : Context) (methods : List FunctionDecl),
      ofMethods ctx (FunctionDecl.relabelAll change shift methods) =
        (ofMethods ctx methods).relabel change shift
  | _, [] => rfl
  | ctx, method :: methods => by
    rw [FunctionDecl.relabelAll, ofMethods, ofMethods,
      Findings.relabel_append, ofFunction_relabel ctx method,
      ofMethods_relabel ctx methods]

/-- The analysis finds the same in a relabelled statement. -/
theorem ofStmt_relabel :
    ∀ (ctx : Context) (stmt : Stmt), ofStmt ctx (stmt.relabel change shift) =
        (ofStmt ctx stmt).relabel change shift
  | ctx, .expression value | ctx, .print value => ofExpr_relabel keeps shift ctx value
  | ctx, .varDecl name initial => by
    rw [Stmt.relabel, ofStmt, ofStmt, Findings.relabel_append,
      Findings.redeclaration_relabel keeps, Context.declare_relabel keeps, ofOption_relabel keeps]
  | ctx, .block body => ofStmts_relabel (ctx.enter []) body
  | ctx, .ifElse cond yes none | ctx, .whileLoop cond yes => by
    rw [Stmt.relabel, ofStmt, ofStmt, Findings.relabel_append,
      ofExpr_relabel keeps, ofStmt_relabel ctx yes]
  | ctx, .ifElse cond yes (some no) => by
    rw [Stmt.relabel, ofStmt, ofStmt, Findings.relabel_append,
      Findings.relabel_append, ofExpr_relabel keeps,
      Context.after_relabel keeps, ofStmt_relabel ctx yes,
      ofStmt_relabel _ no]
  | ctx, .funDecl decl => by
    rw [Stmt.relabel, ofStmt, ofStmt, Findings.relabel_append,
      Findings.redeclaration_relabel keeps, FunctionDecl.name_relabel,
      Context.define_relabel keeps, ofFunction_relabel _ decl]
  | ctx, .returnValue keyword value => by
    rw [Stmt.relabel, ofStmt, ofStmt, Findings.relabel_append,
      Findings.errorIf_relabel, ofOption_relabel keeps]
  | ctx, .classDecl name superclass methods => by
    rw [Stmt.relabel, ofStmt, ofStmt]
    simp only [Findings.relabel_append,
      Findings.redeclaration_relabel keeps, inheritsItself_relabel keeps,
      Context.define_relabel keeps, ofOption_relabel keeps]
    rw [ofMethods_relabel _ methods]

theorem ofStmts_relabel :
    ∀ (ctx : Context) (stmts : List Stmt), ofStmts ctx (Stmt.relabelAll change shift stmts) =
        (ofStmts ctx stmts).relabel change shift
  | _, [] => rfl
  | ctx, stmt :: stmts => by
    rw [Stmt.relabelAll, ofStmts, ofStmts, Findings.relabel_append,
      Context.after_relabel keeps, ofStmt_relabel ctx
        stmt, ofStmts_relabel _ stmts]

end

/-- The analysis finds the same in a relabelled program. -/
theorem analyse_relabel (program : Program) :
    analyse (Stmt.relabelAll change shift program) = (analyse program).relabel change shift :=
  ofStmts_relabel keeps shift .outermost program

end

end Scoping

end Treewalk
