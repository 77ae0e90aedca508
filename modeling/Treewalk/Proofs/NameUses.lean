import Treewalk.Proofs.DerivedTrees
import Treewalk.Proofs.TreeShapes
import Treewalk.Scoping

/-!
# What the names of a program stand for

A name of a program stands for a local declaration if it is the declared name
itself, or an occurrence whose distance leads to the scope of the declaration.
A tree holds each token of its text at most once, so where tokens can be told
apart, each has one use.
-/

namespace Treewalk

open List Option

/-- A token of a program and the local declaration that it stands for. -/
structure NameUse where
  token : Token
  declaration : Option Token
deriving DecidableEq, Repr

namespace NameUse

/-- The token stands for no local declaration. -/
def plain (token : Token) : NameUse :=
  ⟨token, none⟩

/-- A variable stands for itself if it is declared in a local scope. -/
def declared (frames : List (List Token)) (name : Token) : NameUse :=
  ⟨name, if frames.isEmpty then none else some name⟩

/-- An occurrence stands for the declaration in the scope at its distance. -/
def occurrence (distances : Distances) (frames : List (List Token))
    (id : ExprId) (token : Token) : NameUse :=
  ⟨token, do
    let distance ← distances.find? id
    let names ← frames[distance]?
    names.find? fun name => name.lexeme == token.lexeme⟩

end NameUse

/-! ## Uses -/

section

variable (distances : Distances)

section

variable (frames : List (List Token))

mutual

/--
The uses of all tokens in an expression, inside local scopes that declare the
given names.
-/
def Expr.uses : Expr → List NameUse
  | .literal _ => []
  | .unary operator operand => .plain operator :: operand.uses
  | .binary left operator right => left.uses ++ .plain operator :: right.uses
  | .grouping inner => inner.uses
  | .name id token => [.occurrence distances frames id token]
  | .assign id target value =>
    .occurrence distances frames id target :: value.uses
  | .logical left operator right => left.uses ++ .plain operator :: right.uses
  | .call callee closing arguments =>
    callee.uses ++ Expr.usesAll arguments ++ [.plain closing]
  | .get object property => object.uses ++ [.plain property]
  | .set object property value => object.uses ++ .plain property :: value.uses
  | .receiver _ keyword => [.plain keyword]

def Expr.usesAll : List Expr → List NameUse
  | [] => []
  | value :: values => value.uses ++ Expr.usesAll values

end

def Expr.usesOption : Option Expr → List NameUse
  | none => []
  | some value => value.uses distances frames

end

/-- The names that statements declare in the scope they stand in. -/
def Stmt.declaredAll (statements : List Stmt) : List Token :=
  statements.flatMap Stmt.declared

mutual

/-- The uses of all tokens in a function or method. -/
def FunctionDecl.uses (frames : List (List Token)) :
    FunctionDecl → List NameUse
  | .mk name parameters body =>
    let inside := (parameters ++ Stmt.declaredAll body) :: frames
    .plain name :: (parameters.map (NameUse.declared inside) ++ Stmt.usesAll inside body)

def FunctionDecl.usesAll (frames : List (List Token)) :
    List FunctionDecl → List NameUse
  | [] => []
  | declaration :: declarations =>
    declaration.uses frames ++ FunctionDecl.usesAll frames declarations

/-- The uses of all tokens in a statement. -/
def Stmt.uses (frames : List (List Token)) : Stmt → List NameUse
  | .expression value => value.uses distances frames
  | .print value => value.uses distances frames
  | .varDecl name initial =>
    .declared frames name :: Expr.usesOption distances frames initial
  | .block body => Stmt.usesAll (Stmt.declaredAll body :: frames) body
  | .ifElse condition yes none =>
    condition.uses distances frames ++ yes.uses frames
  | .ifElse condition yes (some no) =>
    condition.uses distances frames ++ yes.uses frames ++ no.uses frames
  | .whileLoop condition body =>
    condition.uses distances frames ++ body.uses frames
  | .funDecl declaration => declaration.uses frames
  | .returnValue keyword value =>
    .plain keyword :: Expr.usesOption distances frames value
  | .classDecl name superclass methods =>
    .plain name :: (Expr.usesOption distances frames superclass ++
      FunctionDecl.usesAll ([] :: frames) methods)

def Stmt.usesAll (frames : List (List Token)) : List Stmt → List NameUse
  | [] => []
  | statement :: statements =>
    statement.uses frames ++ Stmt.usesAll frames statements

end

end

/-- The uses of all tokens in a program. -/
def Program.uses (program : Program) : List NameUse :=
  Stmt.usesAll (Distances.empty.recordAll (Scoping.analyse program).distances) [] program

variable {distances : Distances} {frames : List (List Token)}
  {input : List Token} {first next : ExprId}

/-! ## Every token is kept at most once -/

namespace Grammar

/-- The uses of all tokens in the tree of a nonterminal. -/
def Nonterminal.uses (distances : Distances) (frames : List (List Token)) :
    (goal : Nonterminal) → goal.Tree → List NameUse
  | declarations => Stmt.usesAll distances frames
  | declaration => Stmt.uses distances frames
  | superclass => Expr.usesOption distances frames
  | methods => FunctionDecl.usesAll distances frames
  | function => FunctionDecl.uses distances frames
  | parameters => map (NameUse.declared frames)
  | parameterList => map (NameUse.declared frames)
  | varDeclaration => Stmt.uses distances frames
  | initialValue => Expr.usesOption distances frames
  | statement => Stmt.uses distances frames
  | expressionStatement => Stmt.uses distances frames
  | forInitial => fun initial =>
    (initial.map (Stmt.uses distances frames)).getD []
  | block => Stmt.usesAll distances frames
  | optionalExpression => Expr.usesOption distances frames
  | expression => Expr.uses distances frames
  | level _ => Expr.uses distances frames
  | operand _ => Expr.uses distances frames
  | unary => Expr.uses distances frames
  | call => Expr.uses distances frames
  | arguments => Expr.usesAll distances frames
  | argumentList => Expr.usesAll distances frames
  | primary => Expr.uses distances frames

theorem uses_join (distances : Distances) (frames : List (List Token))
    (level : Level) (left : Expr) (op : Token) (right : Expr) :
    (level.join left op right).uses distances frames = left.uses distances frames ++
        .plain op :: right.uses distances frames := by
  cases level <;> rfl

/-- A tree keeps no token more often than its text holds it. -/
theorem Derives.count_tokens_le {goal : Nonterminal} {rest : List Token} {tree : goal.Tree}
    (derivation : Derives .nearest goal input first tree rest next) (distances : Distances)
    (frames : List (List Token)) (token : Token) :
    ((goal.uses distances frames tree).map NameUse.token).count token + rest.count token ≤
      input.count token := by
  induction derivation generalizing frames with
  | @forStatement _ _ _ _ initial _ _ cond _ _ _ step =>
    cases initial <;> cases cond <;> cases step <;>
      simp only [Nonterminal.uses, unfoldedLoop, Stmt.uses, Stmt.usesAll, Expr.uses,
        Expr.usesOption.eq_1, Expr.usesOption.eq_2, map_some, map_none,
        getD_some, getD_none, map_append, map_nil, count_append,
        count_cons, count_nil, forall_const] at * <;> grind
  | operation =>
    simp only [Nonterminal.uses, uses_join, map_cons, map_append, count_cons,
      count_append] at *
    grind [NameUse.plain]
  | _ =>
    simp only [Nonterminal.uses, Expr.uses, Expr.usesAll, Expr.usesOption.eq_1,
      Expr.usesOption.eq_2, FunctionDecl.uses,
      FunctionDecl.usesAll, Stmt.uses, Stmt.usesAll, map_some, map_none,
      getD_some, getD_none, map_cons, map_append, map_nil,
      count_cons, count_append, count_nil, NameUse.plain, NameUse.declared,
      NameUse.occurrence] at *
    grind

section

variable {program : Program}

section

variable (derivation : Derives .nearest .declarations input first program [] next)

include derivation

/-- A token is used at most as often as it stands in the text. -/
theorem Derives.count_uses_le (distances : Distances) (token : Token) :
    ((Stmt.usesAll distances [] program).map NameUse.token).count token ≤ input.count token := by
  exact derivation.count_tokens_le distances [] token

/-- Every use is that of a token of the text. -/
theorem Derives.token_mem_of_mem_uses {use : NameUse}
    (mem : use ∈ Stmt.usesAll distances [] program) : use.token ∈ input := by
  have used : use.token ∈ (Stmt.usesAll distances [] program).map NameUse.token :=
    mem_map_of_mem mem
  rw [← count_pos_iff] at used ⊢
  exact Nat.lt_of_lt_of_le used (derivation.count_uses_le distances _)

end

end

end Grammar

/-! ## Names are identifiers -/

/-- A token that stands for a declaration is an identifier. -/
def NameUse.Named (use : NameUse) : Prop :=
  ∀ declaration, use.declaration = some declaration → use.token.kind = .identifier

namespace NameUse

theorem named_plain (token : Token) : (plain token).Named :=
  nofun

theorem named_declared {name : Token} (identifier : name.kind = .identifier) :
    (declared frames name).Named :=
  fun _ _ => identifier

theorem named_occurrence {id : ExprId} {token : Token} (identifier : token.kind = .identifier) :
    (occurrence distances frames id token).Named :=
  fun _ _ => identifier

end NameUse

namespace Grammar

theorem named_unfoldedLoop {initial : Option Stmt} {cond step : Option Expr} {body : Stmt}
    (initially : ∀ frames, ∀ use ∈ (initial.map (Stmt.uses distances frames)).getD [], use.Named)
    (conditional : ∀ frames, ∀ use ∈ Expr.usesOption distances frames cond, use.Named)
    (stepwise : ∀ frames, ∀ use ∈ Expr.usesOption distances frames step, use.Named)
    (repeated : ∀ frames, ∀ use ∈ body.uses distances frames, use.Named)
    (frames : List (List Token)) :
    ∀ use ∈ (unfoldedLoop initial cond step body).uses distances frames, use.Named := by
  cases initial <;> cases cond <;> cases step <;>
    simp only [unfoldedLoop, Stmt.uses, Stmt.usesAll, Expr.uses, Expr.usesOption,
      map_some, map_none, getD_some, getD_none,
      forall_mem_append] at * <;> grind

/-- Variables are read from identifiers, wherever they stand. -/
theorem Derives.named {goal : Nonterminal} {rest : List Token} {tree : goal.Tree}
    (derivation : Derives .nearest goal input first tree rest next) (distances : Distances)
    (frames : List (List Token)) : ∀ use ∈ goal.uses distances frames tree, use.Named := by
  induction derivation generalizing frames with
  | forStatement _ _ _ _ _ _ _ _ initially conditional stepwise repeated =>
    exact named_unfoldedLoop initially conditional stepwise repeated frames
  | operation _ _ _ joined valued =>
    simp only [Nonterminal.uses, uses_join, forall_mem_append,
      forall_mem_cons, NameUse.named_plain, true_and]
    exact ⟨joined frames, valued frames⟩
  | _ =>
    simp only [Nonterminal.uses, Expr.uses, Expr.usesAll, Expr.usesOption,
      FunctionDecl.uses, FunctionDecl.usesAll, Stmt.uses, Stmt.usesAll,
      map_some, map_none, getD_some, getD_none,
      forall_mem_cons, forall_mem_append, map_cons,
      map_nil, NameUse.named_plain, true_and] at *
    grind [NameUse.named_declared, NameUse.named_occurrence]

end Grammar

end Treewalk
