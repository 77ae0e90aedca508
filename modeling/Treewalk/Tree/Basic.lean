import Treewalk.Token.Basic

/-!
# Statement trees

A program is a list of statements.  Trees keep the tokens they were built
from, so a diagnostic can name the text and the line it is about.

Every occurrence of a name that can refer to a variable carries an `ExprId`.
Scope analysis records a distance for an id, and evaluation looks it up again;
ids never take part in the meaning of a tree otherwise.
-/

namespace Treewalk

/-- The identity of an occurrence of a name. -/
abbrev ExprId := Nat

/-- A constant written in a program. -/
inductive Literal where
  | number (value : Float)
  | string (text : String)
  | boolean (value : Bool)
  | nil
deriving DecidableEq, Repr

/-- Expressions. -/
inductive Expr where
  | literal (value : Literal)
  | unary (operator : Token) (operand : Expr)
  | binary (left : Expr) (operator : Token) (right : Expr)
  | grouping (inner : Expr)
  /-- A variable is read. -/
  | name (id : ExprId) (token : Token)
  /-- A variable is given a new value. -/
  | assign (id : ExprId) (target : Token) (value : Expr)
  /-- An operator that may leave its right operand unevaluated. -/
  | logical (left : Expr) (operator : Token) (right : Expr)
  /-- A call, with the parenthesis that closes its arguments. -/
  | call (callee : Expr) (closing : Token) (arguments : List Expr)
  /-- A property is read. -/
  | get (object : Expr) (property : Token)
  /-- A field is given a new value. -/
  | set (object : Expr) (property : Token) (value : Expr)
  /-- The receiver inside a method. -/
  | receiver (id : ExprId) (keyword : Token)
deriving Repr

mutual

/-- A function or method: its name, parameters and body. -/
inductive FunctionDecl where
  | mk (name : Token) (parameters : List Token) (body : List Stmt)

/-- Statements. -/
inductive Stmt where
  | expression (value : Expr)
  | print (value : Expr)
  | varDecl (name : Token) (initial : Option Expr)
  | block (body : List Stmt)
  | ifElse (condition : Expr) (yes : Stmt) (no : Option Stmt)
  | whileLoop (condition : Expr) (body : Stmt)
  | funDecl (declaration : FunctionDecl)
  | returnValue (keyword : Token) (value : Option Expr)
  | classDecl (name : Token) (superclass : Option Expr) (methods : List FunctionDecl)

end

/-- A program. -/
abbrev Program := List Stmt

namespace FunctionDecl

/-- The name a function is declared under. -/
def name : FunctionDecl → Token
  | mk name _ _ => name

/-- The names of the parameters, in order. -/
def parameters : FunctionDecl → List Token
  | mk _ parameters _ => parameters

/-- The statements of the body. -/
def body : FunctionDecl → List Stmt
  | mk _ _ body => body

/-- How many arguments a call has to bring. -/
def arity (declaration : FunctionDecl) : Nat :=
  declaration.parameters.length

end FunctionDecl

namespace Literal

/-- Equal constants; numbers are compared as numbers. -/
def agrees : Literal → Literal → Bool
  | number left, number right => left == right
  | string left, string right => left == right
  | boolean left, boolean right => left == right
  | nil, nil => true
  | _, _ => false

end Literal

namespace Expr

mutual

/-- The trees are the same node for node, ids and lines included. -/
def agrees : Expr → Expr → Bool
  | literal left, literal right => left.agrees right
  | unary operator operand, unary operator' operand' =>
    operator.agrees operator' && agrees operand operand'
  | binary left operator right, binary left' operator' right' =>
    agrees left left' && operator.agrees operator' && agrees right right'
  | grouping inner, grouping inner' => agrees inner inner'
  | name id token, name id' token' => id == id' && token.agrees token'
  | assign id target value, assign id' target' value' =>
    id == id' && target.agrees target' && agrees value value'
  | logical left operator right, logical left' operator' right' =>
    agrees left left' && operator.agrees operator' && agrees right right'
  | call callee closing arguments, call callee' closing' arguments' =>
    agrees callee callee' && closing.agrees closing' && agreeAll arguments arguments'
  | get object property, get object' property' =>
    agrees object object' && property.agrees property'
  | set object property value, set object' property' value' =>
    agrees object object' && property.agrees property' && agrees value value'
  | receiver id keyword, receiver id' keyword' =>
    id == id' && keyword.agrees keyword'
  | _, _ => false

def agreeAll : List Expr → List Expr → Bool
  | [], [] => true
  | left :: lefts, right :: rights => agrees left right && agreeAll lefts rights
  | _, _ => false

end

def agreeOption : Option Expr → Option Expr → Bool
  | none, none => true
  | some left, some right => left.agrees right
  | _, _ => false

end Expr

def Token.agreeAll : List Token → List Token → Bool
  | [], [] => true
  | left :: lefts, right :: rights =>
    left.agrees right && Token.agreeAll lefts rights
  | _, _ => false

mutual

/-- The declarations are the same, node for node. -/
def FunctionDecl.agrees : FunctionDecl → FunctionDecl → Bool
  | .mk name parameters body, .mk name' parameters' body' =>
    name.agrees name' && Token.agreeAll parameters parameters' && Stmt.agreeAll body body'

def FunctionDecl.agreeAll : List FunctionDecl → List FunctionDecl → Bool
  | [], [] => true
  | left :: lefts, right :: rights =>
    left.agrees right && FunctionDecl.agreeAll lefts rights
  | _, _ => false

/-- The statements are the same node for node, ids and lines included. -/
def Stmt.agrees : Stmt → Stmt → Bool
  | .expression value, .expression value' => value.agrees value'
  | .print value, .print value' => value.agrees value'
  | .varDecl name initial, .varDecl name' initial' =>
    name.agrees name' && Expr.agreeOption initial initial'
  | .block body, .block body' => Stmt.agreeAll body body'
  | .ifElse condition yes none, .ifElse condition' yes' none =>
    condition.agrees condition' && yes.agrees yes'
  | .ifElse condition yes (some no), .ifElse condition' yes' (some no') =>
    condition.agrees condition' && yes.agrees yes' && no.agrees no'
  | .whileLoop condition body, .whileLoop condition' body' =>
    condition.agrees condition' && body.agrees body'
  | .funDecl declaration, .funDecl declaration' =>
    declaration.agrees declaration'
  | .returnValue keyword value, .returnValue keyword' value' =>
    keyword.agrees keyword' && Expr.agreeOption value value'
  | .classDecl name superclass methods, .classDecl name' superclass' methods' =>
    name.agrees name' && Expr.agreeOption superclass superclass' &&
      FunctionDecl.agreeAll methods methods'
  | _, _ => false

def Stmt.agreeAll : List Stmt → List Stmt → Bool
  | [], [] => true
  | left :: lefts, right :: rights =>
    left.agrees right && Stmt.agreeAll lefts rights
  | _, _ => false

end

end Treewalk
