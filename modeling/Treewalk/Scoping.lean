import Std.Data.TreeMap
import Treewalk.Diagnostic
import Treewalk.Tree.Basic

/-!
# Lexical distances

A block, the parameters and body of a function, and the body of a class are
local scopes; the outermost level of a program is not.  The distance of an
occurrence of a name is the number of local scopes between it and the nearest
one that declares the name before it.  Occurrences that no local scope
declares have no distance.

The analysis walks a program once, in the order of its text.  It finds all
distances and all breaches of the scope rules; a breach does not keep later
distances from being found.
-/

namespace Treewalk

/-- The recorded distances of name occurrences. -/
structure Distances where
  table : Std.TreeMap ExprId Nat

namespace Distances

/-- No distance is recorded. -/
def empty : Distances :=
  ⟨∅⟩

/-- The distance recorded for an occurrence. -/
def find? (distances : Distances) (id : ExprId) : Option Nat :=
  distances.table[id]?

/-- Record a distance, in place of an earlier one. -/
def record (distances : Distances) (id : ExprId) (distance : Nat) :
    Distances :=
  ⟨distances.table.insert id distance⟩

/-- Record several distances in turn. -/
def recordAll (distances : Distances) (found : List (ExprId × Nat)) :
    Distances :=
  found.foldl (fun table (id, distance) => table.record id distance) distances

@[simp]
theorem find?_empty (id : ExprId) : empty.find? id = none := by
  simp [empty, find?]

@[simp]
theorem find?_record (distances : Distances) (id other : ExprId) (distance : Nat) :
    (distances.record id distance).find? other =
      if id = other then some distance else distances.find? other := by
  simp only [find?, record, Std.TreeMap.getElem?_insert, Nat.compare_eq_eq]

end Distances

/-- How a program can break the scope rules. -/
inductive ScopingFault where
  | redeclared
  | ownInitializer
  | returnOutsideFunction
  | receiverOutsideClass
  | ownSuperclass
deriving DecidableEq, Repr

namespace ScopingFault

/-- The wording of a breach of the scope rules. -/
def message : ScopingFault → String
  | redeclared => "Already a variable with this name in this scope."
  | ownInitializer => "Can't read local variable in its own initializer."
  | returnOutsideFunction => "Can't return from top-level code."
  | receiverOutsideClass => "Can't use 'this' outside of a class."
  | ownSuperclass => "A class can't inherit from itself."

end ScopingFault

/-- A breach of the scope rules and the token it points at. -/
structure ScopingError where
  fault : ScopingFault
  token : Token
deriving DecidableEq, Repr

/-- The report of a breach of the scope rules. -/
def ScopingError.diagnostic (error : ScopingError) : Diagnostic :=
  .scopingAt error.token error.fault.message

namespace Scoping

/-- The names of a local scope; `true` once the name may be read. -/
abbrev LocalScope := List (String × Bool)

/-- What surrounds a place in a program. -/
structure Context where
  /-- The local scopes, innermost first. -/
  scopes : List LocalScope
  inFunction : Bool
  inClass : Bool
deriving DecidableEq, Repr

namespace Context

/-- The outermost level of a program. -/
def outermost : Context :=
  ⟨[], false, false⟩

/-- Enter a local scope. -/
def enter (context : Context) (scope : LocalScope) : Context :=
  { context with scopes := scope :: context.scopes }

/-- Give a name of the innermost local scope a new state. -/
def mark (context : Context) (name : String) (readable : Bool) : Context :=
  match context.scopes with
  | [] => context
  | scope :: outer =>
    { context with scopes := ((name, readable) :: scope) :: outer }

/-- The name is declared and may not be read yet. -/
def declare (context : Context) (name : Token) : Context :=
  context.mark name.lexeme false

/-- The name is declared and may be read. -/
def define (context : Context) (name : Token) : Context :=
  context.mark name.lexeme true

/-- The innermost local scope already declares the name. -/
def declaresInnermost (context : Context) (name : String) : Bool :=
  match context.scopes with
  | [] => false
  | scope :: _ => (scope.lookup name).isSome

/-- The innermost local scope declares the name, but it may not be read yet. -/
def awaits (context : Context) (name : String) : Bool :=
  match context.scopes with
  | [] => false
  | scope :: _ => scope.lookup name == some false

/-- The number of local scopes up to the nearest one that declares a name. -/
def distance? (context : Context) (name : String) : Option Nat :=
  context.scopes.findIdx? fun scope => (scope.lookup name).isSome

/-- The context after the names that a statement declares around itself. -/
def after (context : Context) : Stmt → Context
  | .varDecl name _ => context.define name
  | .funDecl declaration => context.define declaration.name
  | .classDecl name _ _ => context.define name
  | .ifElse _ yes none => context.after yes
  | .ifElse _ yes (some no) => (context.after yes).after no
  | .whileLoop _ body => context.after body
  | _ => context

end Context

/-- What the analysis of a part of a program yields. -/
structure Findings where
  distances : List (ExprId × Nat)
  errors : List ScopingError
deriving DecidableEq, Repr

namespace Findings

/-- Nothing was found. -/
def none : Findings :=
  ⟨[], []⟩

/-- The findings of one part, then those of the next. -/
def append (first second : Findings) : Findings :=
  ⟨first.distances ++ second.distances, first.errors ++ second.errors⟩

instance : Append Findings :=
  ⟨append⟩

/-- A breach of the rules, if a condition holds. -/
def errorIf (condition : Bool) (fault : ScopingFault) (token : Token) :
    Findings :=
  if condition then ⟨[], [⟨fault, token⟩]⟩ else none

/-- The distance of an occurrence, if it has one. -/
def occurrence (context : Context) (id : ExprId) (name : String) : Findings :=
  match context.distance? name with
  | some distance => ⟨[(id, distance)], []⟩
  | Option.none => none

/-- The breach of declaring a name twice in one local scope. -/
def redeclaration (context : Context) (name : Token) : Findings :=
  errorIf (context.declaresInnermost name.lexeme) .redeclared name

end Findings

mutual

/-- What is found in an expression. -/
def ofExpr (context : Context) : Expr → Findings
  | .literal _ => .none
  | .grouping inner => ofExpr context inner
  | .unary _ operand => ofExpr context operand
  | .binary left _ right => ofExpr context left ++ ofExpr context right
  | .logical left _ right => ofExpr context left ++ ofExpr context right
  | .name id token =>
    .errorIf (context.awaits token.lexeme) .ownInitializer token ++
      .occurrence context id token.lexeme
  | .assign id target value =>
    ofExpr context value ++ .occurrence context id target.lexeme
  | .receiver id keyword =>
    if context.inClass then
      .occurrence context id keyword.lexeme
    else
      .errorIf true .receiverOutsideClass keyword
  | .call callee _ arguments =>
    ofExpr context callee ++ ofExprs context arguments
  | .get object _ => ofExpr context object
  | .set object _ value => ofExpr context object ++ ofExpr context value

def ofExprs (context : Context) : List Expr → Findings
  | [] => .none
  | value :: values => ofExpr context value ++ ofExprs context values

end

def ofOption (context : Context) : Option Expr → Findings
  | none => .none
  | some value => ofExpr context value

/-- What is found in a list of parameters. -/
def ofParameters (context : Context) : List Token → Findings
  | [] => .none
  | name :: names =>
    .redeclaration context name ++ ofParameters (context.define name) names

/-- The context inside a function, after its parameters. -/
def Context.inBody (context : Context) (parameters : List Token) : Context :=
  parameters.foldl Context.define { context.enter [] with inFunction := true }

/-- The class named as superclass is the class itself. -/
def inheritsItself (name : Token) : Option Expr → Findings
  | some (.name _ superName) =>
    .errorIf (superName.lexeme == name.lexeme) .ownSuperclass superName
  | _ => .none

mutual

/-- What is found in a function or method. -/
def ofFunction (context : Context) : FunctionDecl → Findings
  | .mk _ parameters body =>
    ofParameters (context.enter []) parameters ++ ofStmts (context.inBody parameters) body

/-- What is found in the methods of a class. -/
def ofMethods (context : Context) : List FunctionDecl → Findings
  | [] => .none
  | method :: methods =>
    ofFunction context method ++ ofMethods context methods

/-- What is found in a statement. -/
def ofStmt (context : Context) : Stmt → Findings
  | .expression value => ofExpr context value
  | .print value => ofExpr context value
  | .varDecl name initial =>
    .redeclaration context name ++ ofOption (context.declare name) initial
  | .block body => ofStmts (context.enter []) body
  | .ifElse condition yes none =>
    ofExpr context condition ++ ofStmt context yes
  | .ifElse condition yes (some no) =>
    ofExpr context condition ++ ofStmt context yes ++ ofStmt (context.after yes) no
  | .whileLoop condition body =>
    ofExpr context condition ++ ofStmt context body
  | .funDecl declaration =>
    .redeclaration context declaration.name ++
      ofFunction (context.define declaration.name) declaration
  | .returnValue keyword value =>
    .errorIf (!context.inFunction) .returnOutsideFunction keyword ++ ofOption context value
  | .classDecl name superclass methods =>
    let named := { context.define name with inClass := true }
    .redeclaration context name ++ inheritsItself name superclass ++ ofOption named superclass ++
      ofMethods (named.enter [("this", true)]) methods

def ofStmts (context : Context) : List Stmt → Findings
  | [] => .none
  | statement :: statements =>
    ofStmt context statement ++ ofStmts (context.after statement) statements

end

/-- The distances and the breaches of the scope rules of a program. -/
def analyse (program : Program) : Findings :=
  ofStmts .outermost program

end Scoping

end Treewalk
