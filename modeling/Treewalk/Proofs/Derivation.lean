import Treewalk.Grammar.Statement

/-!
# Derivations

The grammar of the language as a relation between tokens and trees.  It says
nothing about cursors, faults or recovery: `Derives policy goal input first
tree rest next` states that the tokens of `input` in front of `rest` derive
the nonterminal `goal`, that `tree` is the tree of that derivation, and that
the expression ids from `first` up to `next` are handed out in it from left
to right.

Left-associative operators and calls are left-recursive, as their trees are.
A choice without an alternative may leave an `else` behind for a choice around
it, which makes the grammar ambiguous.  The policy `nearest` rules this out;
`free` does not.
-/

namespace Treewalk.Grammar

/-- The levels of binary operators, from the loosest to the tightest. -/
inductive Level where
  | disjunction
  | conjunction
  | equality
  | comparison
  | term
  | factor
deriving DecidableEq, Repr

namespace Level

/-- The token is an operator of the level. -/
def operates : Level → Token → Bool
  | disjunction => fun token => token.isWord .orWord
  | conjunction => fun token => token.isWord .andWord
  | equality => isAnyMark [.bangEqual, .equalEqual]
  | comparison => isAnyMark [.greater, .greaterEqual, .less, .lessEqual]
  | term => isAnyMark [.minus, .plus]
  | factor => isAnyMark [.star, .slash]

/-- The tree of two operands of the level. -/
def join : Level → Expr → Token → Expr → Expr
  | disjunction => .logical
  | conjunction => .logical
  | _ => .binary

/-- The next tighter level; the operands of the last one are unary. -/
def tighter? : Level → Option Level
  | disjunction => some conjunction
  | conjunction => some equality
  | equality => some comparison
  | comparison => some term
  | term => some factor
  | factor => none

end Level

/-- What a derivation can start from. -/
inductive Nonterminal where
  | declarations
  | declaration
  | superclass
  | methods
  | function
  | parameters
  | parameterList
  | varDeclaration
  | initialValue
  | statement
  | expressionStatement
  | forInitial
  | block
  | optionalExpression
  | expression
  | level (level : Level)
  | operand (level : Level)
  | unary
  | call
  | arguments
  | argumentList
  | primary
deriving DecidableEq, Repr

namespace Nonterminal

/-- The trees that derivations of a nonterminal have. -/
abbrev Tree : Nonterminal → Type
  | declarations => List Stmt
  | declaration => Stmt
  | superclass => Option Expr
  | methods => List FunctionDecl
  | function => FunctionDecl
  | parameters => List Token
  | parameterList => List Token
  | varDeclaration => Stmt
  | initialValue => Option Expr
  | statement => Stmt
  | expressionStatement => Stmt
  | forInitial => Option Stmt
  | block => List Stmt
  | optionalExpression => Option Expr
  | expression => Expr
  | level _ => Expr
  | operand _ => Expr
  | unary => Expr
  | call => Expr
  | arguments => List Expr
  | argumentList => List Expr
  | primary => Expr

/-- The nonterminal may derive no token at all. -/
def nullable : Nonterminal → Bool
  | declarations => true
  | superclass => true
  | methods => true
  | parameterList => true
  | initialValue => true
  | optionalExpression => true
  | argumentList => true
  | _ => false

end Nonterminal

/-- Which choice an `else` may belong to. -/
inductive ElsePolicy where
  /-- Any choice around it that has no alternative yet. -/
  | free
  /-- The innermost of them. -/
  | nearest
deriving DecidableEq, Repr

/-- The tree of a loop with a counter, from its three clauses and its body. -/
abbrev LoopTree :=
  Option Stmt → Option Expr → Option Expr → Stmt → Stmt

/--
A loop with a counter as a plain loop.  A step shares a block with the body, a
first clause shares one with the loop, and an absent condition always holds.
-/
def unfoldedLoop : LoopTree
  | none, condition, none, body =>
    .whileLoop (condition.getD (.literal (.boolean true))) body
  | none, condition, some step, body =>
    .whileLoop (condition.getD (.literal (.boolean true)))
      (.block [body, .expression step])
  | some initial, condition, none, body =>
    .block [initial,
      .whileLoop (condition.getD (.literal (.boolean true))) body]
  | some initial, condition, some step, body =>
    .block [initial,
      .whileLoop (condition.getD (.literal (.boolean true)))
        (.block [body, .expression step])]

/-- The parser unfolds loops with a counter. -/
theorem lowerFor_eq_unfoldedLoop (initial : Option Stmt)
    (condition step : Option Expr) (body : Stmt) :
    lowerFor initial condition step body =
      unfoldedLoop initial condition step body := by
  cases initial <;> cases step <;> rfl

/-- Which choices alternatives belong to, and the trees of loops with a counter. -/
structure Policy where
  elses : ElsePolicy
  loop : LoopTree

namespace Policy

/-- Alternatives belong to any choice; loops with a counter are unfolded. -/
abbrev free : Policy :=
  ⟨.free, unfoldedLoop⟩

/-- Alternatives belong to the nearest choice; loops with a counter are unfolded. -/
abbrev nearest : Policy :=
  ⟨.nearest, unfoldedLoop⟩

end Policy

/-- The constant that a token stands for. -/
def constant? (token : Token) : Option Literal :=
  match token.kind with
  | .keyword .falseWord => some (.boolean false)
  | .keyword .trueWord => some (.boolean true)
  | .keyword .nilWord => some .nil
  | .number value => some (.number value)
  | .string text => some (.string text)
  | _ => none

theorem kind_of_isWord {token : Token} {word : Keyword}
    (reserved : token.isWord word) : token.kind = .keyword word := by
  simpa [Token.isWord] using reserved

theorem kind_of_isMark {token : Token} {mark : Punctuator}
    (marked : token.isMark mark) : token.kind = .punctuator mark := by
  simpa [Token.isMark] using marked

/-- The next token passes a test. -/
def isAhead (test : Token → Bool) : List Token → Bool
  | [] => false
  | token :: _ => test token

section

variable (policy : Policy)

/-- The derivations of the grammar, with their trees and ids. -/
inductive Derives :
    (goal : Nonterminal) → List Token → ExprId → goal.Tree → List Token → ExprId → Prop where
  | noDeclaration {rest first} : Derives .declarations rest first [] rest first
  | moreDeclarations {input first statement middle id statements rest next}
      (head : Derives .declaration input first statement middle id)
      (tail : Derives .declarations middle id statements rest next) :
      Derives .declarations input first (statement :: statements) rest next
  | classDeclaration {keyword name input first parent opening middle id methods closing rest next}
      (isClass : keyword.isWord .classWord) (named : name.kind = .identifier)
      (extended : Derives .superclass input first parent (opening :: middle) id)
      (opens : opening.isMark .leftBrace)
      (body : Derives .methods middle id methods (closing :: rest) next)
      (closes : closing.isMark .rightBrace) :
      Derives .declaration (keyword :: name :: input) first
        (.classDecl name parent methods) rest next
  | funDeclaration {keyword input first declaration rest next} (isFun : keyword.isWord .funWord)
      (body : Derives .function input first declaration rest next) :
      Derives .declaration (keyword :: input) first
        (.funDecl declaration) rest next
  | declareVariable {input first statement rest next}
      (declared : Derives .varDeclaration input first statement rest next) :
      Derives .declaration input first statement rest next
  | plainStatement {input first statement rest next}
      (stated : Derives .statement input first statement rest next) :
      Derives .declaration input first statement rest next
  | noSuperclass {rest first} : Derives .superclass rest first none rest first
  | superclassName {less name rest first} (isLess : less.isMark .less)
      (named : name.kind = .identifier) :
      Derives .superclass (less :: name :: rest) first
        (some (.name first name)) rest (first + 1)
  | noMethod {rest first} : Derives .methods rest first [] rest first
  | moreMethods {input first method middle id methods rest next}
      (head : Derives .function input first method middle id)
      (tail : Derives .methods middle id methods rest next) :
      Derives .methods input first (method :: methods) rest next
  | function {name opening input first names closing middle id body rest next}
      (named : name.kind = .identifier) (opens : opening.isMark .leftParen)
      (listed : Derives .parameterList input first names (closing :: middle) id)
      (closes : closing.isMark .rightParen)
      (executed : Derives .block middle id body rest next) :
      Derives .function (name :: opening :: input) first
        (.mk name names body) rest next
  | noParameter {rest first} : Derives .parameterList rest first [] rest first
  | someParameters {input first names rest next}
      (listed : Derives .parameters input first names rest next)
      (bounded : names.length ≤ Rule.maxArity) :
      Derives .parameterList input first names rest next
  | lastParameter {name rest first} (named : name.kind = .identifier) :
      Derives .parameters (name :: rest) first [name] rest first
  | moreParameters {name comma input first names rest next} (named : name.kind = .identifier)
      (separates : comma.isMark .comma)
      (others : Derives .parameters input first names rest next) :
      Derives .parameters (name :: comma :: input) first (name :: names) rest next
  | varDeclaration {keyword name input first initial semicolon rest next}
      (isVar : keyword.isWord .varWord) (named : name.kind = .identifier)
      (given : Derives .initialValue input first initial (semicolon :: rest) next)
      (ends : semicolon.isMark .semicolon) :
      Derives .varDeclaration (keyword :: name :: input) first
        (.varDecl name initial) rest next
  | noInitialValue {rest first} : Derives .initialValue rest first none rest first
  | someInitialValue {equals input first value rest next} (isEqual : equals.isMark .equal)
      (valued : Derives .expression input first value rest next) :
      Derives .initialValue (equals :: input) first (some value) rest next
  | expressionStatement {input first value semicolon rest next}
      (valued : Derives .expression input first value (semicolon :: rest) next)
      (ends : semicolon.isMark .semicolon) :
      Derives .expressionStatement input first (.expression value) rest next
  | stateExpression {input first statement rest next}
      (stated : Derives .expressionStatement input first statement rest next) :
      Derives .statement input first statement rest next
  | forStatement {keyword opening input first initial initialized afterInitial
      condition semicolon tested afterTest step closing stepped afterStep body rest next}
      (isFor : keyword.isWord .forWord) (opens : opening.isMark .leftParen)
      (initially :
        Derives .forInitial input first initial initialized afterInitial)
      (conditional :
        Derives .optionalExpression initialized afterInitial condition
          (semicolon :: tested) afterTest) (ends : semicolon.isMark .semicolon)
      (stepwise :
        Derives .optionalExpression tested afterTest step (closing :: stepped) afterStep)
      (closes : closing.isMark .rightParen)
      (repeated : Derives .statement stepped afterStep body rest next) :
      Derives .statement (keyword :: opening :: input) first
        (policy.loop initial condition step body) rest next
  | noForInitial {semicolon rest first} (ends : semicolon.isMark .semicolon) :
      Derives .forInitial (semicolon :: rest) first none rest first
  | forVariable {input first statement rest next}
      (declared : Derives .varDeclaration input first statement rest next) :
      Derives .forInitial input first (some statement) rest next
  | forExpression {input first statement rest next}
      (stated : Derives .expressionStatement input first statement rest next) :
      Derives .forInitial input first (some statement) rest next
  | ifThen {keyword opening input first condition closing middle id yes rest next}
      (isIf : keyword.isWord .ifWord) (opens : opening.isMark .leftParen)
      (conditional :
        Derives .expression input first condition (closing :: middle) id)
      (closes : closing.isMark .rightParen)
      (chosen : Derives .statement middle id yes rest next)
      (settled :
        policy.elses = .nearest → isAhead (·.isWord .elseWord) rest = false) :
      Derives .statement (keyword :: opening :: input) first
        (.ifElse condition yes none) rest next
  | ifElse {keyword opening input first condition closing middle id yes
      alternative afterYes afterId no rest next} (isIf : keyword.isWord .ifWord)
      (opens : opening.isMark .leftParen)
      (conditional :
        Derives .expression input first condition (closing :: middle) id)
      (closes : closing.isMark .rightParen)
      (chosen : Derives .statement middle id yes (alternative :: afterYes) afterId)
      (isElse : alternative.isWord .elseWord)
      (otherwise : Derives .statement afterYes afterId no rest next) :
      Derives .statement (keyword :: opening :: input) first
        (.ifElse condition yes (some no)) rest next
  | printStatement {keyword input first value semicolon rest next}
      (isPrint : keyword.isWord .printWord)
      (valued : Derives .expression input first value (semicolon :: rest) next)
      (ends : semicolon.isMark .semicolon) :
      Derives .statement (keyword :: input) first (.print value) rest next
  | returnStatement {keyword input first value semicolon rest next}
      (isReturn : keyword.isWord .returnWord)
      (valued :
        Derives .optionalExpression input first value (semicolon :: rest) next)
      (ends : semicolon.isMark .semicolon) :
      Derives .statement (keyword :: input) first
        (.returnValue keyword value) rest next
  | whileStatement {keyword opening input first condition closing middle id body rest next}
      (isWhile : keyword.isWord .whileWord) (opens : opening.isMark .leftParen)
      (conditional :
        Derives .expression input first condition (closing :: middle) id)
      (closes : closing.isMark .rightParen)
      (repeated : Derives .statement middle id body rest next) :
      Derives .statement (keyword :: opening :: input) first
        (.whileLoop condition body) rest next
  | blockStatement {input first body rest next}
      (enclosed : Derives .block input first body rest next) :
      Derives .statement input first (.block body) rest next
  | block {opening input first body closing rest next} (opens : opening.isMark .leftBrace)
      (declared : Derives .declarations input first body (closing :: rest) next)
      (closes : closing.isMark .rightBrace) :
      Derives .block (opening :: input) first body rest next
  | noExpression {rest first} :
      Derives .optionalExpression rest first none rest first
  | someExpression {input first value rest next}
      (valued : Derives .expression input first value rest next) :
      Derives .optionalExpression input first (some value) rest next
  | assignName {name equals input first value rest next} (named : name.kind = .identifier)
      (isEqual : equals.isMark .equal)
      (valued : Derives .expression input (first + 1) value rest next) :
      Derives .expression (name :: equals :: input) first
        (.assign next name value) rest (next + 1)
  | assignProperty {input first object dot property equals middle id value rest next}
      (owned :
        Derives .call input first object (dot :: property :: equals :: middle) id)
      (isDot : dot.isMark .dot) (named : property.kind = .identifier)
      (isEqual : equals.isMark .equal)
      (valued : Derives .expression middle id value rest next) :
      Derives .expression input first (.set object property value) rest next
  | unassigned {input first value rest next}
      (valued : Derives (.level .disjunction) input first value rest next) :
      Derives .expression input first value rest next
  | singleOperand {level input first value rest next}
      (valued : Derives (.operand level) input first value rest next) :
      Derives (.level level) input first value rest next
  | operation {level input first left operator middle id right rest next}
      (joined : Derives (.level level) input first left (operator :: middle) id)
      (operates : level.operates operator)
      (valued : Derives (.operand level) middle id right rest next) :
      Derives (.level level) input first (level.join left operator right) rest next
  | tighter {level tighter input first value rest next} (follows : level.tighter? = some tighter)
      (valued : Derives (.level tighter) input first value rest next) :
      Derives (.operand level) input first value rest next
  | tightest {level input first value rest next} (last : level.tighter? = none)
      (valued : Derives .unary input first value rest next) :
      Derives (.operand level) input first value rest next
  | negated {operator input first value rest next} (negates : isAnyMark [.bang, .minus] operator)
      (valued : Derives .unary input first value rest next) :
      Derives .unary (operator :: input) first (.unary operator value) rest next
  | unnegated {input first value rest next}
      (valued : Derives .call input first value rest next) :
      Derives .unary input first value rest next
  | uncalled {input first value rest next}
      (valued : Derives .primary input first value rest next) :
      Derives .call input first value rest next
  | callArguments {input first callee opening middle id arguments closing rest next}
      (called : Derives .call input first callee (opening :: middle) id)
      (opens : opening.isMark .leftParen)
      (listed : Derives .argumentList middle id arguments (closing :: rest) next)
      (closes : closing.isMark .rightParen) :
      Derives .call input first (.call callee closing arguments) rest next
  | callProperty {input first object dot property rest next}
      (owned : Derives .call input first object (dot :: property :: rest) next)
      (isDot : dot.isMark .dot) (named : property.kind = .identifier) :
      Derives .call input first (.get object property) rest next
  | noArgument {rest first} : Derives .argumentList rest first [] rest first
  | someArguments {input first values rest next}
      (listed : Derives .arguments input first values rest next)
      (bounded : values.length ≤ Rule.maxArity) :
      Derives .argumentList input first values rest next
  | lastArgument {input first value rest next}
      (valued : Derives .expression input first value rest next) :
      Derives .arguments input first [value] rest next
  | moreArguments {input first value comma middle id values rest next}
      (valued : Derives .expression input first value (comma :: middle) id)
      (separates : comma.isMark .comma)
      (others : Derives .arguments middle id values rest next) :
      Derives .arguments input first (value :: values) rest next
  | constant {token value rest first} (stands : constant? token = some value) :
      Derives .primary (token :: rest) first (.literal value) rest first
  | receiver {keyword rest first} (isThis : keyword.isWord .thisWord) :
      Derives .primary (keyword :: rest) first (.receiver first keyword) rest (first + 1)
  | name {token rest first} (named : token.kind = .identifier) :
      Derives .primary (token :: rest) first (.name first token) rest (first + 1)
  | grouping {opening input first inner closing rest next} (opens : opening.isMark .leftParen)
      (valued : Derives .expression input first inner (closing :: rest) next)
      (closes : closing.isMark .rightParen) :
      Derives .primary (opening :: input) first (.grouping inner) rest next

end

namespace Derives

variable {policy : Policy} {goal : Nonterminal} {input rest : List Token}
  {first next : ExprId} {tree : goal.Tree}

section

variable (derivation : Derives policy goal input first tree rest next)

include derivation

/-- A derivation takes tokens from the front only. -/
theorem length_le : rest.length + (if goal.nullable then 0 else 1) ≤ input.length := by
  induction derivation with
  | _ =>
    simp only [Nonterminal.nullable, List.length_cons, Bool.false_eq_true, if_true, if_false] at *
    omega

/-- What cannot be empty takes a token. -/
theorem length_lt (taking : goal.nullable = false) : rest.length < input.length := by
  have shorter := derivation.length_le
  simp only [taking, Bool.false_eq_true, if_false] at shorter
  exact shorter

/-- What follows a part is part of the input. -/
theorem subset : rest ⊆ input := by
  induction derivation with
  | forStatement _ _ _ _ _ _ _ _ initially conditional stepwise repeated =>
    have conditional := (List.cons_subset.mp conditional).2
    have stepwise := (List.cons_subset.mp stepwise).2
    have begun := List.Subset.trans conditional initially
    have advanced := List.Subset.trans stepwise begun
    exact List.subset_cons_of_subset _ (List.subset_cons_of_subset _
      (List.Subset.trans repeated advanced))
  | _ => grind

/-- Ids are handed out in increasing order. -/
theorem first_le : first ≤ next := by
  induction derivation with
  | _ =>
    unfold ExprId at *
    omega

end

end Derives

end Treewalk.Grammar
