import Treewalk.Grammar.Cursor

/-!
# The grammar of expressions

Each level of precedence is a rule built from the next tighter one, and the
tightest of them, parentheses and arguments, need the rule for expressions
again.  The rules below take that rule as a parameter, and a limit for their
loops; `expressionWithin` ties the knot.  Since at least one token is read
between two uses of the knot, a limit of as many uses as there are tokens
ahead is never felt: with no token ahead an expression is missing anyway.

Binary operators associate to the left, assignment to the right.  Only a name
or a property can be assigned to; any other target is noted as a fault and the
tree of the target stands for the whole.
-/

namespace Treewalk.Grammar

open Rule

/-- The token is one of some punctuators. -/
def isAnyMark (marks : List Punctuator) (token : Token) : Bool :=
  match token.kind with
  | .punctuator mark => marks.contains mark
  | _ => false

/-- Further operands joined to a tree by operators of one level. -/
def chainMore (join : Expr → Token → Expr → Expr) (test : Token → Bool)
    (operand : Rule Expr) : Nat → Expr → Rule Expr
  | 0, left => pure left
  | rounds + 1, left => do
      match ← takeIf test with
      | none => return left
      | some operator =>
        let right ← operand
        chainMore join test operand rounds (join left operator right)

/-- A level of left-associative operators over a tighter level. -/
def chain (join : Expr → Token → Expr → Expr) (test : Token → Bool)
    (limit : Nat) (operand : Rule Expr) : Rule Expr := do
  let first ← operand
  chainMore join test operand limit first

/-- A variable is read under its name. -/
def nameRead (token : Token) : Rule Expr := do
  let id ← freshId
  return .name id token

/-- The receiver is read. -/
def receiverRead (keyword : Token) : Rule Expr := do
  let id ← freshId
  return .receiver id keyword

/-- The rest of an expression in parentheses. -/
def finishGrouping (expression : Rule Expr) : Rule Expr := do
  let inner ← expression
  let _ ← expectMark .rightParen .groupingClosing
  return .grouping inner

/-- Constants, names, the receiver and parenthesised expressions. -/
def primary (expression : Rule Expr) : Rule Expr := fun cursor =>
  match cursor.ahead with
  | [] => fail .expression cursor
  | token :: rest =>
    let next := { cursor with ahead := rest }
    match token.kind with
    | .keyword .falseWord => .ok (.literal (.boolean false)) next
    | .keyword .trueWord => .ok (.literal (.boolean true)) next
    | .keyword .nilWord => .ok (.literal .nil) next
    | .number value => .ok (.literal (.number value)) next
    | .string text => .ok (.literal (.string text)) next
    | .keyword .thisWord => receiverRead token next
    | .identifier => nameRead token next
    | .punctuator .leftParen => finishGrouping expression next
    | _ => fail .expression cursor

/-- The arguments of a call and the parenthesis that closes them. -/
def finishCall (limit : Nat) (expression : Rule Expr) (callee : Expr) :
    Rule Expr := do
  let arguments ← listed limit .tooManyArguments expression
  let closing ← expectMark .rightParen .argumentsClosing
  return .call callee closing arguments

/-- Calls and property reads that follow a primary expression. -/
def callMore (limit : Nat) (expression : Rule Expr) : Nat → Expr → Rule Expr
  | 0, callee => pure callee
  | rounds + 1, callee => do
      match ← takeIf (isAnyMark [.leftParen, .dot]) with
      | none => return callee
      | some token =>
        if token.isMark .leftParen then
          let called ← finishCall limit expression callee
          callMore limit expression rounds called
        else
          let property ← expectName .propertyName
          callMore limit expression rounds (.get callee property)

/-- A primary expression with the calls and property reads after it. -/
def call (limit : Nat) (expression : Rule Expr) : Rule Expr := do
  let callee ← primary expression
  callMore limit expression limit callee

/-- Operators in front of an operand. -/
def unary (limit : Nat) (expression : Rule Expr) : Rule Expr := do
  let operators ← Rule.takeWhile (isAnyMark [.bang, .minus])
  let operand ← call limit expression
  return operators.foldr Expr.unary operand

/-- Products and quotients. -/
def factor (limit : Nat) (expression : Rule Expr) : Rule Expr :=
  chain .binary (isAnyMark [.star, .slash]) limit (unary limit expression)

/-- Sums and differences. -/
def term (limit : Nat) (expression : Rule Expr) : Rule Expr :=
  chain .binary (isAnyMark [.minus, .plus]) limit (factor limit expression)

/-- Order comparisons. -/
def comparison (limit : Nat) (expression : Rule Expr) : Rule Expr :=
  chain .binary (isAnyMark [.greater, .greaterEqual, .less, .lessEqual]) limit
    (term limit expression)

/-- Equality comparisons. -/
def equality (limit : Nat) (expression : Rule Expr) : Rule Expr :=
  chain .binary (isAnyMark [.bangEqual, .equalEqual]) limit (comparison limit expression)

/-- Conjunctions. -/
def conjunction (limit : Nat) (expression : Rule Expr) : Rule Expr :=
  chain .logical (fun token => token.isWord .andWord) limit (equality limit expression)

/-- Disjunctions. -/
def disjunction (limit : Nat) (expression : Rule Expr) : Rule Expr :=
  chain .logical (fun token => token.isWord .orWord) limit (conjunction limit expression)

/-- An assignment, or an expression that none follows. -/
def assignment (limit : Nat) (expression : Rule Expr) : Rule Expr := do
  let target ← disjunction limit expression
  match ← takeMark .equal with
  | none => return target
  | some equals =>
    let value ← expression
    match target with
    | .name _ token =>
      let id ← freshId
      return .assign id token value
    | .get object property => return .set object property value
    | other =>
      noteAt .invalidTarget equals
      return other

/-- Expressions of at most a given number of tokens. -/
def expressionWithin : Nat → Rule Expr
  | 0 => fail .expression
  | limit + 1 => fun cursor =>
    assignment limit (expressionWithin limit) cursor

end Treewalk.Grammar
