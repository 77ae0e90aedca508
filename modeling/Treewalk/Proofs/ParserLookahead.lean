import Treewalk.Proofs.Derivation

/-!
# First and following tokens

What a nonterminal derives starts with one of few tokens, and a token that
follows an expression either extends it or ends it.  These facts decide every
choice that a rule makes by looking at the next token.
-/

namespace Treewalk.Grammar

/-- The token can start a primary expression. -/
def startsPrimary (token : Token) : Bool :=
  match token.kind with
  | .keyword .falseWord => true
  | .keyword .trueWord => true
  | .keyword .nilWord => true
  | .keyword .thisWord => true
  | .number _ => true
  | .string _ => true
  | .identifier => true
  | .punctuator .leftParen => true
  | _ => false

/-- The token can start an expression. -/
def startsExpression (token : Token) : Bool :=
  isAnyMark [.bang, .minus] token || startsPrimary token

/-- The token can start a statement. -/
def startsStatement (token : Token) : Bool :=
  match token.kind with
  | .keyword .forWord => true
  | .keyword .ifWord => true
  | .keyword .printWord => true
  | .keyword .returnWord => true
  | .keyword .whileWord => true
  | .punctuator .leftBrace => true
  | _ => startsExpression token

/-- The token can start a declaration. -/
def startsDeclaration (token : Token) : Bool :=
  match token.kind with
  | .keyword .classWord => true
  | .keyword .funWord => true
  | .keyword .varWord => true
  | _ => startsStatement token

/-- The token can start what a nonterminal derives, if that is not empty. -/
def Nonterminal.starts : Nonterminal → Token → Bool
  | declaration => startsDeclaration
  | function => fun token => token.kind == .identifier
  | parameters => fun token => token.kind == .identifier
  | varDeclaration => fun token => token.isWord .varWord
  | statement => startsStatement
  | expressionStatement => startsExpression
  | block => fun token => token.isMark .leftBrace
  | expression => startsExpression
  | level _ => startsExpression
  | operand _ => startsExpression
  | unary => startsExpression
  | call => startsPrimary
  | arguments => startsExpression
  | primary => startsPrimary
  | _ => fun _ => true

variable {token : Token} {input : List Token} {level : Level}

theorem startsPrimary_of_constant {value : Literal} (stands : constant? token = some value) :
    startsPrimary token := by
  unfold constant? at stands
  unfold startsPrimary
  split at stands <;> simp_all

theorem startsExpression_of_primary (starts : startsPrimary token) : startsExpression token := by
  simp [startsExpression, starts]

/-- What starts an expression starts a statement. -/
theorem startsStatement_of_expression (starts : startsExpression token) :
    startsStatement token := by
  unfold startsStatement
  split <;> first | rfl | exact starts

theorem startsDeclaration_of_statement (starts : startsStatement token) :
    startsDeclaration token := by
  unfold startsDeclaration
  split <;> first | rfl | exact starts

theorem isAhead_imp {test other : Token → Bool}
    (implies : ∀ token, test token = true → other token = true) (ahead : isAhead test input = true)
    : isAhead other input = true := by
  cases input with
  | nil => cases ahead
  | cons token tail => exact implies token ahead

/-- A token that passes one test fails what this excludes. -/
theorem isAhead_excludes {test other : Token → Bool}
    (excludes : ∀ token, test token = true → other token = false)
    (ahead : isAhead test input = true) : isAhead other input = false := by
  cases input with
  | nil => rfl
  | cons token tail => exact excludes token ahead

/-- A derivation that takes tokens starts with one of its own. -/
theorem Derives.isAhead_starts {policy : Policy} {goal : Nonterminal} {rest : List Token}
    {first next : ExprId} {tree : goal.Tree}
    (derivation : Derives policy goal input first tree rest next) (taking : goal.nullable = false) :
    isAhead goal.starts input = true := by
  induction derivation with
  | classDeclaration isClass | funDeclaration isClass =>
    simp [isAhead, Nonterminal.starts, startsDeclaration, kind_of_isWord isClass]
  | declareVariable _ declared =>
    refine isAhead_imp ?_ (declared rfl)
    intro token isVar
    simp [Nonterminal.starts, startsDeclaration, kind_of_isWord isVar]
  | plainStatement _ stated =>
    exact isAhead_imp (fun _ => startsDeclaration_of_statement) (stated rfl)
  | function named | lastParameter named | moreParameters named =>
    simp [isAhead, Nonterminal.starts, named]
  | varDeclaration isVar => exact isVar
  | expressionStatement _ _ valued | unassigned _ valued | singleOperand _ valued
  | operation _ _ _ valued | tighter _ _ valued | tightest _ _ valued | uncalled _ valued
  | callArguments _ _ _ _ valued | callProperty _ _ _ valued | lastArgument _ valued
  | moreArguments _ _ _ valued => exact valued rfl
  | stateExpression _ stated =>
    exact isAhead_imp (fun _ => startsStatement_of_expression) (stated rfl)
  | forStatement isFor | ifThen isFor | ifElse isFor | printStatement isFor
  | returnStatement isFor | whileStatement isFor =>
    simp [isAhead, Nonterminal.starts, startsStatement, kind_of_isWord isFor]
  | blockStatement _ enclosed =>
    refine isAhead_imp ?_ (enclosed rfl)
    intro token opens
    simp [Nonterminal.starts, startsStatement, kind_of_isMark opens]
  | block opens => exact opens
  | noForInitial => rfl
  | forVariable _ declared | forExpression _ declared =>
    exact isAhead_imp (fun _ _ => rfl) (declared rfl)
  | assignName named => simp [isAhead, Nonterminal.starts, startsExpression, startsPrimary, named]
  | assignProperty _ _ _ _ _ owned | unnegated _ owned =>
    exact isAhead_imp (fun _ => startsExpression_of_primary) (owned rfl)
  | negated negates => simp [isAhead, Nonterminal.starts, startsExpression, negates]
  | constant stands => exact startsPrimary_of_constant stands
  | receiver isThis => simp [isAhead, Nonterminal.starts, startsPrimary, kind_of_isWord isThis]
  | name named => simp [isAhead, Nonterminal.starts, startsPrimary, named]
  | grouping opens => simp [isAhead, Nonterminal.starts, startsPrimary, kind_of_isMark opens]
  | _ => cases taking

/-- The strictly tighter levels. -/
def Level.above : Level → List Level
  | disjunction => [conjunction, equality, comparison, term, factor]
  | conjunction => [equality, comparison, term, factor]
  | equality => [comparison, term, factor]
  | comparison => [term, factor]
  | term => [factor]
  | factor => []

/-- The token extends a call. -/
def extendsCall : Token → Bool :=
  isAnyMark [.leftParen, .dot]

/-- The token extends an operand of a level. -/
def extendsOperand (level : Level) (token : Token) : Bool :=
  level.above.any (·.operates token) || extendsCall token

/-- The token extends an expression. -/
def extendsExpression (token : Token) : Bool :=
  token.isMark .equal || Level.disjunction.operates token || extendsOperand .disjunction token

theorem extendsOperand_of_tighter {tighter : Level} (follows : level.tighter? = some tighter)
    (token : Token) :
    extendsOperand level token = (tighter.operates token || extendsOperand tighter token) := by
  cases level <;> cases follows <;> simp [extendsOperand, Level.above, Bool.or_assoc]

theorem extendsOperand_of_tightest (last : level.tighter? = none) (token : Token) :
    extendsOperand level token = extendsCall token := by
  cases level <;> cases last
  rfl

theorem extendsOperand_of_operates (operates : level.operates token) :
    extendsOperand level token = false := by
  revert operates
  unfold extendsOperand extendsCall
  cases kind : token.kind with
  | punctuator mark =>
    cases level <;> cases mark <;> simp [Level.operates, Level.above, isAnyMark, Token.isWord, kind]
  | keyword word =>
    cases level <;> simp [Level.operates, Level.above, isAnyMark, Token.isWord, kind] <;>
      rintro rfl <;> simp
  | _ => cases level <;> simp [Level.operates, isAnyMark, Token.isWord, kind]

/-- These marks extend no expression. -/
theorem extendsExpression_of_isMark {mark : Punctuator} (marked : token.isMark mark)
    (ends : mark ∈ [Punctuator.semicolon, .rightParen, .comma]) :
    extendsExpression token = false := by
  have kind := kind_of_isMark marked
  simp only [List.mem_cons, List.not_mem_nil, or_false] at ends
  rcases ends with rfl | rfl | rfl <;>
    simp [extendsExpression, extendsOperand, extendsCall, Level.above,
      Level.operates, isAnyMark, Token.isMark, Token.isWord, kind]

/-- The marks and words that an expression can start with. -/
theorem kind_of_startsExpression (starts : startsExpression token) :
    (∀ mark, token.isMark mark → mark ∈ [Punctuator.bang, .minus, .leftParen]) ∧
    (∀ word, token.isWord word → word ∈ [Keyword.falseWord, .trueWord, .nilWord, .thisWord]) := by
  constructor
  · intro mark marked
    have kind := kind_of_isMark marked
    revert starts
    cases mark <;> simp [startsExpression, startsPrimary, isAnyMark, kind]
  · intro word reserved
    have kind := kind_of_isWord reserved
    revert starts
    cases word <;> simp [startsExpression, startsPrimary, isAnyMark, kind]

end Treewalk.Grammar
