import Treewalk.Proofs.ParserLookahead
import Treewalk.Proofs.RuleAcceptance

/-!
# The parser reads all that the grammar derives

Tokens that derive a nonterminal are read by its rule without a fault, down to
the tokens that follow them, if these cannot extend what was read.  The limits
of the rules are never felt: a rule with a limit of at least the number of
tokens ahead always has rounds left when a token is left to take.
-/

namespace Treewalk.Grammar

open Rule

/-! ## Rules for the levels of operators -/

/-- The rule for a level of operators. -/
def levelRule : Level → Nat → Rule Expr → Rule Expr
  | .disjunction => disjunction
  | .conjunction => conjunction
  | .equality => equality
  | .comparison => comparison
  | .term => term
  | .factor => factor

/-- The rule for the operands of a level. -/
def operandRule : Level → Nat → Rule Expr → Rule Expr
  | .disjunction => conjunction
  | .conjunction => equality
  | .equality => comparison
  | .comparison => term
  | .term => factor
  | .factor => unary

theorem levelRule_eq_chain (level : Level) (limit : Nat) (expr : Rule Expr) :
    levelRule level limit expr = chain level.join level.operates limit
        (operandRule level limit expr) := by
  cases level <;> rfl

variable {limit : Nat} {mark : Punctuator} {tree : Expr} {level : Level}
  {token keyword opening : Token} {rule : Rule Stmt}

theorem operandRule_of_tighter {tighter : Level} (follows : level.tighter? = some tighter) :
    operandRule level = levelRule tighter := by
  cases level <;> cases follows <;> rfl

theorem operandRule_of_tightest (last : level.tighter? = none) : operandRule level = unary := by
  cases level <;> cases last
  rfl

/-- A chain of operations has been read up to some tokens, with rounds left. -/
def ChainReaches (level : Level) (limit : Nat) (input : List Token)
    (first : ExprId) (tree : Expr) (rest : List Token) (next : ExprId) :
    Prop :=
  ∃ rounds, limit + 1 + rest.length ≤ rounds + input.length ∧ ∀ ending errors,
      levelRule level limit (expressionWithin limit) ⟨input, ending, first, errors⟩ =
        chainMore level.join level.operates
          (operandRule level limit (expressionWithin limit)) rounds tree
          ⟨rest, ending, next, errors⟩

/-- Calls have been read up to some tokens, with rounds left. -/
def CallReaches (limit : Nat) (input : List Token) (first : ExprId)
    (tree : Expr) (rest : List Token) (next : ExprId) : Prop :=
  ∃ rounds, limit + 1 + rest.length ≤ rounds + input.length ∧ ∀ ending errors,
      call limit (expressionWithin limit) ⟨input, ending, first, errors⟩ =
        callMore limit (expressionWithin limit) rounds tree ⟨rest, ending, next, errors⟩

theorem filterMap_id_map_some (stmts : List Stmt) : (stmts.map some).filterMap id = stmts := by
  simp

variable {input middle rest : List Token} {first id next : ExprId}

theorem ChainReaches.accepts (reaches : ChainReaches level limit input first tree rest next)
    (ended : isAhead level.operates rest = false) :
    Accepts (levelRule level limit (expressionWithin limit)) input first tree rest next := by
  intro ending errors
  rcases reaches with ⟨rounds, _, reached⟩
  rw [reached]
  cases rounds with
  | zero => rfl
  | succ rounds => exact ((Accepts.takeIf_none ended).bind (.pure tree)) ending errors

/-- Calls end where neither a parenthesis nor a dot is ahead. -/
theorem CallReaches.accepts (reaches : CallReaches limit input first tree rest next)
    (ended : isAhead extendsCall rest = false) :
    Accepts (call limit (expressionWithin limit)) input first tree rest next := by
  intro ending errors
  rcases reaches with ⟨rounds, _, reached⟩
  rw [reached]
  cases rounds with
  | zero => rfl
  | succ rounds => exact ((Accepts.takeIf_none ended).bind (.pure tree)) ending errors

theorem chainReaches_single (shorter : rest.length < input.length)
    (operand : Accepts (operandRule level limit (expressionWithin limit)) input
      first tree rest next) : ChainReaches level limit input first tree rest next := by
  refine ⟨limit, by omega, ?_⟩
  intro ending errors
  rw [levelRule_eq_chain]
  simp only [chain, Bind.bind, EStateM.bind, operand ending errors]

/-- A chain that is reached goes on with an operator. -/
theorem ChainReaches.operation {level : Level} {limit : Nat} {left right : Expr} {op : Token}
    (short : input.length ≤ limit + 1)
    (reaches : ChainReaches level limit input first left (op :: middle) id)
    (operates : level.operates op) (shorter : rest.length < middle.length)
    (operand : Accepts (operandRule level limit (expressionWithin limit))
      middle id right rest next) :
    ChainReaches level limit input first (level.join left op right) rest next := by
  rcases reaches with ⟨rounds, enough, reached⟩
  simp only [List.length_cons] at enough
  cases rounds with
  | zero => omega
  | succ rounds =>
    refine ⟨rounds, by omega, ?_⟩
    intro ending errors
    rw [reached]
    simp only [chainMore, Bind.bind, EStateM.bind,
      Accepts.takeIf_some operates ending errors, operand ending errors]

theorem callReaches_primary (shorter : rest.length < input.length)
    (primary : Accepts (primary (expressionWithin limit)) input first tree rest next) :
    CallReaches limit input first tree rest next := by
  refine ⟨limit, by omega, ?_⟩
  intro ending errors
  simp only [call, Bind.bind, EStateM.bind, primary ending errors]

/-- A call that is reached goes on with arguments. -/
theorem CallReaches.arguments {limit : Nat} {callee : Expr}
    {values : List Expr} {opening closing : Token} (short : input.length ≤ limit + 1)
    (reaches : CallReaches limit input first callee (opening :: middle) id)
    (opens : opening.isMark .leftParen) (shorter : rest.length < middle.length)
    (listed : Accepts (listed limit .tooManyArguments (expressionWithin limit)) middle id
      values (closing :: rest) next) (closes : closing.isMark .rightParen) :
    CallReaches limit input first (.call callee closing values) rest next := by
  rcases reaches with ⟨rounds, enough, reached⟩
  simp only [List.length_cons] at enough
  have either : isAnyMark [.leftParen, .dot] opening := by
    simp [isAnyMark, kind_of_isMark opens]
  have finished : Accepts (finishCall limit (expressionWithin limit) callee)
      middle id (.call callee closing values) rest next :=
    listed.bind ((Accepts.expectMark .argumentsClosing closes).bind (.pure _))
  cases rounds with
  | zero => omega
  | succ rounds =>
    refine ⟨rounds, by omega, ?_⟩
    intro ending errors
    rw [reached]
    simp only [callMore, Bind.bind, EStateM.bind,
      Accepts.takeIf_some either ending errors, opens, if_true, finished ending errors]

/-- A call that is reached goes on with a property. -/
theorem CallReaches.property {limit : Nat} {object : Expr} {dot property : Token}
    (short : input.length ≤ limit + 1)
    (reaches : CallReaches limit input first object (dot :: property :: rest) next)
    (isDot : dot.isMark .dot) (named : property.kind = .identifier) :
    CallReaches limit input first (.get object property) rest next := by
  rcases reaches with ⟨rounds, enough, reached⟩
  simp only [List.length_cons] at enough
  have either : isAnyMark [.leftParen, .dot] dot := by
    simp [isAnyMark, kind_of_isMark isDot]
  have notOpening : dot.isMark .leftParen = false := by
    simp [Token.isMark, kind_of_isMark isDot]
  cases rounds with
  | zero => omega
  | succ rounds =>
    refine ⟨rounds, by omega, ?_⟩
    intro ending errors
    rw [reached]
    simp [callMore, Bind.bind, EStateM.bind, Accepts.takeIf_some either ending errors, notOpening,
      Accepts.expectName .propertyName named ending errors]

theorem accepts_unary (starts : isAhead startsPrimary input = true)
    (called : Accepts (call limit (expressionWithin limit)) input first tree rest next) :
    Accepts (unary limit (expressionWithin limit)) input first tree rest next := by
  have unprefixed : isAhead (isAnyMark [.bang, .minus]) input = false := by
    refine isAhead_excludes ?_ starts
    intro token primary
    unfold startsPrimary at primary
    split at primary <;> simp_all [isAnyMark]
  intro ending errors
  cases input with
  | nil => cases starts
  | cons token tail =>
    simp only [isAhead] at unprefixed
    simp only [unary, Rule.takeWhile, Bind.bind, EStateM.bind,
      List.takeWhile_cons, List.dropWhile_cons, unprefixed, Bool.false_eq_true,
      if_false, called ending errors]
    rfl

theorem accepts_negated {op : Token} (negates : isAnyMark [.bang, .minus] op)
    (valued : Accepts (unary limit (expressionWithin limit)) input first tree rest next) :
    Accepts (unary limit (expressionWithin limit)) (op :: input) first
      (.unary op tree) rest next := by
  intro ending errors
  have inner := valued ending errors
  simp only [unary, Rule.takeWhile, Bind.bind, EStateM.bind] at inner
  simp only [unary, Rule.takeWhile, Bind.bind, EStateM.bind,
    List.takeWhile_cons, List.dropWhile_cons, negates, if_true]
  split at inner
  · cases inner
    rfl
  · cases inner

/-- A call in front of an equals sign is read as the target of an assignment. -/
theorem CallReaches.accepts_target {equals : Token}
    (reaches : CallReaches limit input first tree (equals :: rest) next)
    (starts : isAhead startsPrimary input = true) (shorter : (equals :: rest).length < input.length)
    (isEqual : equals.isMark .equal) :
    Accepts (disjunction limit (expressionWithin limit)) input first tree
      (equals :: rest) next := by
  have uncalled : isAhead extendsCall (equals :: rest) = false := by
    simp [isAhead, extendsCall, isAnyMark, kind_of_isMark isEqual]
  have unjoined (level : Level) : isAhead level.operates (equals :: rest) = false := by
    cases level <;> simp [isAhead, Level.operates, isAnyMark, Token.isWord, kind_of_isMark isEqual]
  have step (level : Level) (operand : Accepts (operandRule level limit (expressionWithin limit))
        input first tree (equals :: rest) next) :
      Accepts (levelRule level limit (expressionWithin limit)) input first tree
        (equals :: rest) next :=
    (chainReaches_single shorter operand).accepts (unjoined level)
  exact step .disjunction (step .conjunction (step .equality
    (step .comparison (step .term (step .factor
      (accepts_unary starts (reaches.accepts uncalled)))))))

/-! ## Rules that look at the next token -/

theorem accepts_recover {tree : Stmt} (read : Accepts rule input first tree rest next) :
    Accepts (recover rule) input first (some tree) rest next := by
  intro ending errors
  simp only [recover, read ending errors]

variable {expr : Rule Expr}

theorem accepts_primary_constant {value : Literal} (stands : constant? token = some value) :
    Accepts (primary expr) (token :: rest) first (.literal value) rest first := by
  intro ending errors
  unfold constant? at stands
  split at stands
  case h_6 => cases stands
  all_goals
    next kind =>
      cases stands
      simp only [primary, kind]

theorem accepts_primary_receiver (isThis : keyword.isWord .thisWord) :
    Accepts (primary expr) (keyword :: rest) first (.receiver first keyword) rest (first + 1) := by
  have read : Accepts (receiverRead keyword) rest first
      (.receiver first keyword) rest (first + 1) :=
    Accepts.freshId.bind (.pure _)
  intro ending errors
  simp only [primary, kind_of_isWord isThis, read ending errors]

theorem accepts_primary_name (named : token.kind = .identifier) :
    Accepts (primary expr) (token :: rest) first (.name first token) rest (first + 1) := by
  have read : Accepts (nameRead token) rest first (.name first token) rest (first + 1) :=
    Accepts.freshId.bind (.pure _)
  intro ending errors
  simp only [primary, named, read ending errors]

theorem accepts_primary_grouping {inner : Expr} {closing : Token}
    (opens : opening.isMark .leftParen)
    (valued : Accepts expr input first inner (closing :: rest) next)
    (closes : closing.isMark .rightParen) :
    Accepts (primary expr) (opening :: input) first (.grouping inner) rest next := by
  have read : Accepts (finishGrouping expr) input first (.grouping inner) rest next :=
    valued.bind ((Accepts.expectMark .groupingClosing closes).bind (.pure _))
  intro ending errors
  simp only [primary, kind_of_isMark opens, read ending errors]

theorem accepts_unlessSeen_none (seen : isAhead (·.isMark mark) input = true) :
    Accepts (unlessSeen mark expr) input first none input first := by
  refine (Accepts.sees mark).bind ?_
  rw [seen]
  exact .pure none

theorem accepts_unlessSeen_some {value : Expr}
    (unseen : isAhead (·.isMark mark) input = false)
    (valued : Accepts expr input first value rest next) :
    Accepts (unlessSeen mark expr) input first (some value) rest next := by
  refine (Accepts.sees mark).bind ?_
  rw [unseen]
  exact valued.bind (.pure (some value))

theorem accepts_parenthesised {cond : Expr} {closing : Token}
    (openingFault closingFault : GrammarFault) (opens : opening.isMark .leftParen)
    (valued : Accepts expr input first cond (closing :: rest) next)
    (closes : closing.isMark .rightParen) :
    Accepts (parenthesised openingFault closingFault expr)
      (opening :: input) first cond rest next :=
  (Accepts.expectMark openingFault opens).bind
    (valued.bind ((Accepts.expectMark closingFault closes).bind (.pure _)))

section

variable {stmt : Rule Stmt} {body : Rule (List Stmt)} {tree : Stmt}

/-- A keyword chooses the rule of a statement. -/
theorem accepts_statementRule_word {word : Keyword} (reserved : keyword.isWord word)
    (chosen : (word, rule) ∈ [(Keyword.forWord, forStatement expr stmt),
        (.ifWord, ifStatement expr stmt),
        (.whileWord, whileStatement expr stmt),
        (.returnWord, returnStatement expr keyword), (.printWord, printStatement expr)])
    (read : Accepts rule input first tree rest next) :
    Accepts (statementRule expr stmt body) (keyword :: input) first tree rest next := by
  intro ending errors
  have kind := kind_of_isWord reserved
  simp only [List.mem_cons, Prod.mk.injEq, List.not_mem_nil, or_false] at chosen
  rcases chosen with ⟨rfl, rfl⟩ | ⟨rfl, rfl⟩ | ⟨rfl, rfl⟩ | ⟨rfl, rfl⟩ | ⟨rfl, rfl⟩ <;>
    simp only [statementRule, kind, read ending errors]

theorem accepts_statementRule_block {stmts : List Stmt} (opens : opening.isMark .leftBrace)
    (read : Accepts body input first stmts rest next) :
    Accepts (statementRule expr stmt body) (opening :: input) first (.block stmts) rest next := by
  have enclosed : Accepts (blockStatement body) input first
      (.block stmts) rest next :=
    read.bind (.pure _)
  intro ending errors
  simp only [statementRule, kind_of_isMark opens, enclosed ending errors]

theorem accepts_statementRule_expression (starts : isAhead startsExpression input = true)
    (read : Accepts (expressionStatement expr) input first tree rest next) :
    Accepts (statementRule expr stmt body) input first tree rest next := by
  intro ending errors
  cases input with
  | nil => cases starts
  | cons token tail =>
    rcases kind_of_startsExpression starts with ⟨marks, words⟩
    unfold statementRule
    simp only
    split
    case h_7 => exact read ending errors
    case h_5 kind =>
      have impossible := marks .leftBrace (by simp [Token.isMark, kind])
      simp at impossible
    all_goals
      next kind =>
        have impossible := words _ (by simp [Token.isWord, kind]; rfl)
        simp at impossible

theorem accepts_declarationRule_word {word : Keyword} (reserved : keyword.isWord word)
    (chosen : (word, rule) ∈
      [(Keyword.classWord, classDeclaration limit body), (.funWord, funDeclaration limit body),
        (.varWord, varDeclaration expr)]) (read : Accepts rule input first tree rest next) :
    Accepts (declarationRule limit expr stmt body) (keyword :: input) first tree rest next := by
  intro ending errors
  have kind := kind_of_isWord reserved
  simp only [List.mem_cons, Prod.mk.injEq, List.not_mem_nil, or_false] at chosen
  rcases chosen with ⟨rfl, rfl⟩ | ⟨rfl, rfl⟩ | ⟨rfl, rfl⟩ <;>
    simp only [declarationRule, kind, read ending errors]

theorem accepts_declarationRule_statement (starts : isAhead startsStatement input = true)
    (read : Accepts stmt input first tree rest next) :
    Accepts (declarationRule limit expr stmt body) input first tree rest next := by
  intro ending errors
  cases input with
  | nil => cases starts
  | cons token tail =>
    unfold declarationRule
    simp only
    split
    case h_4 => exact read ending errors
    all_goals
      next kind =>
        simp [isAhead, startsStatement, startsExpression, startsPrimary, isAnyMark, kind] at starts

end

/-! ## Completeness -/

/-- A repetition of declarations stops at some tokens and not before. -/
structure StopsAt (stop : Cursor → Bool) (rest : List Token) : Prop where
  there : ∀ cursor : Cursor, cursor.ahead = rest → (cursor.atEnd || stop cursor) = true
  notBefore : ∀ cursor : Cursor, isAhead startsDeclaration cursor.ahead = true → stop cursor = false

/--
The rule of a nonterminal reads a derivation of it: with a limit that the
tokens ahead do not exceed, and if what follows does not extend it.
-/
def Complete : (goal : Nonterminal) → List Token → ExprId → goal.Tree → List Token → ExprId → Prop
  | .declarations, input, first, tree, rest, next =>
    ∀ limit rounds stop, input.length ≤ limit → input.length ≤ rounds → StopsAt stop rest →
        Accepts (repeatUntil stop (declarationWithin limit) rounds) input
          first (tree.map some) rest next
  | .declaration, input, first, tree, rest, next =>
    ∀ limit, input.length ≤ limit →
      Accepts (declarationWithin limit) input first (some tree) rest next
  | .superclass, input, first, tree, rest, next =>
    isAhead (·.isMark .leftBrace) rest = true →
      Accepts superclass input first tree rest next
  | .methods, input, first, tree, rest, next =>
    ∀ limit rounds, input.length ≤ limit → input.length ≤ rounds →
      isAhead (·.isMark .rightBrace) rest = true → Accepts
          (repeatUntil (·.sees .rightBrace)
            (callable limit .method (block limit (declarationWithin limit))) rounds)
          input first tree rest next
  | .function, input, first, tree, rest, next =>
    ∀ limit kind, input.length ≤ limit →
      Accepts (callable limit kind (block limit (declarationWithin limit)))
        input first tree rest next
  | .parameters, input, first, tree, rest, next =>
    ∀ rounds count, input.length ≤ rounds → count + tree.length ≤ maxArity →
      isAhead (·.isMark .rightParen) rest = true → Accepts
          (separated .tooManyParameters (expectName .parameterName) rounds count)
          input first tree rest next
  | .parameterList, input, first, tree, rest, next =>
    ∀ limit, input.length ≤ limit → isAhead (·.isMark .rightParen) rest = true →
        Accepts (listed limit .tooManyParameters (expectName .parameterName))
          input first tree rest next
  | .varDeclaration, input, first, tree, rest, next =>
    ∃ keyword tail, input = keyword :: tail ∧ keyword.isWord .varWord ∧
      ∀ limit, tail.length ≤ limit →
        Accepts (varDeclaration (expressionWithin limit)) tail first tree rest next
  | .initialValue, input, first, tree, rest, next =>
    ∀ limit, input.length ≤ limit → isAhead (·.isMark .semicolon) rest = true →
        Accepts (initialValue (expressionWithin limit)) input first tree rest next
  | .statement, input, first, tree, rest, next =>
    ∀ limit, input.length ≤ limit → Accepts (statementWithin limit) input first tree rest next
  | .expressionStatement, input, first, tree, rest, next =>
    ∀ limit, input.length ≤ limit →
      Accepts (expressionStatement (expressionWithin limit)) input first tree rest next
  | .forInitial, input, first, tree, rest, next =>
    ∀ limit, input.length ≤ limit →
      Accepts (forInitial (expressionWithin limit)) input first tree rest next
  | .block, input, first, tree, rest, next =>
    ∃ opening tail, input = opening :: tail ∧ opening.isMark .leftBrace ∧
      ∀ limit, tail.length ≤ limit →
        Accepts (block limit (declarationWithin limit)) tail first tree rest next
  | .optionalExpression, input, first, tree, rest, next =>
    ∀ limit mark, mark ∈ [Punctuator.semicolon, .rightParen] → input.length ≤ limit →
      isAhead (·.isMark mark) rest = true →
        Accepts (unlessSeen mark (expressionWithin limit)) input first tree rest next
  | .expression, input, first, tree, rest, next =>
    ∀ limit, input.length ≤ limit → isAhead extendsExpression rest = false →
      Accepts (expressionWithin limit) input first tree rest next
  | .level level, input, first, tree, rest, next =>
    ∀ limit, input.length ≤ limit + 1 → isAhead (extendsOperand level) rest = false →
        ChainReaches level limit input first tree rest next
  | .operand level, input, first, tree, rest, next =>
    ∀ limit, input.length ≤ limit + 1 → isAhead (extendsOperand level) rest = false →
        Accepts (operandRule level limit (expressionWithin limit)) input first tree rest next
  | .unary, input, first, tree, rest, next =>
    ∀ limit, input.length ≤ limit + 1 → isAhead extendsCall rest = false →
      Accepts (unary limit (expressionWithin limit)) input first tree rest next
  | .call, input, first, tree, rest, next =>
    ∀ limit, input.length ≤ limit + 1 → CallReaches limit input first tree rest next
  | .arguments, input, first, tree, rest, next =>
    ∀ limit rounds count, input.length ≤ limit → input.length ≤ rounds →
      count + tree.length ≤ maxArity → isAhead (·.isMark .rightParen) rest = true →
        Accepts (separated .tooManyArguments (expressionWithin limit) rounds count)
          input first tree rest next
  | .argumentList, input, first, tree, rest, next =>
    ∀ limit, input.length ≤ limit → isAhead (·.isMark .rightParen) rest = true →
        Accepts (listed limit .tooManyArguments (expressionWithin limit)) input first tree rest next
  | .primary, input, first, tree, rest, next =>
    ∀ limit, input.length ≤ limit + 1 →
      Accepts (primary (expressionWithin limit)) input first tree rest next

theorem startsDeclaration_of_identifier (named : (token.kind == .identifier) = true) :
    startsDeclaration token = true := by
  simp only [beq_iff_eq] at named
  simp [startsDeclaration, startsStatement, startsExpression, startsPrimary, named]

theorem StopsAt.continues {stop : Cursor → Bool} (stops : StopsAt stop rest)
    (starts : isAhead startsDeclaration input = true) (cursor : Cursor)
    (ahead : cursor.ahead = input) : (cursor.atEnd || stop cursor) = false := by
  rw [stops.notBefore cursor (by rw [ahead]; exact starts), Bool.or_false]
  subst ahead
  unfold Cursor.atEnd
  cases tokens : cursor.ahead with
  | nil =>
    rw [tokens] at starts
    cases starts
  | cons token tail => rfl

theorem stopsAt_rightBrace (closes : isAhead (·.isMark .rightBrace) rest = true) :
    StopsAt (·.sees .rightBrace) rest where
  there := by
    intro cursor ahead
    have seen : cursor.sees .rightBrace = true := by
      rw [← ahead] at closes
      exact closes
    rw [seen, Bool.or_true]
  notBefore := by
    intro cursor starts
    unfold Cursor.sees
    cases tokens : cursor.ahead with
    | nil => rfl
    | cons token tail =>
      rw [tokens] at starts
      simp only [isAhead] at starts
      refine Bool.eq_false_iff.mpr ?_
      intro closed
      simp [startsDeclaration, startsStatement, startsExpression,
        startsPrimary, isAnyMark, kind_of_isMark closed] at starts

/-- The reading of a whole program stops at its end only. -/
theorem stopsAt_end : StopsAt (fun _ => false) [] where
  there := by
    intro cursor ahead
    simp [Cursor.atEnd, ahead]
  notBefore := fun _ _ => rfl

theorem declarationWithin_succ (limit : Nat) : declarationWithin (limit + 1) =
      recover (declarationRule limit (expressionWithin (limit + 1))
        (statementWithin (limit + 1)) (block limit (declarationWithin limit))) :=
  rfl

theorem statementWithin_succ (limit : Nat) : statementWithin (limit + 1) =
      statementRule (expressionWithin (limit + 1)) (statementWithin limit)
        (block limit (declarationWithin limit)) :=
  rfl

theorem isAhead_or (test other : Token → Bool) (input : List Token) :
    isAhead (fun token => test token || other token) input =
      (isAhead test input || isAhead other input) := by
  cases input <;> rfl

/-- What ends an expression ends its operands. -/
theorem ended_of_not_extends (ended : isAhead extendsExpression rest = false) :
    isAhead (·.isMark .equal) rest = false ∧
      isAhead Level.disjunction.operates rest = false ∧
      isAhead (extendsOperand .disjunction) rest = false := by
  have parts : (isAhead (·.isMark .equal) rest ||
      isAhead Level.disjunction.operates rest ||
      isAhead (extendsOperand .disjunction) rest) = false := by
    rw [← isAhead_or, ← isAhead_or]
    exact ended
  simp only [Bool.or_eq_false_iff] at parts
  exact ⟨parts.1.1, parts.1.2, parts.2⟩

theorem ended_of_tighter {tighter : Level} (follows : level.tighter? = some tighter)
    (ended : isAhead (extendsOperand level) rest = false) :
    isAhead tighter.operates rest = false ∧ isAhead (extendsOperand tighter) rest = false := by
  rw [funext (extendsOperand_of_tighter follows), isAhead_or, Bool.or_eq_false_iff] at ended
  exact ended

theorem ended_of_mark (marked : token.isMark mark)
    (ends : mark ∈ [Punctuator.semicolon, .rightParen, .comma]) :
    isAhead extendsExpression (token :: rest) = false :=
  extendsExpression_of_isMark marked ends

/-- A mark is no other mark. -/
theorem isAhead_of_otherMark {other : Punctuator}
    (ahead : isAhead (·.isMark mark) input = true) (differs : mark ≠ other) :
    isAhead (·.isMark other) input = false := by
  refine isAhead_excludes ?_ ahead
  intro token marked
  simp [Token.isMark, kind_of_isMark marked, differs]

theorem isAhead_mark_of_startsExpression (starts : isAhead startsExpression input = true)
    (ends : mark ∈ [Punctuator.semicolon, .rightParen]) :
    isAhead (·.isMark mark) input = false := by
  refine isAhead_excludes ?_ starts
  intro token starting
  refine Bool.eq_false_iff.mpr ?_
  intro marked
  have allowed := (kind_of_startsExpression starting).1 mark marked
  revert ends allowed
  cases mark <;> simp

theorem isAhead_var_of_startsExpression (starts : isAhead startsExpression input = true) :
    isAhead (·.isWord .varWord) input = false := by
  refine isAhead_excludes ?_ starts
  intro token starting
  refine Bool.eq_false_iff.mpr ?_
  intro isVar
  have allowed := (kind_of_startsExpression starting).2 .varWord isVar
  simp at allowed

/-- The rule of a nonterminal reads all that derives it. -/
theorem Derives.complete {goal : Nonterminal} {tree : goal.Tree}
    (derivation : Derives .nearest goal input first tree rest next) :
    Complete goal input first tree rest next := by
  induction derivation with
  | noDeclaration =>
    intro limit rounds stop _ _ stops
    exact .repeatUntil_nil stops.there rounds
  | moreDeclarations head tail declared others =>
    intro limit rounds stop short enough stops
    have shorter := head.length_lt rfl
    cases rounds with
    | zero => omega
    | succ rounds =>
      exact .repeatUntil_cons (stops.continues (head.isAhead_starts rfl)) (declared limit short)
        (others limit rounds stop (by omega) (by omega) stops)
  | classDeclaration isClass named extended opens body closes parent methods =>
    intro limit short
    have shorter := extended.length_le
    simp only [List.length_cons] at short shorter
    cases limit with
    | zero => omega
    | succ limit =>
      rw [declarationWithin_succ]
      refine accepts_recover (accepts_declarationRule_word isClass (by simp; rfl) ?_)
      refine (Accepts.expectName .className named).bind ?_
      refine (parent opens).bind ?_
      refine (Accepts.expectMark .classOpening opens).bind ?_
      refine (methods limit limit (by omega) (by omega) closes).bind ?_
      exact (Accepts.expectMark .classClosing closes).bind (.pure _)
  | funDeclaration isFun _ function =>
    intro limit short
    simp only [List.length_cons] at short
    cases limit with
    | zero => omega
    | succ limit =>
      rw [declarationWithin_succ]
      refine accepts_recover (accepts_declarationRule_word isFun (by simp; rfl) ?_)
      exact (function limit .function (by omega)).bind (.pure _)
  | declareVariable _ declared =>
    intro limit short
    rcases declared with ⟨keyword, tail, rfl, isVar, accepts⟩
    simp only [List.length_cons] at short
    cases limit with
    | zero => omega
    | succ limit =>
      rw [declarationWithin_succ]
      exact accepts_recover (accepts_declarationRule_word isVar
        (by simp) (accepts (limit + 1) (by omega)))
  | plainStatement stated accepts =>
    intro limit short
    have shorter := stated.length_lt rfl
    cases limit with
    | zero => omega
    | succ limit =>
      rw [declarationWithin_succ]
      exact accepts_recover (accepts_declarationRule_statement
        (stated.isAhead_starts rfl) (accepts (limit + 1) short))
  | noSuperclass =>
    intro opens
    exact (Accepts.takeIf_none (isAhead_of_otherMark opens (by decide))).bind (.pure _)
  | superclassName isLess named =>
    intro _
    refine (Accepts.takeIf_some isLess).bind ?_
    refine (Accepts.expectName .superclassName named).bind ?_
    exact Accepts.freshId.bind (.pure _)
  | noMethod =>
    intro limit rounds _ _ closes
    exact .repeatUntil_nil (stopsAt_rightBrace closes).there rounds
  | moreMethods head tail method others =>
    intro limit rounds short enough closes
    have shorter := head.length_lt rfl
    have starts := isAhead_imp (fun _ => startsDeclaration_of_identifier) (head.isAhead_starts rfl)
    cases rounds with
    | zero => omega
    | succ rounds =>
      exact .repeatUntil_cons ((stopsAt_rightBrace closes).continues starts)
        (method limit .method short) (others limit rounds (by omega) (by omega) closes)
  | function named opens listed closes executed params body =>
    intro limit kind short
    rcases body with ⟨opening, tail, rfl, begins, accepts⟩
    have shorter := listed.length_le
    simp only [List.length_cons] at short shorter
    refine (Accepts.expectName (.callableName kind) named).bind ?_
    refine (Accepts.expectMark (.parametersOpening kind) opens).bind ?_
    refine (params limit (by omega) closes).bind ?_
    refine (Accepts.expectMark .parametersClosing closes).bind ?_
    refine (Accepts.expectMark (.bodyOpening kind) begins).bind ?_
    exact (accepts limit (by omega)).bind (.pure _)
  | noParameter | noArgument =>
    intro limit _ closes
    exact .listed_nil limit closes
  | someParameters listed bounded separated =>
    intro limit short closes
    refine .listed_separated ?_ (separated limit 0 short (by omega) closes)
    refine isAhead_excludes ?_ (listed.isAhead_starts rfl)
    intro token named
    simp only [Nonterminal.starts, beq_iff_eq] at named
    simp [Token.isMark, named]
  | lastParameter named =>
    intro rounds count _ bounded closes
    exact .separated_last bounded (Accepts.expectName .parameterName named)
      (isAhead_of_otherMark closes (by decide)) rounds
  | moreParameters named separates others accepts =>
    intro rounds count short bounded closes
    simp only [List.length_cons] at short bounded
    cases rounds with
    | zero => omega
    | succ rounds =>
      exact .separated_more (by omega) (Accepts.expectName .parameterName named) separates
        (accepts rounds (count + 1) (by omega) (by omega) closes)
  | varDeclaration isVar named given ends initial =>
    refine ⟨_, _, rfl, isVar, ?_⟩
    intro limit short
    simp only [List.length_cons] at short
    refine (Accepts.expectName .variableName named).bind ?_
    refine (initial limit (by omega) ends).bind ?_
    exact (Accepts.expectMark .variableEnd ends).bind (.pure _)
  | noInitialValue =>
    intro limit _ ends
    exact (Accepts.takeIf_none (isAhead_of_otherMark ends (by decide))).bind (.pure _)
  | someInitialValue isEqual valued accepts =>
    intro limit short ends
    simp only [List.length_cons] at short
    refine (Accepts.takeIf_some isEqual).bind ?_
    refine (accepts limit (by omega) ?_).bind (.pure _)
    exact isAhead_excludes (fun _ marked => extendsExpression_of_isMark marked (by simp)) ends
  | expressionStatement valued ends accepts =>
    intro limit short
    refine (accepts limit short (ended_of_mark ends (by simp))).bind ?_
    exact (Accepts.expectMark .expressionEnd ends).bind (.pure _)
  | stateExpression stated accepts =>
    intro limit short
    have shorter := stated.length_lt rfl
    cases limit with
    | zero => omega
    | succ limit =>
      rw [statementWithin_succ]
      exact accepts_statementRule_expression (stated.isAhead_starts rfl) (accepts (limit + 1) short)
  | forStatement isFor opens initially conditional ends stepwise closes
    repeated initial cond step body =>
    intro limit short
    have afterInitial := initially.length_le
    have afterCondition := conditional.length_le
    have afterStep := stepwise.length_le
    simp only [List.length_cons] at short afterInitial afterCondition afterStep
    cases limit with
    | zero => omega
    | succ limit =>
      rw [statementWithin_succ]
      refine accepts_statementRule_word isFor (by simp; rfl) ?_
      refine (Accepts.expectMark .forOpening opens).bind ?_
      refine (initial (limit + 1) (by omega)).bind ?_
      refine (cond (limit + 1) .semicolon (by simp) (by omega) ends).bind ?_
      refine (Accepts.expectMark .loopConditionEnd ends).bind ?_
      refine (step (limit + 1) .rightParen (by simp) (by omega) closes).bind ?_
      refine (Accepts.expectMark .forClosing closes).bind ?_
      refine (body limit (by omega)).bind ?_
      rw [lowerFor_eq_unfoldedLoop]
      exact .pure _
  | noForInitial ends =>
    intro limit _
    exact (Accepts.takeIf_some ends).bind (.pure _)
  | forVariable declared accepts =>
    intro limit short
    rcases accepts with ⟨keyword, tail, rfl, isVar, accepts⟩
    simp only [List.length_cons] at short
    have unended : isAhead (·.isMark .semicolon) (keyword :: tail) = false := by
      simp [isAhead, Token.isMark, kind_of_isWord isVar]
    refine (Accepts.takeIf_none unended).bind ?_
    refine (Accepts.takeIf_some isVar).bind ?_
    exact (accepts limit (by omega)).bind (.pure _)
  | forExpression stated accepts =>
    intro limit short
    have starts := stated.isAhead_starts rfl
    refine (Accepts.takeIf_none (isAhead_mark_of_startsExpression starts (by simp))).bind ?_
    refine (Accepts.takeIf_none (isAhead_var_of_startsExpression starts)).bind ?_
    exact (accepts limit short).bind (.pure _)
  | ifThen isIf opens conditional closes chosen settled cond yes =>
    intro limit short
    have afterCondition := conditional.length_le
    simp only [List.length_cons] at short afterCondition
    cases limit with
    | zero => omega
    | succ limit =>
      rw [statementWithin_succ]
      refine accepts_statementRule_word isIf (by simp; rfl) ?_
      refine (accepts_parenthesised .ifOpening .ifClosing opens (cond (limit + 1) (by omega)
          (ended_of_mark closes (by simp))) closes).bind ?_
      refine (yes limit (by omega)).bind ?_
      exact (Accepts.takeIf_none (settled rfl)).bind (.pure _)
  | ifElse isIf opens conditional closes chosen isElse otherwise cond yes no =>
    intro limit short
    have afterCondition := conditional.length_le
    have afterYes := chosen.length_le
    simp only [List.length_cons] at short afterCondition afterYes
    cases limit with
    | zero => omega
    | succ limit =>
      rw [statementWithin_succ]
      refine accepts_statementRule_word isIf (by simp; rfl) ?_
      refine (accepts_parenthesised .ifOpening .ifClosing opens (cond (limit + 1) (by omega)
          (ended_of_mark closes (by simp))) closes).bind ?_
      refine (yes limit (by omega)).bind ?_
      refine (Accepts.takeIf_some isElse).bind ?_
      exact (no limit (by omega)).bind (.pure _)
  | printStatement isPrint valued ends value =>
    intro limit short
    simp only [List.length_cons] at short
    cases limit with
    | zero => omega
    | succ limit =>
      rw [statementWithin_succ]
      refine accepts_statementRule_word isPrint (by simp; rfl) ?_
      refine (value (limit + 1) (by omega) (ended_of_mark ends (by simp))).bind ?_
      exact (Accepts.expectMark .printEnd ends).bind (.pure _)
  | returnStatement isReturn valued ends value =>
    intro limit short
    simp only [List.length_cons] at short
    cases limit with
    | zero => omega
    | succ limit =>
      rw [statementWithin_succ]
      refine accepts_statementRule_word isReturn (by simp; rfl) ?_
      refine (value (limit + 1) .semicolon (by simp) (by omega) ends).bind ?_
      exact (Accepts.expectMark .returnEnd ends).bind (.pure _)
  | whileStatement isWhile opens conditional closes repeated cond body =>
    intro limit short
    have afterCondition := conditional.length_le
    simp only [List.length_cons] at short afterCondition
    cases limit with
    | zero => omega
    | succ limit =>
      rw [statementWithin_succ]
      refine accepts_statementRule_word isWhile (by simp; rfl) ?_
      refine (accepts_parenthesised .whileOpening .whileClosing opens (cond (limit + 1) (by omega)
          (ended_of_mark closes (by simp))) closes).bind ?_
      exact (body limit (by omega)).bind (.pure _)
  | blockStatement _ body =>
    intro limit short
    rcases body with ⟨opening, tail, rfl, opens, accepts⟩
    simp only [List.length_cons] at short
    cases limit with
    | zero => omega
    | succ limit =>
      rw [statementWithin_succ]
      exact accepts_statementRule_block opens (accepts limit (by omega))
  | block opens declared closes decls =>
    refine ⟨_, _, rfl, opens, ?_⟩
    intro limit short
    refine (decls limit limit _ short short (stopsAt_rightBrace closes)).bind ?_
    refine (Accepts.expectMark .blockClosing closes).bind ?_
    rw [filterMap_id_map_some]
    exact .pure _
  | noExpression =>
    intro limit mark _ _ seen
    exact accepts_unlessSeen_none seen
  | someExpression valued accepts =>
    intro limit mark ends short seen
    refine accepts_unlessSeen_some
      (isAhead_mark_of_startsExpression (valued.isAhead_starts rfl) ends) (accepts limit short ?_)
    refine isAhead_excludes ?_ seen
    intro token marked
    refine extendsExpression_of_isMark marked ?_
    simp only [List.mem_cons, List.not_mem_nil, or_false] at ends ⊢
    exact ends.imp_right .inl
  | assignName named isEqual valued accepts =>
    intro limit short ended
    simp only [List.length_cons] at short
    cases limit with
    | zero => omega
    | succ limit =>
      refine ((callReaches_primary (by simp) (accepts_primary_name named)).accepts_target
          (by simp [isAhead, startsPrimary, named]) (by simp)
          isEqual).bind ?_
      refine (Accepts.takeIf_some isEqual).bind ?_
      refine (accepts limit (by omega) ended).bind ?_
      exact Accepts.freshId.bind (.pure _)
  | assignProperty owned isDot named isEqual valued called accepts =>
    intro limit short ended
    have shorter := owned.length_lt rfl
    simp only [List.length_cons] at shorter
    cases limit with
    | zero => omega
    | succ limit =>
      refine (((called limit (by omega)).property (by omega) isDot
        named).accepts_target (owned.isAhead_starts rfl) (by simp; omega) isEqual).bind ?_
      refine (Accepts.takeIf_some isEqual).bind ?_
      exact (accepts limit (by omega) ended).bind (.pure _)
  | unassigned valued reaches =>
    intro limit short ended
    have shorter := valued.length_lt rfl
    rcases ended_of_not_extends ended with ⟨unequal, last, unextended⟩
    cases limit with
    | zero => omega
    | succ limit =>
      refine ((reaches limit (by omega) unextended).accepts last).bind ?_
      exact (Accepts.takeIf_none unequal).bind (.pure _)
  | singleOperand valued accepts =>
    intro limit short ended
    exact chainReaches_single (valued.length_lt rfl) (accepts limit short ended)
  | operation joined operates valued reaches accepts =>
    intro limit short ended
    have shorter := joined.length_le
    simp only [List.length_cons] at shorter
    exact (reaches limit short (extendsOperand_of_operates operates)).operation
      short operates (valued.length_lt rfl) (accepts limit (by omega) ended)
  | tighter follows valued reaches =>
    intro limit short ended
    rcases ended_of_tighter follows ended with ⟨last, unextended⟩
    rw [operandRule_of_tighter follows]
    exact (reaches limit short unextended).accepts last
  | tightest last valued accepts =>
    intro limit short ended
    rw [funext (extendsOperand_of_tightest last)] at ended
    rw [operandRule_of_tightest last]
    exact accepts limit short ended
  | negated negates valued accepts =>
    intro limit short ended
    simp only [List.length_cons] at short
    exact accepts_negated negates (accepts limit (by omega) ended)
  | unnegated valued reaches =>
    intro limit short ended
    exact accepts_unary (valued.isAhead_starts rfl) ((reaches limit short).accepts ended)
  | uncalled valued accepts =>
    intro limit short
    exact callReaches_primary (valued.length_lt rfl) (accepts limit short)
  | callArguments called opens listed closes reaches accepts =>
    intro limit short
    have shorter := called.length_lt rfl
    have afterList := listed.length_le
    simp only [List.length_cons] at shorter afterList
    exact (reaches limit short).arguments short opens (by omega)
      (accepts limit (by omega) closes) closes
  | callProperty owned isDot named reaches =>
    intro limit short
    exact (reaches limit short).property short isDot named
  | someArguments listed bounded separated =>
    intro limit short closes
    exact .listed_separated (isAhead_mark_of_startsExpression (listed.isAhead_starts rfl) (by simp))
      (separated limit limit 0 short short (by omega) closes)
  | lastArgument valued accepts =>
    intro limit rounds count short _ bounded closes
    refine .separated_last bounded
      (accepts limit short ?_) (isAhead_of_otherMark closes (by decide))
      rounds
    exact isAhead_excludes (fun _ marked => extendsExpression_of_isMark marked (by simp)) closes
  | moreArguments valued separates others first rest =>
    intro limit rounds count short enough bounded closes
    have shorter := valued.length_lt rfl
    simp only [List.length_cons] at shorter bounded
    cases rounds with
    | zero => omega
    | succ rounds =>
      exact .separated_more (by omega)
        (first limit short (ended_of_mark separates (by simp))) separates
        (rest limit rounds (count + 1) (by omega) (by omega) (by omega) closes)
  | constant stands =>
    intro limit _
    exact accepts_primary_constant stands
  | receiver isThis =>
    intro limit _
    exact accepts_primary_receiver isThis
  | name named =>
    intro limit _
    exact accepts_primary_name named
  | grouping opens valued closes accepts =>
    intro limit short
    simp only [List.length_cons] at short
    exact accepts_primary_grouping opens
      (accepts limit (by omega) (ended_of_mark closes (by simp))) closes

end Treewalk.Grammar

namespace Treewalk

open Grammar

/-- Tokens that derive a program are parsed as it. -/
theorem parse_of_derives {stream : TokenStream} {firstId nextId : ExprId} {tree : Program}
    (derivation : Derives .nearest .declarations stream.tokens firstId tree [] nextId) :
    parse stream firstId = ⟨.ok tree, nextId⟩ := by
  have declared := derivation.complete stream.tokens.length
    stream.tokens.length (fun _ => false) (Nat.le_refl _) (Nat.le_refl _) stopsAt_end
  have read := declared stream.ending []
  simp only [parse, program, Bind.bind, EStateM.bind, read, filterMap_id_map_some]
  rfl

end Treewalk
