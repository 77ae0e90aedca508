import Treewalk.Proofs.RuleEffect

/-!
# The parser reads only what the grammar derives

A rule that notes no fault takes tokens that derive its nonterminal, and the
tree it yields is the tree of the derivation, in which every `else` belongs to
the nearest choice.
-/

namespace Treewalk.Grammar

open Rule

/-- The rule reads what a nonterminal derives. -/
abbrev Reads (goal : Nonterminal) (rule : Rule goal.Tree) : Prop :=
  rule.Yields (Derives .nearest goal)

/-- The rule reads what a nonterminal derives behind its first token. -/
abbrev ReadsBehind (token : Token) (goal : Nonterminal) (rule : Rule goal.Tree) : Prop :=
  rule.Yields fun input => Derives .nearest goal (token :: input)

/-! ## Expressions -/

variable {expr : Rule Expr}

variable {input rest : List Token} {first next : ExprId} {keyword : Token} {operand : Rule Expr}
  {level : Level}

theorem reads_nameRead {token : Token} (named : token.kind = .identifier) :
    ReadsBehind token .primary (nameRead token) :=
  .freshly fun _ _ => .name named

theorem reads_receiverRead (isThis : keyword.isWord .thisWord) :
    ReadsBehind keyword .primary (receiverRead keyword) :=
  .freshly fun _ _ => .receiver isThis

theorem reads_finishGrouping (reads : Reads .expression expr)
    {opening : Token} (opens : opening.isMark .leftParen) :
    ReadsBehind opening .primary (finishGrouping expr) :=
  reads.andThen fun _ => .expectThen fun _ closes =>
    .returning fun _ _ _ _ valued => .grouping opens valued closes

/-- What is read as a primary derives one. -/
theorem reads_primary (reads : Reads .expression expr) : Reads .primary (primary expr) := by
  apply Yields.of_traces
  intro cursor
  unfold primary
  split
  · exact (Yields.fail .expression).traces cursor
  · next token tail found =>
    rw [found]
    have constant {value : Literal} (stands : constant? token = some value) :
        Traces (.ok (.literal value) { cursor with ahead := tail }) cursor.errors cursor.nextId
          (Derives .nearest .primary (token :: tail) cursor.nextId) := by
      refine ⟨.refl { cursor with ahead := tail }, fun _ _ ran _ => ?_⟩
      cases ran
      exact .constant stands
    split
    case h_6 kind =>
      have isThis : token.isWord .thisWord := by simp [Token.isWord, kind]
      exact (reads_receiverRead isThis).traces { cursor with ahead := tail }
    case h_7 kind => exact (reads_nameRead kind).traces { cursor with ahead := tail }
    case h_8 kind =>
      have opens : token.isMark .leftParen := by simp [Token.isMark, kind]
      exact (reads_finishGrouping reads opens).traces { cursor with ahead := tail }
    case h_9 => exact ⟨.refl cursor, fun _ _ ran _ => by cases ran⟩
    all_goals
      next kind => exact constant (by simp [constant?, kind])

/-- Expressions between commas are arguments. -/
theorem derives_arguments {values : List Expr}
    (separated : Separated (Derives .nearest .expression) input first values rest next) :
    Derives .nearest .arguments input first values rest next := by
  induction separated with
  | last head => exact .lastArgument head
  | more head separates _ tail => exact .moreArguments head separates tail

section

variable (reads : Reads .expression expr) (limit : Nat)

include reads limit

theorem reads_arguments : Reads .argumentList (listed limit .tooManyArguments expr) := by
  refine (Yields.listed limit .tooManyArguments reads).weaken ?_
  rintro input first values rest next (⟨rfl, rfl, rfl⟩ | ⟨listed, bounded⟩)
  · exact .noArgument
  · exact .someArguments (derives_arguments listed) bounded

theorem reads_finishCall (callee : Expr) {opening : Token} (opens : opening.isMark .leftParen) :
    (finishCall limit expr callee).Yields (fun input first tree rest next => ∀ start id,
        Derives .nearest .call start id callee (opening :: input) first →
          Derives .nearest .call start id tree rest next) :=
  (reads_arguments reads limit).andThen fun _ => .expectThen fun _ closes =>
    .returning fun _ _ _ _ listed _ _ called => .callArguments called opens listed closes

/-- Further calls extend a derivation of what they are made on. -/
theorem reads_callMore (rounds : Nat) (callee : Expr) :
    (callMore limit expr rounds callee).Yields (fun input first tree rest next => ∀ start id,
        Derives .nearest .call start id callee input first →
          Derives .nearest .call start id tree rest next) := by
  induction rounds generalizing callee with
  | zero => exact .returning fun _ _ _ _ called => called
  | succ rounds ih =>
    refine .takeThen (.returning fun _ _ _ _ _ called => called) fun token either => ?_
    by_cases opens : token.isMark .leftParen
    · simp only [opens, if_true]
      exact (reads_finishCall reads limit callee opens).andThen fun called =>
        (ih called).weaken fun _ _ _ _ _ more _ _ finished start id begun =>
          more start id (finished start id begun)
    · simp only [opens, Bool.false_eq_true, if_false]
      have isDot : token.isMark .dot := by
        unfold isAnyMark at either
        unfold Token.isMark at opens ⊢
        split at either
        · next mark kind =>
          simp_all
        · cases either
      exact .nameThen fun property named =>
        (ih (.get callee property)).weaken fun _ _ _ _ _ more start id called =>
          more start id (.callProperty called isDot named)

theorem reads_call : Reads .call (call limit expr) :=
  (reads_primary reads).andThen fun callee =>
    (reads_callMore reads limit limit callee).weaken fun _ _ _ _ _ more _ _ valued =>
      more _ _ (.uncalled valued)

end

theorem derives_negations {ops : List Token} {operand : Expr}
    (negate : ∀ op ∈ ops, isAnyMark [.bang, .minus] op)
    (valued : Derives .nearest .unary input first operand rest next) :
    Derives .nearest .unary (ops ++ input) first (ops.foldr Expr.unary operand) rest next := by
  induction ops with
  | nil => exact valued
  | cons op ops ih =>
    refine .negated (negate op List.mem_cons_self) (ih ?_)
    intro other mem
    exact negate other (List.mem_cons_of_mem op mem)

theorem reads_unary (reads : Reads .expression expr) (limit : Nat) :
    Reads .unary (unary limit expr) := by
  have taken : (Rule.takeWhile (isAnyMark [.bang, .minus])).Yields (fun input first ops rest next =>
          input = ops ++ rest ∧ next = first ∧ ∀ op ∈ ops, isAnyMark [.bang, .minus] op) := by
    constructor
    · intro cursor
      exact .refl { cursor with ahead := _ }
    · intro cursor ops after ran kept
      cases ran
      refine ⟨List.takeWhile_append_dropWhile.symm, rfl, ?_⟩
      intro op mem
      exact List.all_eq_true.mp List.all_takeWhile op mem
  refine taken.andThen fun ops => (reads_call reads limit).andThen fun operand => .returning ?_
  rintro _ _ _ _ valued _ _ ⟨rfl, rfl, negate⟩
  exact derives_negations negate (.unnegated valued)

/-- Further operands extend a derivation of the operations before them. -/
theorem reads_chainMore (reads : Reads (.operand level) operand) (rounds : Nat) (left : Expr) :
    (chainMore level.join level.operates operand rounds left).Yields
      (fun input first tree rest next => ∀ start id,
        Derives .nearest (.level level) start id left input first →
          Derives .nearest (.level level) start id tree rest next) := by
  induction rounds generalizing left with
  | zero => exact .returning fun _ _ _ _ joined => joined
  | succ rounds ih =>
    refine .takeThen (.returning fun _ _ _ _ _ joined => joined) fun op operates => ?_
    exact reads.andThen fun right => (ih (level.join left op right)).weaken
      fun _ _ _ _ _ more _ _ valued start id joined =>
        more start id (.operation joined operates valued)

/-- A chain is read as its level if its operands are. -/
theorem reads_chain (reads : Reads (.operand level) operand) (limit : Nat) :
    Reads (.level level) (chain level.join level.operates limit operand) :=
  reads.andThen fun left => (reads_chainMore reads limit left).weaken
    fun _ _ _ _ _ more _ _ valued => more _ _ (.singleOperand valued)

theorem reads_tighter {tighter : Level} {rule : Rule Expr} (follows : level.tighter? = some tighter)
    (reads : Reads (.level tighter) rule) : Reads (.operand level) rule :=
  reads.weaken fun _ _ _ _ _ valued => .tighter follows valued

theorem reads_disjunction (reads : Reads .expression expr) (limit : Nat) :
    Reads (.level .disjunction) (disjunction limit expr) := by
  have operand : Reads (.operand .factor) (unary limit expr) :=
    (reads_unary reads limit).weaken fun _ _ _ _ _ valued => .tightest rfl valued
  have factor : Reads (.level .factor) (factor limit expr) :=
    reads_chain operand limit
  have term : Reads (.level .term) (term limit expr) :=
    reads_chain (reads_tighter rfl factor) limit
  have comparison : Reads (.level .comparison) (comparison limit expr) :=
    reads_chain (reads_tighter rfl term) limit
  have equality : Reads (.level .equality) (equality limit expr) :=
    reads_chain (reads_tighter rfl comparison) limit
  have conjunction : Reads (.level .conjunction) (conjunction limit expr) :=
    reads_chain (reads_tighter rfl equality) limit
  exact reads_chain (reads_tighter rfl conjunction) limit

/-- The tree of a name or of a property can be assigned to. -/
def isTarget : Expr → Bool
  | .name _ _ => true
  | .get _ _ => true
  | _ => false

/-- A target that derives a level of operators derives a call already. -/
def TargetIsCall (policy : Policy) :
    (goal : Nonterminal) → List Token → ExprId → goal.Tree → List Token → ExprId → Prop
  | .level _, input, first, tree, rest, next =>
    isTarget tree → Derives policy .call input first tree rest next
  | .operand _, input, first, tree, rest, next =>
    isTarget tree → Derives policy .call input first tree rest next
  | .unary, input, first, tree, rest, next =>
    isTarget tree → Derives policy .call input first tree rest next
  | _, _, _, _, _, _ => True

/-- A target that is a name or a property is derived as a call. -/
theorem Derives.targetIsCall {policy : Policy} {goal : Nonterminal} {tree : goal.Tree}
    (derivation : Derives policy goal input first tree rest next) :
    TargetIsCall policy goal input first tree rest next := by
  induction derivation with
  | singleOperand _ operand | tighter _ _ operand | tightest _ _ operand => exact operand
  | @operation level _ _ _ _ _ _ _ _ _ _ _ _ _ _ =>
    intro target
    cases level <;> cases target
  | negated _ _ _ =>
    intro target
    cases target
  | unnegated valued _ => exact fun _ => valued
  | _ => trivial

theorem reads_assignment (reads : Reads .expression expr) (limit : Nat) :
    Reads .expression (assignment limit expr) := by
  refine (reads_disjunction reads limit).andThen fun target =>
    .takeThen (.returning fun _ _ _ _ _ valued => .unassigned valued) fun equals isEqual => ?_
  refine reads.andThen fun value => ?_
  cases target with
  | name id token =>
    refine .freshly fun _ _ _ _ assigned _ _ valued => ?_
    cases valued.targetIsCall rfl with
    | uncalled primary =>
      cases primary with
      | name named => exact .assignName named isEqual assigned
  | get object property =>
    refine .returning fun _ _ _ _ assigned _ _ valued => ?_
    cases valued.targetIsCall rfl with
    | uncalled primary => cases primary
    | callProperty owned isDot named =>
      exact .assignProperty owned isDot named isEqual assigned
  | _ =>
    exact (Yields.noteAt .invalidTarget equals).andThen fun _ =>
      .returning fun _ _ _ _ impossible => impossible.elim

/-- By induction on the limit, expressions are read as such. -/
theorem reads_expressionWithin (limit : Nat) : Reads .expression (expressionWithin limit) := by
  induction limit with
  | zero => exact .fail .expression
  | succ limit ih => exact reads_assignment ih limit

/-! ## Statements -/

variable {stmt : Rule Stmt} {body : Rule (List Stmt)}

section

variable (reads : Reads .expression expr)

include reads

theorem reads_expressionStatement : Reads .expressionStatement (expressionStatement expr) :=
  reads.andThen fun _ => .expectThen fun _ ends =>
    .returning fun _ _ _ _ valued => .expressionStatement valued ends

theorem reads_printStatement (isPrint : keyword.isWord .printWord) :
    ReadsBehind keyword .statement (printStatement expr) :=
  reads.andThen fun _ => .expectThen fun _ ends =>
    .returning fun _ _ _ _ valued => .printStatement isPrint valued ends

theorem reads_unlessSeen (mark : Punctuator) :
    Reads .optionalExpression (unlessSeen mark expr) := by
  refine .seesThen fun seen => ?_
  cases seen with
  | true => exact .returning fun _ _ => .noExpression
  | false => exact reads.andThen fun _ => .returning fun _ _ _ _ valued => .someExpression valued

theorem reads_returnStatement (isReturn : keyword.isWord .returnWord) :
    ReadsBehind keyword .statement (returnStatement expr keyword) :=
  (reads_unlessSeen reads .semicolon).andThen fun _ => .expectThen fun _ ends =>
    .returning fun _ _ _ _ valued => .returnStatement isReturn valued ends

theorem reads_initialValue : Reads .initialValue (initialValue expr) :=
  .takeThen (.returning fun _ _ _ => .noInitialValue) fun _ isEqual =>
    reads.andThen fun _ => .returning fun _ _ _ _ valued => .someInitialValue isEqual valued

theorem reads_varDeclaration (isVar : keyword.isWord .varWord) :
    ReadsBehind keyword .varDeclaration (varDeclaration expr) :=
  .nameThen fun _ named => (reads_initialValue reads).andThen fun _ => .expectThen fun _ ends =>
    .returning fun _ _ _ _ given => .varDeclaration isVar named given ends

theorem reads_parenthesised (opening closing : GrammarFault) :
    (parenthesised opening closing expr).Yields
      (fun input first cond rest next => ∃ opening closing middle,
        input = opening :: middle ∧ opening.isMark .leftParen ∧ closing.isMark .rightParen ∧
            Derives .nearest .expression middle first cond (closing :: rest) next) :=
  .expectThen fun _ opens => reads.andThen fun _ => .expectThen fun _ closes =>
    .returning fun _ _ _ _ valued => ⟨_, _, _, rfl, opens, closes, valued⟩

theorem reads_ifStatement (states : Reads .statement stmt) (isIf : keyword.isWord .ifWord) :
    ReadsBehind keyword .statement (ifStatement expr stmt) := by
  refine (reads_parenthesised reads .ifOpening .ifClosing).andThen fun cond =>
    states.andThen fun yes => .takeThen (.returning ?_) fun alternative isElse =>
      states.andThen fun no => .returning ?_
  · rintro _ _ settled _ _ chosen _ _ ⟨opening, closing, middle, rfl, opens, closes, valued⟩
    exact .ifThen isIf opens valued closes chosen fun _ => settled
  · rintro _ _ _ _ otherwise _ _ chosen _ _
      ⟨opening, closing, middle, rfl, opens, closes, valued⟩
    exact .ifElse isIf opens valued closes chosen isElse otherwise

theorem reads_whileStatement (states : Reads .statement stmt)
    (isWhile : keyword.isWord .whileWord) :
    ReadsBehind keyword .statement (whileStatement expr stmt) := by
  refine (reads_parenthesised reads .whileOpening .whileClosing).andThen fun cond =>
    states.andThen fun repeated => .returning ?_
  rintro _ _ _ _ stated _ _ ⟨opening, closing, middle, rfl, opens, closes, valued⟩
  exact .whileStatement isWhile opens valued closes stated

theorem reads_forInitial : Reads .forInitial (forInitial expr) := by
  refine .takeThen (.takeThen ?_ fun _ isVar => ?_) fun _ ends =>
    .returning fun _ _ => .noForInitial ends
  · exact (reads_expressionStatement reads).andThen fun _ =>
      .returning fun _ _ _ _ stated _ _ => .forExpression stated
  · exact (reads_varDeclaration reads isVar).andThen fun _ =>
      .returning fun _ _ _ _ declared _ => .forVariable declared

/-- A loop with a counter is read as its lowering. -/
theorem reads_forStatement (states : Reads .statement stmt) (isFor : keyword.isWord .forWord) :
    ReadsBehind keyword .statement (forStatement expr stmt) :=
  .expectThen fun _ opens => (reads_forInitial reads).andThen fun _ =>
    (reads_unlessSeen reads .semicolon).andThen fun _ => .expectThen fun _ ends =>
      (reads_unlessSeen reads .rightParen).andThen fun _ => .expectThen fun _ closes =>
        states.andThen fun _ => .returning
          fun _ _ _ _ stated _ _ stepwise _ _ conditional _ _ initially =>
            lowerFor_eq_unfoldedLoop _ _ _ _ ▸
              .forStatement isFor opens initially conditional ends stepwise closes stated

end

/-- The rule reads the inside of a block up to the brace that closes it. -/
abbrev ReadsBody (body : Rule (List Stmt)) : Prop :=
  body.Yields fun input first statements rest next => ∃ closing,
    closing.isMark .rightBrace ∧
      Derives .nearest .declarations input first statements (closing :: rest) next

/-- Every choice of the rule reads a statement. -/
theorem reads_statementRule (reads : Reads .expression expr)
    (states : Reads .statement stmt) (encloses : ReadsBody body) :
    Reads .statement (statementRule expr stmt body) := by
  have blocks {opening : Token} (opens : opening.isMark .leftBrace) :
      ReadsBehind opening .statement (blockStatement body) := by
    refine encloses.andThen fun stmts => .returning ?_
    rintro _ _ _ _ ⟨closing, closes, declared⟩
    exact .blockStatement (.block opens declared closes)
  have expressions : Reads .statement (expressionStatement expr) :=
    (reads_expressionStatement reads).weaken fun _ _ _ _ _ stated => .stateExpression stated
  apply Yields.of_traces
  intro cursor
  unfold statementRule
  split
  · exact expressions.traces cursor
  · next token tail found =>
    let next : Cursor := { cursor with ahead := tail }
    have word {word : Keyword} (kind : token.kind = .keyword word) :
        token.isWord word := by simp [Token.isWord, kind]
    split
    · next kind =>
      rw [found]
      exact (reads_forStatement reads states (word kind)).traces next
    · next kind =>
      rw [found]
      exact (reads_ifStatement reads states (word kind)).traces next
    · next kind =>
      rw [found]
      exact (reads_whileStatement reads states (word kind)).traces next
    · next kind =>
      rw [found]
      exact (reads_returnStatement reads (word kind)).traces next
    · next kind =>
      rw [found]
      have opens : token.isMark .leftBrace := by simp [Token.isMark, kind]
      exact (blocks opens).traces next
    · next kind =>
      rw [found]
      exact (reads_printStatement reads (word kind)).traces next
    · exact expressions.traces cursor

/-! ## Declarations -/

theorem derives_parameters {names : List Token}
    (separated : Separated (fun input first token rest next =>
          input = token :: rest ∧ token.kind == .identifier ∧ next = first)
        input first names rest next) :
    Derives .nearest .parameters input first names rest next := by
  induction separated with
  | last head =>
    obtain ⟨rfl, named, rfl⟩ := head
    exact .lastParameter (eq_of_beq named)
  | more head separates _ tail =>
    obtain ⟨rfl, named, rfl⟩ := head
    exact .moreParameters (eq_of_beq named) separates tail

theorem reads_callable (encloses : ReadsBody body) (limit : Nat) (kind : CallableKind) :
    Reads .function (callable limit kind body) := by
  refine .nameThen fun _ named => .expectThen fun _ opens =>
    (Yields.listed limit .tooManyParameters (.expect _ .parameterName)).andThen fun params =>
      .expectThen fun _ closes => .expectThen fun _ braces =>
        encloses.andThen fun stmts => .returning ?_
  rintro _ _ _ _ ⟨_, ends, declared⟩ _ _ listed
  refine .function named opens ?_ closes (.block braces declared ends)
  obtain ⟨rfl, rfl, rfl⟩ | ⟨separated, bounded⟩ := listed
  · exact .noParameter
  · exact .someParameters (derives_parameters separated) bounded

theorem reads_superclass : Reads .superclass superclass :=
  .takeThen (.returning fun _ _ _ => .noSuperclass) fun _ isLess =>
    .nameThen fun _ named => .freshly fun _ _ => .superclassName isLess named

theorem derives_methods {methods : List FunctionDecl}
    (repeated : Repeated (Derives .nearest .function) input first methods rest next) :
    Derives .nearest .methods input first methods rest next := by
  induction repeated with
  | none => exact .noMethod
  | more head _ tail => exact .moreMethods head tail

theorem reads_classDeclaration (encloses : ReadsBody body) (limit : Nat)
    (isClass : keyword.isWord .classWord) :
    ReadsBehind keyword .declaration (classDeclaration limit body) := by
  have takes : ∀ input first value rest next,
      Derives .nearest .function input first value rest next → rest.length < input.length :=
    fun _ _ _ _ _ derived => derived.length_lt rfl
  exact .nameThen fun _ named => reads_superclass.andThen fun _ => .expectThen fun _ opens =>
    (Yields.repeatUntil _ (reads_callable encloses limit .method) takes limit).andThen fun _ =>
      .expectThen fun _ closes => .returning fun _ _ _ _ repeated _ _ extended =>
        .classDeclaration isClass named extended opens (derives_methods repeated.1) closes

/-- Every choice of the rule reads a declaration. -/
theorem reads_declarationRule (reads : Reads .expression expr)
    (states : Reads .statement stmt) (encloses : ReadsBody body) (limit : Nat) :
    Reads .declaration (declarationRule limit expr stmt body) := by
  have stmts : Reads .declaration stmt :=
    states.weaken fun _ _ _ _ _ stated => .plainStatement stated
  have functions {keyword : Token} (isFun : keyword.isWord .funWord) :
      ReadsBehind keyword .declaration (funDeclaration limit body) :=
    (reads_callable encloses limit .function).andThen fun _ =>
      .returning fun _ _ _ _ derived => .funDeclaration isFun derived
  apply Yields.of_traces
  intro cursor
  unfold declarationRule
  split
  · exact stmts.traces cursor
  · next token tail found =>
    let next : Cursor := { cursor with ahead := tail }
    have word {word : Keyword} (kind : token.kind = .keyword word) :
        token.isWord word := by simp [Token.isWord, kind]
    split
    · next kind =>
      rw [found]
      exact (reads_classDeclaration encloses limit (word kind)).traces next
    · next kind =>
      rw [found]
      exact (functions (word kind)).traces next
    · next kind =>
      rw [found]
      have declares := (reads_varDeclaration reads (word kind)).weaken
        fun _ _ _ _ _ declared => Derives.declareVariable declared
      exact declares.traces next
    · exact stmts.traces cursor

/-- A declaration has been read, without recovering from a fault. -/
def Recovered : Effect (Option Stmt) := fun input first value rest next =>
  ∃ stmt, value = some stmt ∧ Derives .nearest .declaration input first stmt rest next

/-- A declaration that had to be recovered from is noted as a fault. -/
theorem reads_recover {rule : Rule Stmt} (reads : Reads .declaration rule) :
    (recover rule).Yields Recovered := by
  have resumed (cursor : Cursor) : cursor.resume.errors = cursor.errors ∧
      cursor.resume.nextId = cursor.nextId := by
    unfold Cursor.resume
    split <;> exact ⟨rfl, rfl⟩
  apply Yields.of_traces
  intro cursor
  have traced := reads.traces cursor
  unfold recover
  split
  · next stmt next ran =>
    rw [ran] at traced
    refine ⟨traced.keeps, fun value after yields kept => ?_⟩
    cases yields
    exact ⟨stmt, rfl, traced.clean stmt next rfl kept⟩
  · next error next ran =>
    rw [ran] at traced
    have keeps : Retains next cursor.errors cursor.nextId := traced.keeps
    refine ⟨?_, fun value after yields kept => ?_⟩
    · have noted := keeps.trans (.note next error)
      exact ⟨by simpa only [ending, resumed] using noted.errors,
        by simpa only [ending, resumed] using noted.ids⟩
    · cases yields
      simp only [resumed, Cursor.note] at kept
      have longer := keeps.errors.length_le
      have same := congrArg List.length kept
      simp only [List.length_append, List.length_singleton] at same
      omega

/-- Declarations read one after the other are derived. -/
theorem derives_of_repeated {values : List (Option Stmt)}
    (repeated : Repeated Recovered input first values rest next) :
    Derives .nearest .declarations input first (values.filterMap id) rest next := by
  induction repeated with
  | none => exact .noDeclaration
  | more head _ tail =>
    obtain ⟨stmt, rfl, derived⟩ := head
    exact .moreDeclarations derived tail

theorem recovered_takes (input : List Token) (first : ExprId)
    (value : Option Stmt) (rest : List Token) (next : ExprId)
    (derived : Recovered input first value rest next) : rest.length < input.length := by
  obtain ⟨stmt, _, derived⟩ := derived
  exact derived.length_lt rfl

theorem reads_block {decl : Rule (Option Stmt)} (reads : decl.Yields Recovered) (limit : Nat) :
    ReadsBody (block limit decl) :=
  (Yields.repeatUntil _ reads recovered_takes limit).andThen fun _ =>
    .expectThen fun closing closes => .returning fun _ _ _ _ repeated =>
      ⟨closing, closes, derives_of_repeated repeated.1⟩

/-- Both knots of the grammar read what their nonterminals derive. -/
theorem reads_within (limit : Nat) :
    Reads .statement (statementWithin limit) ∧
      (declarationWithin limit).Yields Recovered := by
  induction limit with
  | zero =>
    have expressions : Reads .statement (expressionStatement (expressionWithin 0)) :=
      (reads_expressionStatement (reads_expressionWithin 0)).weaken
        fun _ _ _ _ _ stated => .stateExpression stated
    refine ⟨?_, ?_⟩
    · rw [statementWithin]
      exact expressions
    · rw [declarationWithin]
      exact reads_recover (expressions.weaken fun _ _ _ _ _ stated => .plainStatement stated)
  | succ limit ih =>
    obtain ⟨states, declares⟩ := ih
    have reads := reads_expressionWithin (limit + 1)
    have encloses := reads_block declares limit
    have stmts := reads_statementRule reads states encloses
    refine ⟨?_, ?_⟩
    · rw [statementWithin]
      exact stmts
    · rw [declarationWithin]
      exact reads_recover (reads_declarationRule reads stmts encloses limit)

theorem reads_declarations (limit : Nat) :
    (do
      let declared ←
        repeatUntil (fun _ => false) (declarationWithin limit) limit
      return declared.filterMap id : Rule Program).Yields
      (fun input first tree rest next =>
        Derives .nearest .declarations input first tree rest next ∧
          (input.length ≤ limit → rest = [])) :=
  (Yields.repeatUntil (fun _ => false) (reads_within limit).2 recovered_takes limit).andThen
    fun _ => .returning fun _ _ _ _ repeated =>
      ⟨derives_of_repeated repeated.1, fun short => repeated.2 short fun _ => rfl⟩

/-- A program without faults is read to its end. -/
theorem derives_of_parse_ok {stream : TokenStream} {firstId : ExprId}
    {tree : Program} (accepted : (parse stream firstId).result = .ok tree) :
    Derives .nearest .declarations stream.tokens firstId tree [] (parse stream firstId).nextId := by
  let start : Cursor := ⟨stream.tokens, stream.ending, firstId, []⟩
  have reads := reads_declarations stream.tokens.length
  unfold parse at accepted ⊢
  cases ran : program start with
  | error error after =>
    simp only [start] at ran
    simp only [ran] at accepted
    cases accepted
  | ok declared after =>
    simp only [start] at ran
    simp only [ran] at accepted ⊢
    split at accepted
    · next unnoted =>
      cases accepted
      have kept : after.errors = start.errors := by
        simpa using unnoted
      rcases reads.clean start _ after ran kept with ⟨derived, ends⟩
      rw [ends (Nat.le_refl _)] at derived
      exact derived
    · cases accepted

/-- No id is handed out twice, also not if a program has faults. -/
theorem firstId_le_nextId (stream : TokenStream) (firstId : ExprId) :
    firstId ≤ (parse stream firstId).nextId := by
  have retained := (reads_declarations stream.tokens.length).keeps
    ⟨stream.tokens, stream.ending, firstId, []⟩
  have counted := retained.ids
  unfold parse program
  simp only
  split
  · next declared after ran =>
    rw [ran] at counted
    exact counted
  · next error after ran =>
    rw [ran] at counted
    exact counted

end Treewalk.Grammar
