import Mathlib.Logic.Basic
import Treewalk.Proofs.ParserCompleteness
import Treewalk.Proofs.ParserSoundness
import Treewalk.Tree.Form

/-!
# The parser accepts the language of the grammar

An `else` may follow several choices that have no alternative yet, so tokens
can have more than one derivation.  They always have one in which every `else`
belongs to the nearest of these choices: moving an `else` inwards keeps the
tokens and the ids.  The parser therefore accepts exactly the tokens that
derive a program in the ambiguous grammar, and its tree is that of the
derivation with nearest alternatives.
-/

namespace Treewalk.Grammar

/-- What the nonterminal derives holds no statement in its turn. -/
def Nonterminal.plain : Nonterminal → Bool
  | superclass => true
  | parameters => true
  | parameterList => true
  | varDeclaration => true
  | initialValue => true
  | expressionStatement => true
  | forInitial => true
  | optionalExpression => true
  | expression => true
  | level _ => true
  | operand _ => true
  | unary => true
  | call => true
  | arguments => true
  | argumentList => true
  | primary => true
  | _ => false

variable {input rest : List Token} {policy : Policy} {first next : ExprId}

namespace Derives

variable {other : Policy} {goal : Nonterminal} {tree : goal.Tree}

/--
The policy matters to statements only, and there every derivation is one of
the free grammar.
-/
theorem under (derivation : Derives policy goal input first tree rest next)
    (permits : goal.plain = false → other.elses = .free ∧ other.loop = policy.loop) :
    Derives other goal input first tree rest next := by
  induction derivation with
  | noDeclaration => exact .noDeclaration
  | moreDeclarations _ _ head tail => exact .moreDeclarations (head permits) (tail permits)
  | classDeclaration isClass named _ opens _ closes extended body =>
    exact .classDeclaration isClass named (extended nofun) opens (body permits) closes
  | funDeclaration isFun _ body => exact .funDeclaration isFun (body permits)
  | declareVariable _ declared => exact .declareVariable (declared nofun)
  | plainStatement _ stated => exact .plainStatement (stated permits)
  | noMethod => exact .noMethod
  | moreMethods _ _ head tail => exact .moreMethods (head permits) (tail permits)
  | function named opens _ closes _ listed executed =>
    exact .function named opens (listed nofun) closes (executed permits)
  | stateExpression _ stated => exact .stateExpression (stated nofun)
  | forStatement isFor opens _ _ ends _ closes _ initially conditional stepwise repeated =>
    rw [← (permits rfl).2]
    exact .forStatement isFor opens (initially nofun) (conditional nofun)
      ends (stepwise nofun) closes (repeated permits)
  | ifThen isIf opens _ closes _ _ conditional chosen =>
    refine .ifThen isIf opens (conditional nofun) closes (chosen permits) ?_
    intro nearest
    rw [(permits rfl).1] at nearest
    cases nearest
  | ifElse isIf opens _ closes _ isElse _ conditional chosen otherwise =>
    exact .ifElse isIf opens (conditional nofun) closes (chosen permits) isElse (otherwise permits)
  | printStatement isPrint _ ends valued => exact .printStatement isPrint (valued nofun) ends
  | returnStatement isReturn _ ends valued => exact .returnStatement isReturn (valued nofun) ends
  | whileStatement isWhile opens _ closes _ conditional repeated =>
    exact .whileStatement isWhile opens (conditional nofun) closes (repeated permits)
  | blockStatement _ enclosed => exact .blockStatement (enclosed permits)
  | block opens _ closes declared => exact .block opens (declared permits) closes
  | noSuperclass => exact .noSuperclass
  | superclassName isLess named => exact .superclassName isLess named
  | noParameter => exact .noParameter
  | someParameters _ bounded listed => exact .someParameters (listed nofun) bounded
  | lastParameter named => exact .lastParameter named
  | moreParameters named separates _ others => exact .moreParameters named separates (others nofun)
  | varDeclaration isVar named _ ends given => exact .varDeclaration isVar named (given nofun) ends
  | noInitialValue => exact .noInitialValue
  | someInitialValue isEqual _ valued => exact .someInitialValue isEqual (valued nofun)
  | expressionStatement _ ends valued => exact .expressionStatement (valued nofun) ends
  | noForInitial ends => exact .noForInitial ends
  | forVariable _ declared => exact .forVariable (declared nofun)
  | forExpression _ stated => exact .forExpression (stated nofun)
  | noExpression => exact .noExpression
  | someExpression _ valued => exact .someExpression (valued nofun)
  | assignName named isEqual _ valued => exact .assignName named isEqual (valued nofun)
  | assignProperty _ isDot named isEqual _ owned valued =>
    exact .assignProperty (owned nofun) isDot named isEqual (valued nofun)
  | unassigned _ valued => exact .unassigned (valued nofun)
  | singleOperand _ valued => exact .singleOperand (valued nofun)
  | operation _ operates _ joined valued => exact .operation (joined nofun) operates (valued nofun)
  | tighter follows _ valued => exact .tighter follows (valued nofun)
  | tightest last _ valued => exact .tightest last (valued nofun)
  | negated negates _ valued => exact .negated negates (valued nofun)
  | unnegated _ valued => exact .unnegated (valued nofun)
  | uncalled _ valued => exact .uncalled (valued nofun)
  | callArguments _ opens _ closes called listed =>
    exact .callArguments (called nofun) opens (listed nofun) closes
  | callProperty _ isDot named owned => exact .callProperty (owned nofun) isDot named
  | noArgument => exact .noArgument
  | someArguments _ bounded listed => exact .someArguments (listed nofun) bounded
  | lastArgument _ valued => exact .lastArgument (valued nofun)
  | moreArguments _ separates _ valued others =>
    exact .moreArguments (valued nofun) separates (others nofun)
  | constant stands => exact .constant stands
  | receiver isThis => exact .receiver isThis
  | name named => exact .name named
  | grouping opens _ closes valued => exact .grouping opens (valued nofun) closes

end Derives

/-! ## Moving alternatives inwards -/

/--
A statement whose alternatives are the nearest, but for a number of choices at
its end: these have no alternative even if an `else` follows.
-/
inductive Open (loop : LoopTree) :
    Nat → List Token → ExprId → Stmt → List Token → ExprId → Prop where
  | settled {input first statement rest next}
      (stated : Derives ⟨.nearest, loop⟩ .statement input first statement rest next) :
      Open loop 0 input first statement rest next
  | ifThen {count keyword opening input first condition closing middle id yes rest next}
      (isIf : keyword.isWord .ifWord)
      (opens : opening.isMark .leftParen)
      (conditional :
        Derives ⟨.nearest, loop⟩ .expression input first condition (closing :: middle) id)
      (closes : closing.isMark .rightParen)
      (chosen : Open loop count middle id yes rest next) :
      Open loop (count + 1) (keyword :: opening :: input) first
        (.ifElse condition yes none) rest next
  | ifElse {count keyword opening input first condition closing middle id yes
      alternative afterYes afterId no rest next}
      (isIf : keyword.isWord .ifWord)
      (opens : opening.isMark .leftParen)
      (conditional :
        Derives ⟨.nearest, loop⟩ .expression input first condition (closing :: middle) id)
      (closes : closing.isMark .rightParen)
      (chosen :
        Derives ⟨.nearest, loop⟩ .statement middle id yes (alternative :: afterYes) afterId)
      (isElse : alternative.isWord .elseWord)
      (otherwise : Open loop count afterYes afterId no rest next) :
      Open loop count (keyword :: opening :: input) first
        (.ifElse condition yes (some no)) rest next
  | whileStatement {count keyword opening input first condition closing middle id body
      rest next}
      (isWhile : keyword.isWord .whileWord)
      (opens : opening.isMark .leftParen)
      (conditional :
        Derives ⟨.nearest, loop⟩ .expression input first condition (closing :: middle) id)
      (closes : closing.isMark .rightParen)
      (repeated : Open loop count middle id body rest next) :
      Open loop count (keyword :: opening :: input) first
        (.whileLoop condition body) rest next
  | forStatement {count keyword opening input first initial initialized afterInitial
      condition semicolon tested afterTest step closing stepped afterStep body rest next}
      (isFor : keyword.isWord .forWord)
      (opens : opening.isMark .leftParen)
      (initially :
        Derives ⟨.nearest, loop⟩ .forInitial input first initial initialized afterInitial)
      (conditional :
        Derives ⟨.nearest, loop⟩ .optionalExpression initialized afterInitial condition
          (semicolon :: tested) afterTest)
      (ends : semicolon.isMark .semicolon)
      (stepwise :
        Derives ⟨.nearest, loop⟩ .optionalExpression tested afterTest step
          (closing :: stepped) afterStep)
      (closes : closing.isMark .rightParen)
      (repeated : Open loop count stepped afterStep body rest next) :
      Open loop count (keyword :: opening :: input) first
        (loop initial condition step body) rest next

variable {loop : LoopTree}

namespace Open

variable {count : Nat} {id : ExprId} {tree : Stmt}

theorem settle (stated : Open loop count input first tree rest next)
    (settled : count = 0 ∨ isAhead (·.isWord .elseWord) rest = false) :
    Derives ⟨.nearest, loop⟩ .statement input first tree rest next := by
  induction stated with
  | settled stated => exact stated
  | ifThen isIf opens conditional closes _ chosen =>
    have ended := settled.resolve_left (Nat.succ_ne_zero _)
    exact .ifThen isIf opens conditional closes (chosen (.inr ended)) (fun _ => ended)
  | ifElse isIf opens conditional closes chosen isElse _ otherwise =>
    exact .ifElse isIf opens conditional closes chosen isElse (otherwise settled)
  | whileStatement isWhile opens conditional closes _ repeated =>
    exact .whileStatement isWhile opens conditional closes (repeated settled)
  | forStatement isFor opens initially conditional ends stepwise closes _ repeated =>
    exact .forStatement isFor opens initially conditional ends stepwise closes (repeated settled)

/-- An `else` is given to the innermost open choice. -/
theorem attach {alternative : Token} {afterYes : List Token} {no : Stmt} {further : Nat}
    (stated : Open loop (count + 1) input first tree (alternative :: afterYes) id)
    (isElse : alternative.isWord .elseWord)
    (otherwise : Open loop further afterYes id no rest next) :
    ∃ tree, Open loop (count + further) input first tree rest next := by
  generalize openCount : count + 1 = total at stated
  generalize following : alternative :: afterYes = remaining at stated
  induction stated generalizing count with
  | settled => cases openCount
  | @ifThen inner _ _ _ _ _ _ _ _ _ _ _ isIf opens conditional closes chosen inwards =>
    subst following
    rw [Nat.add_right_cancel openCount]
    cases inner with
    | zero =>
      rw [Nat.zero_add]
      exact ⟨_, .ifElse isIf opens conditional closes (chosen.settle (.inl rfl)) isElse otherwise⟩
    | succ inner =>
      rcases inwards otherwise rfl rfl with ⟨yes, attached⟩
      rw [Nat.add_right_comm]
      exact ⟨_, .ifThen isIf opens conditional closes attached⟩
  | ifElse isIf opens conditional closes chosen isElse' _ inwards =>
    rcases inwards otherwise openCount following with ⟨no, attached⟩
    exact ⟨_, .ifElse isIf opens conditional closes chosen isElse' attached⟩
  | whileStatement isWhile opens conditional closes _ inwards =>
    rcases inwards otherwise openCount following with ⟨body, attached⟩
    exact ⟨_, .whileStatement isWhile opens conditional closes attached⟩
  | forStatement isFor opens initially conditional ends stepwise closes _ inwards =>
    rcases inwards otherwise openCount following with ⟨body, attached⟩
    exact ⟨_, .forStatement isFor opens initially conditional ends stepwise closes attached⟩

end Open

/--
What the tokens of a derivation derive if every `else` belongs to the nearest
choice, with given trees for the loops.  A statement keeps open choices; whether
they stay open depends on what follows.  Nonterminals that hold no statement are
not concerned.
-/
def DerivesNearest (loop : LoopTree) :
    (goal : Nonterminal) → List Token → ExprId → List Token → ExprId → Prop
  | .declarations, input, first, rest, next =>
    isAhead (·.isWord .elseWord) rest = false →
      ∃ tree, Derives ⟨.nearest, loop⟩ .declarations input first tree rest next
  | .declaration, input, first, rest, next =>
    isAhead (·.isWord .elseWord) rest = false →
      ∃ tree, Derives ⟨.nearest, loop⟩ .declaration input first tree rest next
  | .statement, input, first, rest, next =>
    ∃ count tree, Open loop count input first tree rest next
  | .methods, input, first, rest, next =>
    ∃ tree, Derives ⟨.nearest, loop⟩ .methods input first tree rest next
  | .function, input, first, rest, next =>
    ∃ tree, Derives ⟨.nearest, loop⟩ .function input first tree rest next
  | .block, input, first, rest, next =>
    ∃ tree, Derives ⟨.nearest, loop⟩ .block input first tree rest next
  | _, _, _, _, _ => True

theorem isAhead_else_of_startsDeclaration (starts : isAhead startsDeclaration input = true) :
    isAhead (·.isWord .elseWord) input = false := by
  refine isAhead_excludes ?_ starts
  intro token starting
  refine Bool.eq_false_iff.mpr ?_
  intro isElse
  simp [startsDeclaration, startsStatement, startsExpression, startsPrimary,
    isAnyMark, kind_of_isWord isElse] at starting

/-- Declarations do not start with `else`. -/
theorem Derives.isAhead_else {stmts : List Stmt}
    (declared : Derives policy .declarations input first stmts rest next)
    (ended : isAhead (·.isWord .elseWord) rest = false) :
    isAhead (·.isWord .elseWord) input = false := by
  cases declared with
  | noDeclaration => exact ended
  | moreDeclarations head _ => exact isAhead_else_of_startsDeclaration (head.isAhead_starts rfl)

/--
Every derivation can be turned into one with nearest alternatives and with given
trees for the loops.
-/
theorem Derives.nearest (loop : LoopTree) {goal : Nonterminal} {tree : goal.Tree}
    (derivation : Derives policy goal input first tree rest next) :
    DerivesNearest loop goal input first rest next := by
  induction derivation with
  | noDeclaration => exact fun _ => ⟨_, .noDeclaration⟩
  | moreDeclarations _ others head tail =>
    intro ended
    rcases head (others.isAhead_else ended) with ⟨stmt, declared⟩
    rcases tail ended with ⟨stmts, further⟩
    exact ⟨_, .moreDeclarations declared further⟩
  | classDeclaration isClass named extended opens _ closes _ body =>
    intro _
    rcases body with ⟨methods, body⟩
    exact ⟨_, .classDeclaration isClass named (extended.under nofun) opens body closes⟩
  | funDeclaration isFun _ body =>
    intro _
    rcases body with ⟨decl, body⟩
    exact ⟨_, .funDeclaration isFun body⟩
  | declareVariable declared => exact fun _ => ⟨_, .declareVariable (declared.under nofun)⟩
  | plainStatement _ stated =>
    intro ended
    rcases stated with ⟨count, stmt, stated⟩
    exact ⟨_, .plainStatement (stated.settle (.inr ended))⟩
  | noMethod => exact ⟨_, .noMethod⟩
  | moreMethods _ _ head tail =>
    rcases head with ⟨method, head⟩
    rcases tail with ⟨methods, tail⟩
    exact ⟨_, .moreMethods head tail⟩
  | function named opens listed closes _ _ executed =>
    rcases executed with ⟨body, executed⟩
    exact ⟨_, .function named opens (listed.under nofun) closes executed⟩
  | stateExpression stated => exact ⟨0, _, .settled (.stateExpression (stated.under nofun))⟩
  | forStatement isFor opens initially conditional ends stepwise closes _ _ _ _ repeated =>
    rcases repeated with ⟨count, body, repeated⟩
    exact ⟨count, _, .forStatement isFor opens (initially.under nofun)
      (conditional.under nofun) ends (stepwise.under nofun) closes repeated⟩
  | ifThen isIf opens conditional closes _ _ _ chosen =>
    rcases chosen with ⟨count, yes, chosen⟩
    exact ⟨count + 1, _, .ifThen isIf opens (conditional.under nofun) closes chosen⟩
  | ifElse isIf opens conditional closes _ isElse _ _ chosen otherwise =>
    rcases chosen with ⟨count, yes, chosen⟩
    rcases otherwise with ⟨further, no, otherwise⟩
    cases count with
    | zero =>
      exact ⟨further, _, .ifElse isIf opens (conditional.under nofun)
        closes (chosen.settle (.inl rfl)) isElse otherwise⟩
    | succ count =>
      rcases chosen.attach isElse otherwise with ⟨yes, attached⟩
      exact ⟨count + further + 1, _, .ifThen isIf opens (conditional.under nofun) closes attached⟩
  | printStatement isPrint valued ends =>
    exact ⟨0, _, .settled (.printStatement isPrint (valued.under nofun) ends)⟩
  | returnStatement isReturn valued ends =>
    exact ⟨0, _, .settled (.returnStatement isReturn (valued.under nofun) ends)⟩
  | whileStatement isWhile opens conditional closes _ _ repeated =>
    rcases repeated with ⟨count, body, repeated⟩
    exact ⟨count, _, .whileStatement isWhile opens (conditional.under nofun) closes repeated⟩
  | blockStatement _ enclosed =>
    rcases enclosed with ⟨body, enclosed⟩
    exact ⟨0, _, .settled (.blockStatement enclosed)⟩
  | @block _ _ _ _ closing _ _ opens _ closes declared =>
    have ended : closing.isWord .elseWord = false := by
      simp [Token.isWord, kind_of_isMark closes]
    rcases declared ended with ⟨body, declared⟩
    exact ⟨_, .block opens declared closes⟩
  | _ => trivial

end Treewalk.Grammar

namespace Treewalk

open Grammar

theorem tokens_ofList {tokens : List Token} {ending : Token} (ends : ending.isEnd = true)
    (only : ∀ token ∈ tokens, token.isEnd = false) :
    (TokenStream.ofList (tokens ++ [ending])).tokens = tokens := by
  unfold TokenStream.ofList
  simp only
  rw [List.takeWhile_append_of_pos (by simpa using only)]
  simp [ends]

/--
Tokens in front of their only end mark are accepted exactly if they derive a
program in the grammar, and then the program read is the tree of the
derivation in which every `else` belongs to the nearest choice.
-/
theorem parse_ok_iff_derives (tokens : List Token) (ending : Token)
    (firstId : ExprId) (ends : ending.isEnd = true) (only : ∀ token ∈ tokens, token.isEnd = false) :
    let parsed := parse (.ofList (tokens ++ [ending])) firstId
    ((∃ program, parsed.result = .ok program) ↔ ∃ program nextId,
        Derives .free .declarations tokens firstId program [] nextId) ∧
    ∀ program nextId, parsed.result = .ok program ∧ parsed.nextId = nextId ↔
        Derives .nearest .declarations tokens firstId program [] nextId := by
  intro parsed
  have stream := tokens_ofList ends only
  have exact_tree (program : Program) (nextId : ExprId) :
      parsed.result = .ok program ∧ parsed.nextId = nextId ↔
        Derives .nearest .declarations tokens firstId program [] nextId := by
    constructor
    · rintro ⟨accepted, rfl⟩
      rw [← stream]
      exact derives_of_parse_ok accepted
    · intro derivation
      rw [← stream] at derivation
      have read := parse_of_derives derivation
      exact ⟨congrArg Parsed.result read, congrArg Parsed.nextId read⟩
  refine ⟨⟨?_, ?_⟩, exact_tree⟩
  · rintro ⟨program, accepted⟩
    have derivation := (exact_tree program parsed.nextId).mp ⟨accepted, rfl⟩
    exact ⟨program, parsed.nextId, derivation.under (fun _ => ⟨rfl, rfl⟩)⟩
  · rintro ⟨program, nextId, derivation⟩
    rcases derivation.nearest unfoldedLoop rfl with ⟨settled, derivation⟩
    exact ⟨settled, ((exact_tree settled nextId).mpr derivation).1⟩

/-- Two choices, one inside the other, and an `else` that both could take. -/
def nestedChoice : List Token :=
  let word (kind : Keyword) (text : String) : Token := ⟨.keyword kind, text, 1⟩
  let mark (kind : Punctuator) (text : String) : Token :=
    ⟨.punctuator kind, text, 1⟩
  let name (text : String) : Token := ⟨.identifier, text, 1⟩
  [word .ifWord "if", mark .leftParen "(", name "a", mark .rightParen ")",
    word .ifWord "if", mark .leftParen "(", name "b", mark .rightParen ")",
    name "c", mark .semicolon ";", word .elseWord "else", name "d", mark .semicolon ";"]

theorem nestedChoice_derives :
    (Scan.endToken 1).isEnd = true ∧ (∀ token ∈ nestedChoice, token.isEnd = false) ∧
      Derives .nearest .declarations nestedChoice 0
        [.ifElse (.name 0 ⟨.identifier, "a", 1⟩)
          (.ifElse (.name 1 ⟨.identifier, "b", 1⟩) (.expression (.name 2 ⟨.identifier, "c", 1⟩))
            (some (.expression (.name 3 ⟨.identifier, "d", 1⟩)))) none] [] 4 := by
  refine ⟨rfl, by decide,
    ((parse_ok_iff_derives nestedChoice (Scan.endToken 1) 0 rfl
      (by decide)).2 _ _).mp ?_⟩
  simp only [parse, program, Function.id_def]
  exact ⟨by cbv, by cbv⟩

/-- A loop with all of its clauses is read as a block around a plain loop. -/
example :
    let tokens := (scan "for (var i = a; i; i = b) print c;").tokens
    (parse (.ofList tokens) 0).result.toOption.map (·.map Stmt.formText) =
      some ["(block (var i a) (while i (block (print c) (; (= i b)))))"] := by
  decide +kernel

end Treewalk
