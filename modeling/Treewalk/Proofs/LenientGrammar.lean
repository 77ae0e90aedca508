import Treewalk.Proofs.ParserLookahead

/-!
# The lenient grammar

The grammar of the language as a table of productions, with two liberties: any
disjunction may stand on the left of an assignment, and there is no bound on
the number of parameters and arguments.  Nothing is said about trees, and which
choice an `else` belongs to is left open.
-/

namespace Treewalk.Grammar

open List

/-- The terminals of the grammar: which token may stand in a place. -/
inductive Terminal where
  | mark (mark : Punctuator)
  | word (word : Keyword)
  | name
  /-- A number, a string, a truth value or `nil`. -/
  | constant
  | operator (level : Level)
  /-- An operator in front of an operand. -/
  | negation
deriving DecidableEq, Repr

/-- The token may stand for the terminal. -/
def Terminal.test : Terminal → Token → Bool
  | mark punctuator => fun token => token.isMark punctuator
  | word keyword => fun token => token.isWord keyword
  | name => fun token => token.kind == .identifier
  | constant => fun token => (constant? token).isSome
  | operator level => level.operates
  | negation => isAnyMark [.bang, .minus]

/-- The names of the productions. -/
inductive Symbol where
  | program
  | declaration
  | classDeclaration
  | funDeclaration
  | function
  | varDeclaration
  | statement
  | expressionStatement
  | forStatement
  | ifStatement
  | printStatement
  | returnStatement
  | whileStatement
  | block
  | parameters
  | expression
  | assignment
  | level (level : Level)
  | unary
  | call
  | arguments
  | primary
deriving DecidableEq, Repr

/-- Expressions of the extended Backus-Naur form. -/
inductive Ebnf where
  | terminal (terminal : Terminal)
  | symbol (symbol : Symbol)
  | sequence (parts : List Ebnf)
  | choice (parts : List Ebnf)
  | repeated (part : Ebnf)

namespace Ebnf

/-- A part that may be left out. -/
def optional (part : Ebnf) : Ebnf :=
  choice [sequence [], part]

/-- A given punctuator. -/
def mark (mark : Punctuator) : Ebnf :=
  terminal (.mark mark)

/-- A given reserved word. -/
def word (word : Keyword) : Ebnf :=
  terminal (.word word)

/-- An identifier. -/
def name : Ebnf :=
  terminal .name

/-- The operands of a level of operators. -/
def operand (level : Level) : Ebnf :=
  match level.tighter? with
  | some tighter => symbol (.level tighter)
  | none => symbol .unary

/-- A part, or several of them with commas in between. -/
def listOf (part : Ebnf) : Ebnf :=
  sequence [part, repeated (sequence [mark .comma, part])]

end Ebnf

open Ebnf in
/-- The productions of the lenient grammar. -/
def production : Symbol → Ebnf
  | .program => repeated (symbol .declaration)
  | .declaration =>
    choice [symbol .classDeclaration, symbol .funDeclaration,
      symbol .varDeclaration, symbol .statement]
  | .classDeclaration =>
    sequence [word .classWord, name, optional (sequence [mark .less, name]),
      mark .leftBrace, repeated (symbol .function), mark .rightBrace]
  | .funDeclaration => sequence [word .funWord, symbol .function]
  | .function =>
    sequence [name, mark .leftParen, optional (symbol .parameters), mark .rightParen, symbol .block]
  | .varDeclaration =>
    sequence [word .varWord, name, optional (sequence [mark .equal, symbol .expression]),
      mark .semicolon]
  | .statement =>
    choice [symbol .expressionStatement, symbol .forStatement,
      symbol .ifStatement, symbol .printStatement, symbol .returnStatement,
      symbol .whileStatement, symbol .block]
  | .expressionStatement => sequence [symbol .expression, mark .semicolon]
  | .forStatement =>
    sequence [word .forWord, mark .leftParen,
      choice [symbol .varDeclaration, symbol .expressionStatement, mark .semicolon],
      optional (symbol .expression), mark .semicolon,
      optional (symbol .expression), mark .rightParen, symbol .statement]
  | .ifStatement =>
    sequence [word .ifWord, mark .leftParen, symbol .expression,
      mark .rightParen, symbol .statement, optional (sequence [word .elseWord, symbol .statement])]
  | .printStatement =>
    sequence [word .printWord, symbol .expression, mark .semicolon]
  | .returnStatement =>
    sequence [word .returnWord, optional (symbol .expression), mark .semicolon]
  | .whileStatement =>
    sequence [word .whileWord, mark .leftParen, symbol .expression,
      mark .rightParen, symbol .statement]
  | .block =>
    sequence [mark .leftBrace, repeated (symbol .declaration), mark .rightBrace]
  | .parameters => listOf name
  | .expression => symbol .assignment
  | .assignment =>
    choice [sequence [symbol (.level .disjunction), mark .equal, symbol .assignment],
      symbol (.level .disjunction)]
  | .level level =>
    sequence [operand level, repeated (sequence [terminal (.operator level), operand level])]
  | .unary =>
    choice [sequence [terminal .negation, symbol .unary], symbol .call]
  | .call =>
    sequence [symbol .primary,
      repeated (choice [
        sequence [mark .leftParen, optional (symbol .arguments), mark .rightParen],
        sequence [mark .dot, name]])]
  | .arguments => listOf (symbol .expression)
  | .primary =>
    choice [terminal .constant, word .thisWord, name,
      sequence [mark .leftParen, symbol .expression, mark .rightParen]]

/-- The tokens can be derived from an expression over the productions. -/
inductive Matches : Ebnf → List Token → Prop where
  | terminal {terminal token}
      (passes : terminal.test token) : Matches (.terminal terminal) [token]
  | symbol {symbol tokens} (produced : Matches (production symbol) tokens) :
      Matches (.symbol symbol) tokens
  | done : Matches (.sequence []) []
  | next {part parts front back}
      (head : Matches part front) (tail : Matches (.sequence parts) back) :
      Matches (.sequence (part :: parts)) (front ++ back)
  | choice {part parts tokens}
      (member : part ∈ parts) (chosen : Matches part tokens) :
      Matches (.choice parts) tokens
  | none {part} : Matches (.repeated part) []
  | more {part front back}
      (head : Matches part front) (tail : Matches (.repeated part) back) :
      Matches (.repeated part) (front ++ back)

variable {tokens : List Token}

/-! ## Inversion -/

@[simp]
theorem matches_terminal {terminal : Terminal} :
    Matches (.terminal terminal) tokens ↔ ∃ token, tokens = [token] ∧ terminal.test token := by
  constructor
  · rintro ⟨passes⟩
    exact ⟨_, rfl, passes⟩
  · rintro ⟨token, rfl, passes⟩
    exact .terminal passes

/-- A symbol stands for its production. -/
theorem matches_symbol {symbol : Symbol} :
    Matches (.symbol symbol) tokens ↔ Matches (production symbol) tokens := by
  constructor
  · rintro ⟨⟩
    assumption
  · exact .symbol

@[simp]
theorem matches_nil : Matches (.sequence []) tokens ↔ tokens = [] := by
  constructor
  · rintro ⟨⟩
    rfl
  · rintro rfl
    exact .done

variable {parts : List Ebnf}

/-- A sequence is cut behind its first part. -/
@[simp]
theorem matches_cons {part : Ebnf} :
    Matches (.sequence (part :: parts)) tokens ↔
      ∃ front back, tokens = front ++ back ∧ Matches part front ∧
        Matches (.sequence parts) back := by
  constructor
  · rintro ⟨⟩
    exact ⟨_, _, rfl, ‹_›, ‹_›⟩
  · rintro ⟨front, back, rfl, head, tail⟩
    exact .next head tail

@[simp]
theorem matches_choice : Matches (.choice parts) tokens ↔ ∃ part ∈ parts, Matches part tokens := by
  constructor
  · rintro ⟨⟩
    exact ⟨_, ‹_›, ‹_›⟩
  · rintro ⟨part, mem, chosen⟩
    exact .choice mem chosen

theorem matches_repeated {part : Ebnf} :
    Matches (.repeated part) tokens ↔ tokens = [] ∨ ∃ front back, tokens = front ++ back ∧
        Matches part front ∧ Matches (.repeated part) back := by
  constructor
  · intro derived
    cases derived with
    | none => exact .inl rfl
    | more head tail => exact .inr ⟨_, _, rfl, head, tail⟩
  · rintro (rfl | ⟨front, back, rfl, head, tail⟩)
    · exact .none
    · exact .more head tail

@[simp]
theorem matches_optional {part : Ebnf} :
    Matches (.optional part) tokens ↔ tokens = [] ∨ Matches part tokens := by
  simp [Ebnf.optional]

theorem matches_singleton {part : Ebnf} :
    Matches (.sequence [part]) tokens ↔ Matches part tokens := by
  simp

/-- A sequence can be cut between any two parts. -/
theorem matches_append (parts others : List Ebnf) :
    Matches (.sequence (parts ++ others)) tokens ↔
      ∃ front back, tokens = front ++ back ∧ Matches (.sequence parts) front ∧
        Matches (.sequence others) back := by
  induction parts generalizing tokens with
  | nil =>
    constructor
    · exact fun derived => ⟨[], tokens, rfl, .done, derived⟩
    · rintro ⟨front, back, rfl, empty, derived⟩
      rw [matches_nil.mp empty]
      exact derived
  | cons part parts ih =>
    constructor
    · intro derived
      rcases matches_cons.mp derived with ⟨front, rest, rfl, head, tail⟩
      rcases ih.mp tail with ⟨middle, back, rfl, inner, outer⟩
      exact ⟨front ++ middle, back, (append_assoc ..).symm, .next head inner, outer⟩
    · rintro ⟨_, back, rfl, derived, outer⟩
      rcases matches_cons.mp derived with ⟨front, middle, rfl, head, inner⟩
      rw [append_assoc]
      exact .next head (ih.mpr ⟨middle, back, rfl, inner, outer⟩)

/-- A terminal in front takes exactly one token. -/
theorem matches_terminal_cons {terminal : Terminal} :
    Matches (.sequence (.terminal terminal :: parts)) tokens ↔
      ∃ token rest, tokens = token :: rest ∧ terminal.test token ∧
        Matches (.sequence parts) rest := by
  constructor
  · intro derived
    rcases matches_cons.mp derived with ⟨front, rest, rfl, head, tail⟩
    rcases matches_terminal.mp head with ⟨token, rfl, passes⟩
    exact ⟨token, rest, rfl, passes, tail⟩
  · rintro ⟨token, rest, rfl, passes, tail⟩
    exact .next (.terminal passes) tail

/-- A list is one part, and a comma and a list. -/
theorem matches_listOf {part : Ebnf} :
    Matches (.listOf part) tokens ↔
      Matches (.sequence [part, .optional (.sequence [.mark .comma, .listOf part])]) tokens := by
  constructor
  · intro derived
    rcases matches_cons.mp derived with ⟨front, back, rfl, head, tail⟩
    refine .next head (matches_singleton.mpr (matches_optional.mpr ?_))
    rcases matches_repeated.mp (matches_singleton.mp tail) with
      rfl | ⟨front, back, rfl, item, items⟩
    · exact .inl rfl
    · rcases matches_terminal_cons.mp item with ⟨comma, rest, rfl, isComma, next⟩
      exact .inr (matches_terminal_cons.mpr ⟨comma, rest ++ back, rfl, isComma,
        matches_singleton.mpr (.next (matches_singleton.mp next) (matches_singleton.mpr items))⟩)
  · intro derived
    rcases matches_cons.mp derived with ⟨front, back, rfl, head, tail⟩
    refine .next head (matches_singleton.mpr ?_)
    rcases matches_optional.mp (matches_singleton.mp tail) with rfl | tail
    · exact .none
    · rcases matches_terminal_cons.mp tail with ⟨comma, rest, rfl, isComma, tail⟩
      rcases matches_cons.mp (matches_singleton.mp tail) with ⟨front, back, rfl, next, items⟩
      exact .more (matches_terminal_cons.mpr
        ⟨comma, front, rfl, isComma, matches_singleton.mpr next⟩) (matches_singleton.mp items)

/-! ## First tokens -/

/-- The production may derive no token at all. -/
def Symbol.nullable : Symbol → Bool
  | program => true
  | _ => false

/-- The token can start what a production derives. -/
def Symbol.starts : Symbol → Token → Bool
  | program => startsDeclaration
  | declaration => startsDeclaration
  | classDeclaration => fun token => token.isWord .classWord
  | funDeclaration => fun token => token.isWord .funWord
  | function => fun token => token.kind == .identifier
  | varDeclaration => fun token => token.isWord .varWord
  | statement => startsStatement
  | expressionStatement => startsExpression
  | forStatement => fun token => token.isWord .forWord
  | ifStatement => fun token => token.isWord .ifWord
  | printStatement => fun token => token.isWord .printWord
  | returnStatement => fun token => token.isWord .returnWord
  | whileStatement => fun token => token.isWord .whileWord
  | block => fun token => token.isMark .leftBrace
  | parameters => fun token => token.kind == .identifier
  | call => startsPrimary
  | primary => startsPrimary
  | _ => startsExpression

namespace Ebnf

mutual

/-- The expression may derive no token at all. -/
def nullable : Ebnf → Bool
  | terminal _ => false
  | symbol production => production.nullable
  | sequence parts => nullableAll parts
  | choice parts => nullableAny parts
  | repeated _ => true

/-- All of some parts may derive no token at all. -/
def nullableAll : List Ebnf → Bool
  | [] => true
  | part :: parts => part.nullable && nullableAll parts

/-- One of some parts may derive no token at all. -/
def nullableAny : List Ebnf → Bool
  | [] => false
  | part :: parts => part.nullable || nullableAny parts

end

mutual

/-- The token can start what an expression derives. -/
def starts : Ebnf → Token → Bool
  | terminal place, token => place.test token
  | symbol production, token => production.starts token
  | sequence parts, token => startsFirst parts token
  | choice parts, token => startsAny parts token
  | repeated part, token => part.starts token

/-- The token can start some parts in a row. -/
def startsFirst : List Ebnf → Token → Bool
  | [], _ => false
  | part :: parts, token =>
    part.starts token || part.nullable && startsFirst parts token

/-- The token can start one of some parts. -/
def startsAny : List Ebnf → Token → Bool
  | [], _ => false
  | part :: parts, token => part.starts token || startsAny parts token

end

/-- The tokens start as what an expression derives. -/
def Begins (part : Ebnf) : List Token → Prop
  | [] => part.nullable = true
  | token :: _ => part.starts token = true

theorem nullableAny_of_mem {part : Ebnf} (mem : part ∈ parts) (empty : part.nullable = true) :
    nullableAny parts = true := by
  induction mem with
  | head => simp [nullableAny, empty]
  | tail _ _ ih => simp [nullableAny, ih]

theorem startsAny_of_mem {part : Ebnf} {token : Token} (mem : part ∈ parts)
    (starts : part.starts token = true) : startsAny parts token = true := by
  induction mem with
  | head => simp [startsAny, starts]
  | tail _ _ ih => simp [startsAny, ih]

end Ebnf

theorem nullable_of_production (symbol : Symbol)
    (empty : (production symbol).nullable = true) : symbol.nullable = true := by
  cases symbol with
  | level level => cases level <;> cases empty
  | program => rfl
  | _ => cases empty

theorem starts_of_production (symbol : Symbol) (token : Token)
    (starts : (production symbol).starts token = true) : symbol.starts token = true := by
  cases symbol with
  | declaration =>
    simp only [production, Ebnf.starts, Ebnf.startsAny, Symbol.starts,
      Bool.or_false, Bool.or_eq_true] at starts
    rcases starts with isClass | isFun | isVar | stated
    · simp [Symbol.starts, startsDeclaration, kind_of_isWord isClass]
    · simp [Symbol.starts, startsDeclaration, kind_of_isWord isFun]
    · simp [Symbol.starts, startsDeclaration, kind_of_isWord isVar]
    · exact startsDeclaration_of_statement stated
  | statement =>
    simp only [production, Ebnf.starts, Ebnf.startsAny, Symbol.starts,
      Bool.or_false, Bool.or_eq_true] at starts
    rcases starts with
      stated | isFor | isIf | isPrint | isReturn | isWhile | opens
    · exact startsStatement_of_expression stated
    · simp [Symbol.starts, startsStatement, kind_of_isWord isFor]
    · simp [Symbol.starts, startsStatement, kind_of_isWord isIf]
    · simp [Symbol.starts, startsStatement, kind_of_isWord isPrint]
    · simp [Symbol.starts, startsStatement, kind_of_isWord isReturn]
    · simp [Symbol.starts, startsStatement, kind_of_isWord isWhile]
    · simp [Symbol.starts, startsStatement, kind_of_isMark opens]
  | level level =>
    cases level <;> simpa [production, Ebnf.operand, Level.tighter?, Ebnf.starts,
        Ebnf.startsFirst, Ebnf.nullable, Symbol.starts, Symbol.nullable] using starts
  | unary =>
    simp only [production, Ebnf.starts, Ebnf.startsAny, Ebnf.startsFirst,
      Ebnf.nullable, Symbol.starts, Terminal.test, Bool.false_and, Bool.or_false] at starts
    exact starts
  | primary =>
    simp only [production, Ebnf.starts, Ebnf.startsAny, Ebnf.startsFirst,
      Ebnf.nullable, Ebnf.word, Ebnf.name, Ebnf.mark, Terminal.test,
      Bool.false_and, Bool.or_false, Bool.or_eq_true] at starts
    rcases starts with stands | isThis | named | opens
    · rcases Option.isSome_iff_exists.mp stands with ⟨value, stands⟩
      exact startsPrimary_of_constant stands
    · simp [Symbol.starts, startsPrimary, kind_of_isWord isThis]
    · have kind : token.kind = .identifier := by simpa using named
      simp [Symbol.starts, startsPrimary, kind]
    · simp [Symbol.starts, startsPrimary, kind_of_isMark opens]
  | _ =>
    simpa [production, Ebnf.starts, Ebnf.startsFirst, Ebnf.startsAny,
      Ebnf.nullable, Ebnf.listOf, Ebnf.word, Ebnf.mark, Ebnf.name,
      Terminal.test, Symbol.starts, Symbol.nullable] using starts

section

variable {part : Ebnf} (derived : Matches part tokens)

include derived

/-- What is derived starts with one of the first tokens, or is empty. -/
theorem Matches.begins : part.Begins tokens := by
  induction derived with
  | terminal passes => exact passes
  | @symbol symbol tokens _ produced =>
    cases tokens with
    | nil => exact nullable_of_production symbol produced
    | cons token rest => exact starts_of_production symbol token produced
  | done => rfl
  | @next part parts front back _ _ head tail =>
    cases front with
    | nil =>
      cases back with
      | nil => simp_all [Ebnf.Begins, Ebnf.nullable, Ebnf.nullableAll]
      | cons token rest => simp_all [Ebnf.Begins, Ebnf.starts, Ebnf.startsFirst]
    | cons token rest => simp_all [Ebnf.Begins, Ebnf.starts, Ebnf.startsFirst]
  | @choice part parts tokens mem _ chosen =>
    cases tokens with
    | nil => exact Ebnf.nullableAny_of_mem mem chosen
    | cons token rest => exact Ebnf.startsAny_of_mem mem chosen
  | none => rfl
  | @more part front back _ _ head tail =>
    cases front with
    | nil => exact tail
    | cons token rest => exact head

/-- A part that takes tokens starts with one of its own. -/
theorem Matches.isAhead (taking : part.nullable = false) : isAhead part.starts tokens = true := by
  have begins := derived.begins
  cases tokens with
  | nil => exact absurd begins (Bool.eq_false_iff.mp taking)
  | cons token rest => exact begins

/-- The same holds in front of other tokens. -/
theorem Matches.isAhead_append (taking : part.nullable = false) (others : List Token) :
    Grammar.isAhead part.starts (tokens ++ others) = true := by
  have ahead := derived.isAhead taking
  cases tokens with
  | nil => cases ahead
  | cons token rest => exact ahead

end

theorem Matches.exists_cons {part : Ebnf} {front back : List Token}
    {token : Token} (derived : Matches part front) (taking : part.nullable = false)
    (same : (front ++ back).head? = some token) : ∃ tokens, front = token :: tokens := by
  cases front with
  | nil => cases derived.isAhead taking
  | cons first tokens =>
    cases same
    exact ⟨tokens, rfl⟩

/-! ## The end mark -/

theorem Terminal.isEnd_of_test {terminal : Terminal} {token : Token}
    (passes : terminal.test token) : token.isEnd = false := by
  cases isEnd : token.isEnd with
  | false => rfl
  | true =>
    have kind : token.kind = .endOfText := by
      simpa [Token.isEnd] using isEnd
    cases terminal with
    | operator level =>
      cases level <;> simp [Terminal.test, Level.operates, isAnyMark, Token.isWord, kind] at passes
    | _ => simp [Terminal.test, isAnyMark, constant?, Token.isWord, Token.isMark, kind] at passes

/-- No end mark is matched. -/
theorem Matches.plain {part : Ebnf} (derived : Matches part tokens) :
    ∀ token ∈ tokens, token.isEnd = false := by
  induction derived with
  | terminal passes =>
    intro token mem
    rw [mem_singleton.mp mem]
    exact Terminal.isEnd_of_test passes
  | symbol _ produced | choice _ _ produced => exact produced
  | done => simp
  | next _ _ head tail | more _ _ head tail =>
    intro token mem
    exact (mem_append.mp mem).elim (head token) (tail token)
  | none => simp

/-! ## Everything can be completed -/

/-- The expression derives something. -/
def Live (part : Ebnf) : Prop :=
  ∃ tokens, Matches part tokens

namespace Live

theorem terminal (terminal : Terminal) : Live (.terminal terminal) := by
  have standing (kind : TokenKind) (passes : terminal.test ⟨kind, "", 0⟩) :
      Live (.terminal terminal) :=
    ⟨_, .terminal passes⟩
  cases terminal with
  | mark mark => exact standing (.punctuator mark) (by simp [Terminal.test, Token.isMark])
  | word word => exact standing (.keyword word) (by simp [Terminal.test, Token.isWord])
  | name => exact standing .identifier rfl
  | constant => exact standing (.keyword .nilWord) rfl
  | operator level =>
    cases level with
    | disjunction => exact standing (.keyword .orWord) rfl
    | conjunction => exact standing (.keyword .andWord) rfl
    | equality => exact standing (.punctuator .bangEqual) rfl
    | comparison => exact standing (.punctuator .less) rfl
    | term => exact standing (.punctuator .plus) rfl
    | factor => exact standing (.punctuator .star) rfl
  | negation => exact standing (.punctuator .bang) rfl

theorem repeated (part : Ebnf) : Live (.repeated part) :=
  ⟨[], .none⟩

theorem optional (part : Ebnf) : Live (.optional part) :=
  ⟨[], matches_optional.mpr (.inl rfl)⟩

theorem nil : Live (.sequence []) :=
  ⟨[], .done⟩

theorem cons {part : Ebnf} {parts : List Ebnf} (head : Live part)
    (tail : Live (.sequence parts)) : Live (.sequence (part :: parts)) := by
  rcases head with ⟨front, head⟩
  rcases tail with ⟨back, tail⟩
  exact ⟨front ++ back, .next head tail⟩

theorem choice {part : Ebnf} {parts : List Ebnf} (mem : part ∈ parts)
    (chosen : Live part) : Live (.choice parts) := by
  rcases chosen with ⟨tokens, chosen⟩
  exact ⟨tokens, .choice mem chosen⟩

theorem produced {symbol : Symbol} (live : Live (production symbol)) : Live (.symbol symbol) := by
  rcases live with ⟨tokens, produced⟩
  exact ⟨tokens, .symbol produced⟩

theorem unary : Live (.symbol .unary) := by
  have primary : Live (.symbol .primary) :=
    .produced (.choice (by simp [Ebnf.name]) (.terminal .name))
  have call : Live (.symbol .call) :=
    .produced (.cons primary (.cons (.repeated _) .nil))
  exact .produced (.choice (by simp) call)

/-- Every level of operators matches something. -/
theorem level (level : Level) : Live (.symbol (.level level)) := by
  have chain (level : Level) (operand : Live (.operand level)) : Live (.symbol (.level level)) :=
    .produced (.cons operand (.cons (.repeated _) .nil))
  have factor := chain .factor unary
  have term := chain .term factor
  have comparison := chain .comparison term
  have equality := chain .equality comparison
  have conjunction := chain .conjunction equality
  cases level with
  | disjunction => exact chain .disjunction conjunction
  | _ => assumption

theorem expression : Live (.symbol .expression) :=
  .produced (.produced (.choice (by simp) (level .disjunction)))

theorem statement : Live (.symbol .statement) := by
  have stated : Live (.symbol .expressionStatement) :=
    .produced (.cons expression (.cons (.terminal _) .nil))
  exact .produced (.choice (by simp) stated)

theorem block : Live (.symbol .block) :=
  .produced (.cons (.terminal _) (.cons (.repeated _) (.cons (.terminal _) .nil)))

end Live

/-! ## Choices without an alternative -/

/-- A condition in parentheses. -/
def conditionParts : List Ebnf :=
  [.mark .leftParen, .symbol .expression, .mark .rightParen]

/-- The clauses of a loop with a counter. -/
def clauseParts : List Ebnf :=
  [.mark .leftParen,
    .choice [.symbol .varDeclaration, .symbol .expressionStatement, .mark .semicolon],
    .optional (.symbol .expression), .mark .semicolon,
    .optional (.symbol .expression), .mark .rightParen]

section

theorem matches_loop (word : Keyword) (parts : List Ebnf) :
    Matches (.sequence (.word word :: (parts ++ [.symbol .statement]))) tokens ↔
      ∃ keyword clauses body, tokens = keyword :: (clauses ++ body) ∧
        keyword.isWord word ∧ Matches (.sequence parts) clauses ∧
        Matches (.symbol .statement) body := by
  constructor
  · intro derived
    rcases matches_terminal_cons.mp derived with ⟨keyword, rest, rfl, reserved, derived⟩
    rcases (matches_append parts _).mp derived with ⟨clauses, body, rfl, front, back⟩
    exact ⟨keyword, clauses, body, rfl, reserved, front, matches_singleton.mp back⟩
  · rintro ⟨keyword, clauses, body, rfl, reserved, front, back⟩
    exact matches_terminal_cons.mpr ⟨keyword, _, rfl, reserved,
      (matches_append parts _).mpr ⟨clauses, body, rfl, front, matches_singleton.mpr back⟩⟩

theorem matches_whileStatement : Matches (.symbol .whileStatement) tokens ↔
      ∃ keyword cond body, tokens = keyword :: (cond ++ body) ∧
        keyword.isWord .whileWord ∧ Matches (.sequence conditionParts) cond ∧
        Matches (.symbol .statement) body :=
  matches_symbol.trans (matches_loop .whileWord conditionParts)

theorem matches_forStatement : Matches (.symbol .forStatement) tokens ↔
      ∃ keyword clauses body, tokens = keyword :: (clauses ++ body) ∧ keyword.isWord .forWord ∧
        Matches (.sequence clauseParts) clauses ∧ Matches (.symbol .statement) body :=
  matches_symbol.trans (matches_loop .forWord clauseParts)

/-- What follows the first statement of a choice. -/
def Alternative (tokens : List Token) : Prop :=
  tokens = [] ∨ ∃ alternative no, tokens = alternative :: no ∧
    alternative.isWord .elseWord ∧ Matches (.symbol .statement) no

theorem matches_alternative : Matches (.optional (.sequence [.word .elseWord, .symbol .statement]))
        tokens ↔ Alternative tokens := by
  rw [matches_optional]
  refine or_congr_right ?_
  constructor
  · intro derived
    rcases matches_terminal_cons.mp derived with ⟨alternative, no, rfl, isElse, otherwise⟩
    exact ⟨alternative, no, rfl, isElse, matches_singleton.mp otherwise⟩
  · rintro ⟨alternative, no, rfl, isElse, otherwise⟩
    exact matches_terminal_cons.mpr ⟨alternative, no, rfl, isElse, matches_singleton.mpr otherwise⟩

theorem matches_ifStatement : Matches (.symbol .ifStatement) tokens ↔ ∃ keyword cond yes rest,
        tokens = keyword :: (cond ++ (yes ++ rest)) ∧ keyword.isWord .ifWord ∧
        Matches (.sequence conditionParts) cond ∧
        Matches (.symbol .statement) yes ∧ Alternative rest := by
  constructor
  · intro derived
    rcases matches_terminal_cons.mp (matches_symbol.mp derived) with
      ⟨keyword, rest, rfl, isIf, derived⟩
    rcases (matches_append conditionParts _).mp derived with ⟨cond, rest, rfl, conditional, derived⟩
    rcases matches_cons.mp derived with ⟨yes, rest, rfl, chosen, derived⟩
    exact ⟨keyword, cond, yes, rest, rfl, isIf, conditional, chosen,
      matches_alternative.mp (matches_singleton.mp derived)⟩
  · rintro ⟨keyword, cond, yes, rest, rfl, isIf, conditional, chosen, alternative⟩
    refine .symbol (matches_terminal_cons.mpr ⟨keyword, _, rfl, isIf, ?_⟩)
    refine (matches_append conditionParts _).mpr ⟨cond, _, rfl, conditional, ?_⟩
    exact .next chosen (matches_singleton.mpr (matches_alternative.mpr alternative))

/-- The statements that no other statement ends. -/
def simpleStatements : List Symbol :=
  [.expressionStatement, .printStatement, .returnStatement, .block]

/-- A statement is a simple one, a loop or a choice. -/
theorem matches_statement : Matches (.symbol .statement) tokens ↔
      (∃ symbol ∈ simpleStatements, Matches (.symbol symbol) tokens) ∨
        Matches (.symbol .whileStatement) tokens ∨ Matches (.symbol .forStatement) tokens ∨
        Matches (.symbol .ifStatement) tokens := by
  rw [matches_symbol]
  simp only [production, matches_choice, simpleStatements, mem_cons,
    not_mem_nil, or_false, exists_eq_or_imp, exists_eq_left]
  grind

end

/--
A statement that an `else` behind it cannot belong to: every choice at its end
has an alternative.
-/
inductive Closed : List Token → Prop where
  | simple {symbol tokens} (simple : symbol ∈ simpleStatements)
      (stated : Matches (.symbol symbol) tokens) : Closed tokens
  | whileLoop {keyword condition body} (isWhile : keyword.isWord .whileWord)
      (conditional : Matches (.sequence conditionParts) condition)
      (closed : Closed body) : Closed (keyword :: (condition ++ body))
  | forLoop {keyword clauses body} (isFor : keyword.isWord .forWord)
      (counted : Matches (.sequence clauseParts) clauses)
      (closed : Closed body) : Closed (keyword :: (clauses ++ body))
  | ifElse {keyword alternative condition yes no}
      (isIf : keyword.isWord .ifWord) (conditional : Matches (.sequence conditionParts) condition)
      (chosen : Closed yes) (isElse : alternative.isWord .elseWord) (otherwise : Closed no) :
      Closed (keyword :: (condition ++ (yes ++ alternative :: no)))

/-- Closed statements are statements. -/
theorem Closed.stated {tokens : List Token} (closed : Closed tokens) :
    Matches (.symbol .statement) tokens := by
  induction closed with
  | simple simple stated => exact matches_statement.mpr (.inl ⟨_, simple, stated⟩)
  | whileLoop isWhile conditional _ stated =>
    exact matches_statement.mpr (.inr (.inl (matches_whileStatement.mpr
      ⟨_, _, _, rfl, isWhile, conditional, stated⟩)))
  | forLoop isFor counted _ stated =>
    exact matches_statement.mpr (.inr (.inr (.inl
      (matches_forStatement.mpr ⟨_, _, _, rfl, isFor, counted, stated⟩))))
  | ifElse isIf conditional _ isElse _ chosen otherwise =>
    exact matches_statement.mpr (.inr (.inr (.inr
      (matches_ifStatement.mpr ⟨_, _, _, _, rfl, isIf, conditional, chosen,
        .inr ⟨_, _, rfl, isElse, otherwise⟩⟩))))

/-- An `else` and a statement can be put behind a statement. -/
def Extends (tokens : List Token) : Prop :=
  ∀ alternative no, alternative.isWord .elseWord → Matches (.symbol .statement) no →
      Matches (.symbol .statement) (tokens ++ alternative :: no)

theorem Extends.whileLoop {keyword : Token} {cond body : List Token}
    (isWhile : keyword.isWord .whileWord)
    (conditional : Matches (.sequence conditionParts) cond)
    (ends : Extends body) : Extends (keyword :: (cond ++ body)) := by
  intro alternative no isElse otherwise
  refine matches_statement.mpr (.inr (.inl (matches_whileStatement.mpr
    ⟨keyword, cond, body ++ alternative :: no, ?_, isWhile, conditional,
      ends alternative no isElse otherwise⟩)))
  rw [cons_append, append_assoc]

theorem Extends.forLoop {keyword : Token} {clauses body : List Token}
    (isFor : keyword.isWord .forWord) (counted : Matches (.sequence clauseParts) clauses)
    (ends : Extends body) : Extends (keyword :: (clauses ++ body)) := by
  intro alternative no isElse otherwise
  refine matches_statement.mpr (.inr (.inr (.inl (matches_forStatement.mpr
    ⟨keyword, clauses, body ++ alternative :: no, ?_, isFor, counted,
      ends alternative no isElse otherwise⟩))))
  rw [cons_append, append_assoc]

section

variable {keyword : Token} {cond yes : List Token} (isIf : keyword.isWord .ifWord)
  (conditional : Matches (.sequence conditionParts) cond)
  (chosen : Matches (.symbol .statement) yes)

include isIf conditional chosen

/-- A choice without an alternative can get one. -/
theorem Extends.ifThen : Extends (keyword :: (cond ++ yes)) := by
  intro alternative no isElse otherwise
  refine matches_statement.mpr (.inr (.inr (.inr (matches_ifStatement.mpr
    ⟨keyword, cond, yes, alternative :: no, ?_, isIf, conditional,
      chosen, .inr ⟨_, _, rfl, isElse, otherwise⟩⟩))))
  rw [cons_append, append_assoc]

/-- A choice can be extended if its last branch can. -/
theorem Extends.ifElse {alternative : Token} {no : List Token}
    (isElse : alternative.isWord .elseWord) (ends : Extends no) :
    Extends (keyword :: (cond ++ (yes ++ alternative :: no))) := by
  intro alternative' no' isElse' otherwise
  refine matches_statement.mpr (.inr (.inr (.inr (matches_ifStatement.mpr
    ⟨keyword, cond, yes, alternative :: (no ++ alternative' :: no'), ?_, isIf, conditional, chosen,
      .inr ⟨_, _, rfl, isElse, ends alternative' no' isElse' otherwise⟩⟩))))
  simp

end

/-- Every statement is closed or leaves an `else` to a choice at its end. -/
theorem closed_or_extends {tokens : List Token} (stated : Matches (.symbol .statement) tokens) :
    Closed tokens ∨ Extends tokens := by
  rcases matches_statement.mp stated with ⟨symbol, simple, stated⟩ | stated | stated | stated
  · exact .inl (.simple simple stated)
  · rcases matches_whileStatement.mp stated with
      ⟨keyword, cond, body, rfl, isWhile, conditional, repeated⟩
    exact (closed_or_extends repeated).imp
      (.whileLoop isWhile conditional) (.whileLoop isWhile conditional)
  · rcases matches_forStatement.mp stated with
      ⟨keyword, clauses, body, rfl, isFor, counted, repeated⟩
    exact (closed_or_extends repeated).imp (.forLoop isFor counted) (.forLoop isFor counted)
  · rcases matches_ifStatement.mp stated with
      ⟨keyword, cond, yes, rest, rfl, isIf, conditional, chosen,
        rfl | ⟨alternative, no, rfl, isElse, otherwise⟩⟩
    · rw [append_nil]
      exact .inr (.ifThen isIf conditional chosen)
    · rcases closed_or_extends chosen with yesClosed | yesExtends
      · exact (closed_or_extends otherwise).imp (.ifElse isIf conditional yesClosed isElse)
          (.ifElse isIf conditional chosen isElse)
      · -- The alternative then belongs to the end of the first statement.
        exact .inr (.ifThen isIf conditional (yesExtends alternative no isElse otherwise))
termination_by tokens.length
decreasing_by all_goals
    subst_vars
    simp only [length_cons, length_append]
    omega

end Treewalk.Grammar
