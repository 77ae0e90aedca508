import Treewalk.Proofs.ExpressionVerdicts

/-!
# Verdicts on statements and declarations

The rules for statements are decided like those for expressions.  Only an
`else` needs care: the grammar leaves open which choice it belongs to, the rule
gives it to the innermost one.  So a statement in front of an `else` has to be
closed.
-/

namespace Treewalk.Grammar

open Rule

/-- The word that announces an alternative. -/
def isElse (token : Token) : Bool :=
  token.isWord .elseWord

/--
A statement that is read as far as it goes: an `else` behind it does not belong
to it.
-/
def StatementBefore : Context := fun front back =>
  Closed front ∨ Matches (.symbol .statement) front ∧ Unseen isElse back

theorem StatementBefore.stated {front back : List Token} (admitted : StatementBefore front back) :
    Matches (.symbol .statement) front :=
  admitted.elim Closed.stated And.left

/-- The rule decides statements. -/
abbrev DecidesStatement (size : Nat) (rule : Rule Stmt) : Prop :=
  Decides size rule (.symbol .statement) StatementBefore

/-- What is left of a block after its opening brace. -/
def bodyParts : List Ebnf :=
  [.repeated (.symbol .declaration), .mark .rightBrace]

variable {parts : List Ebnf} {stmt : Rule Stmt} {cursor : Cursor} {mark : Punctuator}
  {expr : Rule Expr} {size : Nat} {tokens front back rest : List Token} {symbol : Symbol}
  {part : Ebnf} {α : Type}

theorem seen_before_mark (back : List Token)
    (derived : Matches (.sequence (.mark mark :: parts)) front) :
    Seen (·.isMark mark) (front ++ back) := by
  rcases matches_terminal_cons.mp derived with ⟨token, rest, rfl, marked, _⟩
  exact marked

theorem seen_before_mark_then {last : Context}
    (admitted : Then (.mark mark :: parts) last front back) :
    Seen (·.isMark mark) (front ++ back) := by
  rcases admitted with ⟨start, rest, rfl, derived, _⟩
  rw [List.append_assoc]
  exact seen_before_mark _ derived

theorem matches_pair {other : Ebnf} :
    Matches (.choice [part, other]) tokens ↔ Matches part tokens ∨ Matches other tokens := by
  simp

theorem matches_clause {other : Ebnf} :
    Matches (.choice [part, other, .mark mark]) tokens ↔ Matches (.choice [part, other]) tokens ∨
        ∃ token, tokens = [token] ∧ token.isMark mark := by
  simp [Ebnf.mark, Terminal.test, or_assoc]

/-! ## Statements without statements in them -/

section

variable (decides : DecidesExpression size expr)

include decides

theorem decides_terminated {rule : Expr → Token → Stmt} {fault : GrammarFault}
    (stops : fault.stops = true) :
    Judges size (do
        let value ← expr
        let ending ← expectMark .semicolon fault
        return rule value ending)
      (.sequence [.symbol .expression, .mark .semicolon]) Anything :=
  decides.next (fun _ => (Decides.expect (.mark .semicolon) stops).single.andReturn _)
    (.cons (.terminal _) .nil)
    fun _ back derived _ => ended_before_mark (by decide) back derived

theorem decides_expressionStatement :
    Judges size (expressionStatement expr) (.symbol .expressionStatement) Anything :=
  (decides_terminated decides rfl).produced

theorem decides_unlessSeen (ends : mark ∈ [Punctuator.semicolon, .rightParen]) :
    Judges size (unlessSeen mark expr) (.optional (.symbol .expression))
      (Seen fun token => token.isMark mark) := by
  have absent : Judges size (pure none : Rule (Option Expr)) (.sequence []) Anything := .pure none
  refine Decides.seesThen absent (decides.andReturn some) ?_ ?_ ?_ ?_
  · exact fun tokens empty => matches_optional.mpr (.inl (matches_nil.mp empty))
  · exact fun tokens derived => matches_optional.mpr (.inr derived)
  · rintro front back ⟨derived, _⟩ seen
    refine ⟨matches_nil.mpr ?_, trivial⟩
    refine (matches_optional.mp derived).resolve_right fun derived => ?_
    have unseen := isAhead_mark_of_startsExpression (derived.isAhead_append rfl back) ends
    rw [seen] at unseen
    cases unseen
  · rintro front back ⟨derived, seen⟩ unseen
    refine ⟨(matches_optional.mp derived).resolve_left ?_, ended_of_seen ?_ seen⟩
    · rintro rfl
      exact absurd seen (Bool.eq_false_iff.mp unseen)
    · revert ends
      cases mark <;> simp

theorem decides_returnStatement (keyword : Token) : Judges size (returnStatement expr keyword)
      (.sequence [.optional (.symbol .expression), .mark .semicolon]) Anything :=
  (decides_unlessSeen decides (by decide)).next
    (fun _ => (Decides.expect (.mark .semicolon) rfl).single.andReturn _)
    (.cons (.terminal _) .nil)
    fun _ back derived _ => seen_before_mark back derived

theorem decides_initialValue : Judges size (initialValue expr)
      (.optional (.sequence [.mark .equal, .symbol .expression]))
      (Seen fun token => token.isMark .semicolon) := by
  refine Decides.optional (.pure none) (fun _ => ?_) (Nat.le_succ size)
    fun _ seen => isAhead_of_otherMark seen (by decide)
  refine decides.single.weaken (fun _ => id) ?_ |>.andReturn some
  exact fun _ _ ⟨derived, seen⟩ => ⟨derived, ended_of_seen (by decide) seen⟩

theorem decides_varDeclaration : Judges size (varDeclaration expr)
      (.sequence [.name, .optional (.sequence [.mark .equal, .symbol .expression]),
        .mark .semicolon]) Anything := by
  refine (Decides.expect .name rfl).next (fun _ => ?_)
    (.cons (.optional _) (.cons (.terminal _) .nil)) fun _ _ _ _ => trivial
  exact (decides_initialValue decides).next
    (fun _ => (Decides.expect (.mark .semicolon) rfl).single.andReturn _) (.cons (.terminal _) .nil)
    fun _ back derived _ => seen_before_mark back derived

theorem decides_parenthesised {opening closing : GrammarFault}
    (opens : opening.stops = true) (closes : closing.stops = true) :
    Judges size (parenthesised opening closing expr) (.sequence conditionParts) Anything := by
  refine (Decides.expect (.mark .leftParen) opens).next (fun _ => ?_)
    (.cons .expression (.cons (.terminal _) .nil)) fun _ _ _ _ => trivial
  exact decides.next (fun _ => (Decides.expect (.mark .rightParen) closes).single.andReturn _)
    (.cons (.terminal _) .nil)
    fun _ back derived _ => ended_before_mark (by decide) back derived

theorem decides_initialStatement : Judges size (do
        match ← takeWord .varWord with
        | some _ =>
          let declared ← varDeclaration expr
          return some declared
        | none =>
          let stated ← expressionStatement expr
          return some stated)
      (.choice [.symbol .varDeclaration, .symbol .expressionStatement]) Anything := by
  refine Decides.takeThen ((decides_expressionStatement decides).andReturn some)
    (fun _ _ => (decides_varDeclaration decides).andReturn some) (Nat.le_succ size) ?_ ?_ ?_ ?_
  · exact fun tokens stated => .choice (.tail _ (.head _)) stated
  · intro token tokens isVar derived
    exact .choice (.head _) (.symbol (matches_terminal_cons.mpr
      ⟨token, tokens, rfl, isVar, derived⟩))
  · rintro front back ⟨derived, _⟩ refused
    refine ⟨(matches_pair.mp derived).resolve_left fun declared => ?_, trivial⟩
    exact absurd (declared.isAhead_append rfl back) (Bool.eq_false_iff.mp refused)
  · rintro token front back isVar ⟨derived, _⟩ same
    rcases matches_pair.mp derived with declared | stated
    · rcases matches_terminal_cons.mp (matches_symbol.mp declared) with
        ⟨_, rest, rfl, _, following⟩
      cases same
      exact ⟨rest, rfl, following, trivial⟩
    · rcases stated.exists_cons rfl same with ⟨rest, rfl⟩
      have starts : startsExpression token = true := stated.begins
      rw [startsExpression_of_word isVar (by decide)] at starts
      cases starts

/-- The first clause of a loop with a counter. -/
theorem decides_forInitial : Judges size (forInitial expr)
      (.choice [.symbol .varDeclaration, .symbol .expressionStatement, .mark .semicolon])
      Anything := by
  have absent : Judges size (pure none : Rule (Option Stmt)) (.sequence []) Anything := .pure none
  refine Decides.takeThen (decides_initialStatement decides) (fun _ _ => absent)
    (Nat.le_succ size) ?_ ?_ ?_ ?_
  · exact fun tokens derived => matches_clause.mpr (.inl derived)
  · intro token tokens ends empty
    rw [matches_nil.mp empty]
    exact matches_clause.mpr (.inr ⟨token, rfl, ends⟩)
  · rintro front back ⟨derived, _⟩ refused
    refine ⟨(matches_clause.mp derived).resolve_right ?_, trivial⟩
    rintro ⟨token, rfl, ends⟩
    exact absurd ends (Bool.eq_false_iff.mp refused)
  · rintro token front back ends ⟨derived, _⟩ same
    rcases matches_clause.mp derived with stated | ⟨_, rfl, _⟩
    · rcases stated.exists_cons rfl same with ⟨rest, rfl⟩
      have starts := stated.begins
      simp [Ebnf.Begins, Ebnf.starts, Ebnf.startsAny, Symbol.starts,
        startsExpression_of_mark ends, Token.isWord, kind_of_isMark ends] at starts
    · cases same
      exact ⟨[], rfl, .done, trivial⟩

/-! ## Statements with statements in them -/

theorem decides_whileStatement (inner : DecidesStatement size stmt) :
    Decides size (whileStatement expr stmt) (.sequence (conditionParts ++ [.symbol .statement]))
      (Then conditionParts StatementBefore) := by
  refine (decides_parenthesised decides rfl rfl).appendThen (fun _ => ?_) (.cons .statement .nil)
  exact (inner.andReturn _).weaken (fun _ => matches_singleton.mpr) fun _ _ admitted => admitted

/-- A loop with a counter is decided if its parts are. -/
theorem decides_forStatement (inner : DecidesStatement size stmt) :
    Decides size (forStatement expr stmt)
      (.sequence (clauseParts ++ [.symbol .statement])) (Then clauseParts StatementBefore) := by
  have stmt : Live (.sequence [.symbol .statement]) :=
    .cons .statement .nil
  have closing : Live (.sequence [.mark .rightParen, .symbol .statement]) :=
    .cons (.terminal _) stmt
  have step : Live (.sequence [.optional (.symbol .expression),
      .mark .rightParen, .symbol .statement]) :=
    .cons (.optional _) closing
  have cond : Live (.sequence [.mark .semicolon,
      .optional (.symbol .expression), .mark .rightParen, .symbol .statement]) :=
    .cons (.terminal _) step
  have clause : Live (.choice [.symbol .varDeclaration,
      .symbol .expressionStatement, .mark .semicolon]) :=
    .choice (.tail _ (.tail _ (.head _))) (.terminal _)
  refine (Decides.expect (.mark .leftParen) rfl).nextThen (fun _ => ?_)
    (.cons clause (.cons (.optional _) cond)) fun _ _ _ => trivial
  refine (decides_forInitial decides).nextThen (fun _ => ?_)
    (.cons (.optional _) cond) fun _ _ _ => trivial
  refine (decides_unlessSeen decides (by decide)).nextThen (fun _ => ?_)
    cond fun _ _ => seen_before_mark_then
  refine (Decides.expect (.mark .semicolon) rfl).nextThen (fun _ => ?_) step fun _ _ _ => trivial
  refine (decides_unlessSeen decides (by decide)).nextThen (fun _ => ?_)
    closing fun _ _ => seen_before_mark_then
  refine (Decides.expect (.mark .rightParen) rfl).nextThen (fun _ => ?_) stmt fun _ _ _ => trivial
  exact (inner.andReturn _).lastThen

/-- What may follow the first statement of a choice. -/
def AlternativeBefore : Context := fun front back =>
  front = [] ∧ Unseen isElse back ∨
    ∃ alternative no, front = alternative :: no ∧ isElse alternative = true ∧
      StatementBefore no back

/-- A statement and what may follow it in a choice. -/
def ChoiceBefore : Context := fun front back =>
  ∃ yes rest, front = yes ++ rest ∧ StatementBefore yes (rest ++ back) ∧ AlternativeBefore rest back

theorem decides_ifStatement (inner : DecidesStatement size stmt) :
    Decides size (ifStatement expr stmt) (.sequence (conditionParts ++ [.symbol .statement,
        .optional (.sequence [.word .elseWord, .symbol .statement])]))
      (Then conditionParts ChoiceBefore) := by
  refine (decides_parenthesised decides rfl rfl).appendThen
    (fun cond => ?_) (.cons .statement (.cons (.optional _) .nil))
  refine inner.bind (fun yes => ?_) (fun _ _ => Nat.le_add_right _ _)
    (.cons (.optional _) .nil) (fun _ _ => .next) fun _ _ admitted => admitted
  have alone : Judges size (pure (.ifElse cond yes none) : Rule Stmt)
      (.sequence []) Anything := .pure _
  refine Decides.weaken (Decides.takeThen alone
    (fun _ _ => inner.andReturn _) (Nat.le_succ size) ?_ ?_ ?_ ?_)
    (fun _ => matches_singleton.mpr) fun _ _ admitted => admitted
  · exact fun tokens empty => matches_alternative.mpr (.inl (matches_nil.mp empty))
  · exact fun token tokens isElse otherwise => matches_alternative.mpr
      (.inr ⟨token, tokens, rfl, isElse, otherwise⟩)
  · rintro _ back (⟨rfl, _⟩ | ⟨alternative, no, rfl, isElse, _⟩) refused
    · exact ⟨.done, trivial⟩
    · exact absurd isElse (Bool.eq_false_iff.mp refused)
  · rintro token _ back isElse (⟨rfl, unseen⟩ | ⟨_, no, rfl, _, otherwise⟩) same
    · have seen : isAhead Grammar.isElse back =
          isAhead Grammar.isElse [token] := isAhead_congr _ same
      rw [unseen] at seen
      exact absurd isElse (Bool.eq_false_iff.mp seen.symm)
    · cases same
      exact ⟨no, rfl, otherwise⟩

end

/-! ## Which statement a word announces -/

section

variable {token : Token}

theorem isWord_excludes {word other : Keyword} (reserved : token.isWord word)
    (differs : word ≠ other) : ¬token.isWord other := by
  simp [Token.isWord, kind_of_isWord reserved, differs]

/-- The statement that a token announces. -/
def announced (token : Token) : Symbol :=
  match token.kind with
  | .keyword .forWord => .forStatement
  | .keyword .ifWord => .ifStatement
  | .keyword .whileWord => .whileStatement
  | .keyword .returnWord => .returnStatement
  | .punctuator .leftBrace => .block
  | .keyword .printWord => .printStatement
  | _ => .expressionStatement

/-- All kinds of statements. -/
def statementSymbols : List Symbol :=
  [.expressionStatement, .forStatement, .ifStatement, .printStatement,
    .returnStatement, .whileStatement, .block]

theorem announced_of_expression (starts : startsExpression token) :
    announced token = .expressionStatement := by
  rcases kind_of_startsExpression starts with ⟨marks, words⟩
  unfold announced
  split <;> rename_i kind
  case h_5 =>
    have allowed := marks .leftBrace (by simp [Token.isMark, kind])
    simp at allowed
  case h_7 => rfl
  all_goals
    have allowed := words _ (by simp [Token.isWord, kind]; rfl)
    simp at allowed

/-- The first token tells the kind of a statement. -/
theorem announced_of_starts (mem : symbol ∈ statementSymbols) (starts : symbol.starts token = true)
    : announced token = symbol := by
  simp only [statementSymbols, List.mem_cons, List.not_mem_nil, or_false] at mem
  rcases mem with rfl | rfl | rfl | rfl | rfl | rfl | rfl
  · exact announced_of_expression starts
  case inr.inr.inr.inr.inr.inr => simp [announced, kind_of_isMark starts]
  all_goals simp [announced, kind_of_isWord starts]

theorem settled_announced {rule : Rule α} {terminal : Terminal}
    (produces : production symbol = .sequence (.terminal terminal :: parts))
    (passes : terminal.test token = true)
    (decides : Judges size rule (.sequence parts) Anything)
    (ahead : cursor.ahead = token :: rest) :
    Settled (size + 1) (.symbol symbol) (Before (.symbol symbol) Anything)
      cursor (rule { cursor with ahead := rest }) := by
  refine decides.stepped (Nat.le_refl _) ahead ?_ ?_
  · intro tokens derived
    refine .symbol ?_
    rw [produces]
    exact matches_terminal_cons.mpr ⟨token, tokens, rfl, passes, derived⟩
  · rintro front back ⟨derived, _⟩ same
    rw [matches_symbol, produces] at derived
    rcases matches_terminal_cons.mp derived with ⟨_, tokens, rfl, _, following⟩
    cases same
    exact ⟨tokens, rfl, following, trivial⟩

/-- A production is a choice between symbols that the first token tells. -/
structure Announces (whole : Symbol) (symbols : List Symbol)
    (told : Token → Symbol) : Prop where
  produces : production whole = .choice (symbols.map .symbol)
  taking : whole.nullable = false
  first : ∀ token, ∀ symbol ∈ symbols, symbol.starts token = true → told token = symbol

namespace Announces

variable {whole : Symbol} {symbols : List Symbol} {told : Token → Symbol}
  (announces : Announces whole symbols told)

include announces

theorem derives (mem : symbol ∈ symbols) (derived : Matches (.symbol symbol) tokens) :
    Matches (.symbol whole) tokens := by
  refine .symbol ?_
  rw [announces.produces]
  exact .choice (List.mem_map_of_mem mem) derived

theorem chosen (derived : Matches (.symbol whole) (token :: tokens)) :
    Matches (.symbol (told token)) (token :: tokens) := by
  rw [matches_symbol, announces.produces] at derived
  rcases matches_choice.mp derived with ⟨part, mem, chosen⟩
  rcases List.mem_map.mp mem with ⟨symbol, known, rfl⟩
  rw [announces.first token symbol known chosen.begins]
  exact chosen

theorem settled {α : Type} {size : Nat} {cursor : Cursor}
    {result : EStateM.Result GrammarError Cursor α} {ctx wider : Context}
    (mem : symbol ∈ symbols)
    (tells : ∀ token, cursor.ahead.head? = some token → told token = symbol)
    (settled : Settled size (.symbol symbol) ctx cursor result)
    (admits : ∀ front back, wider front back → Matches (.symbol whole) front ∧
        (Matches (.symbol symbol) front → ctx front back)) :
    Settled size (.symbol whole) wider cursor result := by
  refine settled.weaken (fun _ => announces.derives mem) ?_
  intro front back admitted same
  rcases admits front back admitted with ⟨derived, narrows⟩
  refine narrows ?_
  cases front with
  | nil => cases derived.isAhead announces.taking
  | cons token tokens =>
    rw [← tells token same.symm]
    exact announces.chosen derived

theorem taken {rule : Rule α} (symbol : Symbol) (terminal : Terminal) {wider : Context}
    (mem : symbol ∈ symbols)
    (produces : production symbol = .sequence (.terminal terminal :: parts))
    (passes : terminal.test token = true) (tells : told token = symbol)
    (decides : Judges size rule (.sequence parts) Anything)
    (ahead : cursor.ahead = token :: rest)
    (admits : ∀ front back, wider front back → Matches (.symbol whole) front) :
    Settled (size + 1) (.symbol whole) wider cursor (rule { cursor with ahead := rest }) := by
  refine announces.settled mem (fun other same => ?_)
    (settled_announced produces passes decides ahead) fun front back admitted =>
      ⟨admits front back admitted, fun derived => ⟨derived, trivial⟩⟩
  rw [ahead] at same
  cases same
  exact tells

end Announces

theorem statement_announces : Announces .statement statementSymbols announced where
  produces := rfl
  taking := rfl
  first _ _ := announced_of_starts

theorem announced_of_simple (simple : symbol ∈ simpleStatements)
    (stated : Matches (.symbol symbol) (token :: tokens)) : announced token ∈ simpleStatements := by
  have mem : symbol ∈ statementSymbols := by
    revert simple
    simp only [simpleStatements, statementSymbols, List.mem_cons]
    grind
  rw [announced_of_starts mem stated.begins]
  exact simple

theorem statementBefore_while (isWhile : token.isWord .whileWord)
    (admitted : StatementBefore (token :: tokens) back) :
    Then conditionParts StatementBefore tokens back := by
  have compound : announced token = .whileStatement := by
    simp [announced, kind_of_isWord isWhile]
  rcases admitted with closed | ⟨stated, unseen⟩
  · cases closed with
    | simple simple stated =>
      exact absurd (announced_of_simple simple stated) (by rw [compound]; decide)
    | whileLoop _ conditional closed => exact ⟨_, _, rfl, conditional, .inl closed⟩
    | forLoop isFor | ifElse isFor => exact absurd isWhile (isWord_excludes isFor (by decide))
  · have stated := statement_announces.chosen stated
    rw [compound, matches_whileStatement] at stated
    rcases stated with ⟨_, cond, body, same, _, conditional, inner⟩
    cases same
    exact ⟨cond, body, rfl, conditional, .inr ⟨inner, unseen⟩⟩

theorem statementBefore_for (isFor : token.isWord .forWord)
    (admitted : StatementBefore (token :: tokens) back) :
    Then clauseParts StatementBefore tokens back := by
  have compound : announced token = .forStatement := by
    simp [announced, kind_of_isWord isFor]
  rcases admitted with closed | ⟨stated, unseen⟩
  · cases closed with
    | simple simple stated =>
      exact absurd (announced_of_simple simple stated) (by rw [compound]; decide)
    | whileLoop isWhile | ifElse isWhile => exact absurd isFor (isWord_excludes isWhile (by decide))
    | forLoop _ counted closed => exact ⟨_, _, rfl, counted, .inl closed⟩
  · have stated := statement_announces.chosen stated
    rw [compound, matches_forStatement] at stated
    rcases stated with ⟨_, clauses, body, same, _, counted, inner⟩
    cases same
    exact ⟨clauses, body, rfl, counted, .inr ⟨inner, unseen⟩⟩

/--
The alternative of a choice belongs to the innermost choice without one, so the
first statement of a choice can be taken to be closed.
-/
theorem statementBefore_if (isIf : token.isWord .ifWord)
    (admitted : StatementBefore (token :: tokens) back) :
    Then conditionParts ChoiceBefore tokens back := by
  have compound : announced token = .ifStatement := by
    simp [announced, kind_of_isWord isIf]
  rcases admitted with closed | ⟨stated, unseen⟩
  · cases closed with
    | simple simple stated =>
      exact absurd (announced_of_simple simple stated) (by rw [compound]; decide)
    | whileLoop isWhile | forLoop isWhile => exact absurd isIf (isWord_excludes isWhile (by decide))
    | ifElse _ conditional chosen isElse otherwise =>
      exact ⟨_, _, rfl, conditional, _, _, rfl, .inl chosen,
        .inr ⟨_, _, rfl, isElse, .inl otherwise⟩⟩
  · have stated := statement_announces.chosen stated
    rw [compound, matches_ifStatement] at stated
    rcases stated with ⟨_, cond, yes, rest, same, _, conditional, chosen, alternative⟩
    cases same
    refine ⟨cond, yes ++ rest, rfl, conditional, ?_⟩
    rcases alternative with rfl | ⟨alternative, no, rfl, isElse, otherwise⟩
    · exact ⟨yes, [], rfl, .inr ⟨chosen, unseen⟩, .inl ⟨rfl, unseen⟩⟩
    · -- If it can be put behind the first statement, it belongs there.
      rcases closed_or_extends chosen with closed | extends'
      · exact ⟨yes, alternative :: no, rfl, .inl closed,
          .inr ⟨alternative, no, rfl, isElse, .inr ⟨otherwise, unseen⟩⟩⟩
      · exact ⟨yes ++ alternative :: no, [], (List.append_nil _).symm,
          .inr ⟨extends' alternative no isElse otherwise, unseen⟩, .inl ⟨rfl, unseen⟩⟩

theorem settled_compound {rule : Rule Stmt} (symbol : Symbol) {word : Keyword} {ctx : Context}
    (mem : symbol ∈ statementSymbols)
    (produces : production symbol = .sequence (.word word :: parts))
    (reserved : token.isWord word = true) (decides : Decides size rule (.sequence parts) ctx)
    (ahead : cursor.ahead = token :: rest)
    (narrows : ∀ tokens back, StatementBefore (token :: tokens) back → ctx tokens back) :
    Settled (size + 1) (.symbol .statement) StatementBefore cursor
      (rule { cursor with ahead := rest }) := by
  refine decides.stepped (Nat.le_refl _) ahead ?_ ?_
  · intro tokens derived
    refine statement_announces.derives mem (.symbol ?_)
    rw [produces]
    exact matches_terminal_cons.mpr ⟨token, tokens, rfl, reserved, derived⟩
  · intro front back admitted same
    rcases admitted.stated.exists_cons rfl same with ⟨tokens, rfl⟩
    exact ⟨tokens, rfl, narrows tokens back admitted⟩

theorem settled_expressionStatement (decides : DecidesExpression size expr)
    (tells : ∀ token, cursor.ahead.head? = some token → announced token = .expressionStatement) :
    Settled size (.symbol .statement) StatementBefore cursor (expressionStatement expr cursor) :=
  statement_announces.settled (by decide) tells (decides_expressionStatement decides cursor)
    fun _ _ admitted => ⟨admitted.stated, fun stated => ⟨stated, trivial⟩⟩

/-- Statements are decided if their parts are. -/
theorem decides_statementRule {body : Rule (List Stmt)}
    (decides : DecidesExpression (size + 1) expr) (inner : DecidesStatement size stmt)
    (enclosed : Judges size body (.sequence bodyParts) Anything) :
    DecidesStatement (size + 1) (statementRule expr stmt body) := by
  have smaller := decides.shrink (Nat.le_succ size)
  rintro ⟨ahead, ending, nextId, errors⟩
  cases ahead with
  | nil => exact settled_expressionStatement decides nofun
  | cons token rest =>
    unfold statementRule
    dsimp only
    split <;> rename_i kind
    case h_1 =>
      have isFor : token.isWord .forWord := by simp [Token.isWord, kind]
      exact settled_compound .forStatement (by decide) rfl isFor
        (decides_forStatement smaller inner) rfl
        fun _ _ => statementBefore_for isFor
    case h_2 =>
      have isIf : token.isWord .ifWord := by simp [Token.isWord, kind]
      exact settled_compound .ifStatement (by decide) rfl isIf
        (decides_ifStatement smaller inner) rfl
        fun _ _ => statementBefore_if isIf
    case h_3 =>
      have isWhile : token.isWord .whileWord := by simp [Token.isWord, kind]
      exact settled_compound .whileStatement (by decide) rfl isWhile
        (decides_whileStatement smaller inner) rfl
        fun _ _ => statementBefore_while isWhile
    case h_4 =>
      exact statement_announces.taken .returnStatement (.word .returnWord)
        (by decide) rfl (by simp [Terminal.test, Token.isWord, kind])
        (by simp [announced, kind]) (decides_returnStatement smaller token)
        rfl fun _ _ => StatementBefore.stated
    case h_5 =>
      exact statement_announces.taken .block (.mark .leftBrace)
        (by decide) rfl (by simp [Terminal.test, Token.isMark, kind])
        (by simp [announced, kind]) (enclosed.andReturn _)
        rfl fun _ _ => StatementBefore.stated
    case h_6 =>
      exact statement_announces.taken .printStatement (.word .printWord)
        (by decide) rfl (by simp [Terminal.test, Token.isWord, kind])
        (by simp [announced, kind]) (decides_terminated smaller rfl)
        rfl fun _ _ => StatementBefore.stated
    case h_7 =>
      refine settled_expressionStatement decides fun _ same => ?_
      cases same
      simp only [announced]

end

/-! ## Declarations -/

/-- The rule decides declarations, none of which an `else` follows. -/
abbrev DecidesDeclaration (size : Nat) (rule : Rule (Option Stmt)) : Prop :=
  Decides size rule (.symbol .declaration) (Before (.symbol .declaration) (Unseen isElse))

/-- The rule decides what is left of a block. -/
abbrev DecidesBody (size : Nat) (rule : Rule (List Stmt)) : Prop :=
  Decides size rule (.sequence bodyParts) (Before (.sequence bodyParts) Anything)

section

variable {limit : Nat} {body : Rule (List Stmt)} {decl : Rule (Option Stmt)}

theorem startsDeclaration_of_else {token : Token} (isElse : Grammar.isElse token = true) :
    startsDeclaration token = false := by
  simp [startsDeclaration, startsStatement, kind_of_isWord isElse, startsExpression_of_word isElse]

/-- Declarations do not start with `else`. -/
theorem unseen_else {test : Token → Bool}
    (apart : ∀ token, test token = true → isElse token = false)
    (derived : Matches (.repeated (.symbol .declaration)) front) (ends : Ends test back) :
    Unseen isElse (front ++ back) := by
  cases front with
  | nil =>
    rcases ends with rfl | seen
    · rfl
    · exact isAhead_excludes apart seen
  | cons token front =>
    have starts : startsDeclaration token = true := derived.begins
    refine Bool.eq_false_iff.mpr fun isElse => ?_
    rw [startsDeclaration_of_else isElse] at starts
    cases starts

theorem decides_braced {β : Type} {item : Rule α} {follow : List Token → Prop}
    {fault : GrammarFault} (decides : Judges size item part follow)
    (taking : part.nullable = false)
    (apart : ∀ token : Token, token.isMark .rightBrace = true → part.starts token = false)
    (follows : ∀ front back, Matches (.repeated part) front →
      Ends (·.isMark .rightBrace) back → follow (front ++ back))
    (enough : size ≤ limit + 1) (stops : fault.stops = true) (value : List α → β) :
    Judges size (do
        let items ← repeatUntil (·.sees .rightBrace) item limit
        let _ ← expectMark .rightBrace fault
        return value items)
      (.sequence [.repeated part, .mark .rightBrace]) Anything :=
  (Decides.repeatUntil (sees_eq_isAhead .rightBrace) taking apart follows decides limit enough).next
    (fun _ => (Decides.expect (.mark .rightBrace) stops).single.andReturn _)
    (.cons (.terminal _) .nil) fun _ back derived _ => .inr (seen_before_mark back derived)

theorem decides_block (enough : size ≤ limit + 1) (decides : DecidesDeclaration size decl) :
    DecidesBody size (block limit decl) := by
  refine decides_braced decides rfl ?_ (fun _ _ => unseen_else ?_) enough rfl _
  · intro token closes
    simp [Ebnf.starts, Symbol.starts, startsDeclaration, startsStatement,
      startsExpression_of_mark closes, kind_of_isMark closes]
  · intro token closes
    simp [isElse, Token.isWord, kind_of_isMark closes]

theorem decides_callable (enough : size ≤ limit + 1) (kind : CallableKind)
    (enclosed : DecidesBody size body) :
    Judges size (callable limit kind body) (.symbol .function) Anything := by
  have listed : Judges size (listed limit .tooManyParameters (expectName .parameterName))
      (.optional (.symbol .parameters)) (Seen fun token => token.isMark .rightParen) := by
    refine .listed rfl (.terminal _) rfl (fun _ _ _ _ => trivial)
      (Decides.expect .name rfl) enough ?_ rfl
    intro token closes
    simp [Ebnf.starts, Terminal.test, kind_of_isMark closes]
  have braced : Live (.sequence [.symbol .block]) := .cons .block .nil
  have closing : Live (.sequence [.mark .rightParen, .symbol .block]) :=
    .cons (.terminal _) braced
  refine Decides.produced ((Decides.expect .name rfl).next (fun name => ?_)
    (.cons (.terminal _) (.cons (.optional _) closing)) fun _ _ _ _ => trivial)
  refine (Decides.expect (.mark .leftParen) rfl).next (fun _ => ?_)
    (.cons (.optional _) closing) fun _ _ _ _ => trivial
  refine listed.next (fun params => ?_) closing
    fun _ back derived _ => seen_before_mark back derived
  refine (Decides.expect (.mark .rightParen) rfl).next (fun _ => ?_) braced fun _ _ _ _ => trivial
  refine Decides.single (Decides.produced ?_)
  exact (Decides.expect (.mark .leftBrace) rfl).next
    (fun _ => enclosed.andReturn _) (.cons (.repeated _) (.cons (.terminal _) .nil))
    fun _ _ _ _ => trivial

theorem decides_superclass : Judges size superclass (.optional (.sequence [.mark .less, .name]))
      (Seen fun token => token.isMark .leftBrace) := by
  refine Decides.optional (.pure none) (fun _ => ?_) (Nat.le_succ size)
    fun _ seen => isAhead_of_otherMark seen (by decide)
  exact (Decides.expect .name rfl).next
    (fun _ => Decides.freshId.afterQuiet (fun _ => .pure _) .nil) .nil fun _ _ _ _ => trivial

theorem decides_classDeclaration (enough : size ≤ limit + 1) (enclosed : DecidesBody size body) :
    Judges size (classDeclaration limit body)
      (.sequence [.name, .optional (.sequence [.mark .less, .name]),
        .mark .leftBrace, .repeated (.symbol .function), .mark .rightBrace]) Anything := by
  have methods : Live (.sequence [.repeated (.symbol .function), .mark .rightBrace]) :=
    .cons (.repeated _) (.cons (.terminal _) .nil)
  refine (Decides.expect .name rfl).next (fun name => ?_)
    (.cons (.optional _) (.cons (.terminal _) methods)) fun _ _ _ _ => trivial
  refine decides_superclass.next (fun parent => ?_) (.cons (.terminal _) methods)
    fun _ back derived _ => seen_before_mark back derived
  refine (Decides.expect (.mark .leftBrace) rfl).next (fun _ => ?_) methods fun _ _ _ _ => trivial
  refine decides_braced (decides_callable enough .method enclosed) rfl ?_
    (fun _ _ _ _ => trivial) enough rfl _
  intro token closes
  simp [Ebnf.starts, Symbol.starts, kind_of_isMark closes]

theorem decides_funDeclaration (enough : size ≤ limit + 1) (enclosed : DecidesBody size body) :
    Judges size (funDeclaration limit body) (.sequence [.symbol .function]) Anything :=
  ((decides_callable enough .function enclosed).andReturn _).single

theorem resume_errors (cursor : Cursor) : cursor.resume.errors = cursor.errors := by
  unfold Cursor.resume
  split <;> rfl

/-- A fault that stops a declaration is noted like any other. -/
theorem decides_recover {rule : Rule Stmt} {ctx : Context} (decides : Decides size rule part ctx) :
    Decides size (recover rule) part ctx := by
  intro cursor
  have settled := decides cursor
  unfold recover
  cases ran : rule cursor with
  | ok stmt after =>
    rw [ran] at settled
    refine ⟨settled.keeps, fun short => ?_⟩
    cases settled.judged short with
    | accepts _ taken noted ahead ending errors harmless derived only =>
      exact .accepts _ taken noted ahead ending errors harmless derived only
    | rejects taken rest noted error ahead first harmless stops points viable excluded =>
      exact .rejects taken rest noted error ahead first harmless stops points viable excluded
  | error error after =>
    rw [ran] at settled
    have same : reported (.ok none (after.note error).resume :
        EStateM.Result GrammarError Cursor (Option Stmt)) =
          after.errors ++ [error] := resume_errors _
    refine ⟨?_, fun short => ?_⟩
    · dsimp only
      rw [same]
      exact settled.keeps
    · cases settled.judged short with
      | rejects taken rest noted error ahead first harmless stops points viable excluded =>
        refine .rejects taken rest noted error ahead ?_ harmless stops points viable excluded
        rw [same]
        exact first

/-- The declaration that a token announces. -/
def announcedDeclaration (token : Token) : Symbol :=
  match token.kind with
  | .keyword .classWord => .classDeclaration
  | .keyword .funWord => .funDeclaration
  | .keyword .varWord => .varDeclaration
  | _ => .statement

theorem declaration_announces :
    Announces .declaration [.classDeclaration, .funDeclaration, .varDeclaration, .statement]
      announcedDeclaration where
  produces := rfl
  taking := rfl
  first token symbol mem starts := by
    simp only [List.mem_cons, List.not_mem_nil, or_false] at mem
    rcases mem with rfl | rfl | rfl | rfl
    · simp [announcedDeclaration, kind_of_isWord starts]
    · simp [announcedDeclaration, kind_of_isWord starts]
    · simp [announcedDeclaration, kind_of_isWord starts]
    · unfold announcedDeclaration
      split <;> rename_i kind
      case h_4 => rfl
      all_goals
        simp [Symbol.starts, startsStatement, startsExpression, startsPrimary,
          isAnyMark, kind] at starts

theorem settled_plainStatement {result : EStateM.Result GrammarError Cursor Stmt}
    (stated : Settled size (.symbol .statement) StatementBefore cursor result)
    (tells : ∀ token, cursor.ahead.head? = some token → announcedDeclaration token = .statement) :
    Settled size (.symbol .declaration)
      (Before (.symbol .declaration) (Unseen isElse)) cursor result :=
  declaration_announces.settled (by decide) tells stated fun _ _ ⟨derived, unseen⟩ =>
      ⟨derived, fun stated => .inr ⟨stated, unseen⟩⟩

/-- Declarations are decided if their parts are. -/
theorem decides_declarationRule (enough : size ≤ limit + 1)
    (decides : DecidesExpression (size + 1) expr)
    (stated : DecidesStatement (size + 1) stmt) (enclosed : DecidesBody size body) :
    Judges (size + 1) (declarationRule limit expr stmt body) (.symbol .declaration)
      (Unseen isElse) := by
  have smaller := decides.shrink (Nat.le_succ size)
  rintro ⟨ahead, ending, nextId, errors⟩
  cases ahead with
  | nil => exact settled_plainStatement (stated _) nofun
  | cons token rest =>
    unfold declarationRule
    dsimp only
    split <;> rename_i kind
    case h_1 =>
      exact declaration_announces.taken .classDeclaration (.word .classWord)
        (by decide) rfl (by simp [Terminal.test, Token.isWord, kind])
        (by simp [announcedDeclaration, kind])
        (decides_classDeclaration enough enclosed) rfl fun _ _ => And.left
    case h_2 =>
      exact declaration_announces.taken .funDeclaration (.word .funWord)
        (by decide) rfl (by simp [Terminal.test, Token.isWord, kind])
        (by simp [announcedDeclaration, kind])
        (decides_funDeclaration enough enclosed) rfl fun _ _ => And.left
    case h_3 =>
      exact declaration_announces.taken .varDeclaration (.word .varWord)
        (by decide) rfl (by simp [Terminal.test, Token.isWord, kind])
        (by simp [announcedDeclaration, kind])
        (decides_varDeclaration smaller) rfl fun _ _ => And.left
    case h_4 =>
      refine settled_plainStatement (stated _) fun _ same => ?_
      cases same
      simp only [announcedDeclaration]

end

/-! ## Any size -/

/-- Statements and declarations of any size are decided. -/
theorem decides_within (limit : Nat) : DecidesStatement (limit + 1) (statementWithin limit) ∧
      DecidesDeclaration (limit + 1) (declarationWithin limit) := by
  induction limit with
  | zero =>
    have expr := decides_expressionWithin 0
    -- No token is ahead, so nothing is announced.
    have empty {cursor : Cursor} (short : cursor.ahead.length < 0 + 1) :
        cursor.ahead = [] := List.length_eq_zero_iff.mp (by omega)
    have stated : DecidesStatement (0 + 1)
        (expressionStatement (expressionWithin 0)) := fun cursor =>
      ⟨(decides_expressionStatement expr cursor).keeps, fun short =>
        (settled_expressionStatement expr (by rw [empty short]; exact nofun)).judged short⟩
    rw [statementWithin, declarationWithin]
    refine ⟨stated, decides_recover fun cursor => ?_⟩
    exact ⟨(stated cursor).keeps, fun short => (settled_plainStatement
      (stated cursor) (by rw [empty short]; exact nofun)).judged short⟩
  | succ limit ih =>
    rcases ih with ⟨stmt, decl⟩
    have expr := decides_expressionWithin (limit + 1)
    have body := decides_block (Nat.le_refl (limit + 1)) decl
    have stated := decides_statementRule expr stmt body
    constructor
    · rw [statementWithin]
      exact stated
    · rw [declarationWithin]
      exact decides_recover (decides_declarationRule (Nat.le_refl _) expr stated body)

end Treewalk.Grammar
