import Treewalk.Proofs.ReadingBounds
import Treewalk.Proofs.RuleVerdicts

/-!
# Verdicts on expressions

Every rule for expressions decides its production of the lenient grammar.  The
rules are taken from the tightest to the loosest, as they are built on each
other.  The limits on their loops are not felt, since every round takes a
token.
-/

namespace Treewalk.Grammar

open Rule List

/-- The rule decides expressions in front of tokens that do not extend them. -/
abbrev DecidesExpression (size : Nat) (rule : Rule Expr) : Prop :=
  Decides size rule (.symbol .expression) (Before (.symbol .expression) (Unseen extendsExpression))

/-- The token extends what a level of operators derives. -/
def extendsLevel (level : Level) (token : Token) : Bool :=
  level.operates token || extendsOperand level token

/-- A level of operators is decided. -/
abbrev DecidesLevel (size limit : Nat) (expression : Rule Expr) (level : Level) : Prop :=
  Decides size (levelRule level limit expression) (.symbol (.level level))
    (Before (.symbol (.level level)) (Unseen (extendsLevel level)))

/-! ## Lookahead -/

variable {tokens front : List Token} {mark : Punctuator} {token : Token} {level : Level}

theorem ended_before_mark (ends : mark ∈ [Punctuator.semicolon, .rightParen, .comma])
    {parts : List Ebnf} (back : List Token)
    (derived : Matches (.sequence (.mark mark :: parts)) front) :
    Unseen extendsExpression (front ++ back) := by
  rcases matches_terminal_cons.mp derived with ⟨token, rest, rfl, marked, _⟩
  exact extendsExpression_of_isMark marked ends

/-- An expression ends in front of these marks. -/
theorem ended_of_seen (ends : mark ∈ [Punctuator.semicolon, .rightParen, .comma])
    (seen : Seen (·.isMark mark) tokens) : Unseen extendsExpression tokens :=
  isAhead_excludes (fun _ marked => extendsExpression_of_isMark marked ends) seen

theorem isMark_excludes {other : Punctuator} (marked : token.isMark mark) (differs : mark ≠ other) :
    ¬token.isMark other := by
  simp [Token.isMark, kind_of_isMark marked, differs]

theorem startsExpression_of_mark (marked : token.isMark mark)
    (other : mark ∉ [Punctuator.bang, .minus, .leftParen]) : startsExpression token = false :=
  Bool.eq_false_iff.mpr fun starts => other ((kind_of_startsExpression starts).1 mark marked)

theorem startsExpression_of_word {word : Keyword} (reserved : token.isWord word)
    (other : word ∉ [Keyword.falseWord, .trueWord, .nilWord, .thisWord]) :
    startsExpression token = false :=
  Bool.eq_false_iff.mpr fun starts => other ((kind_of_startsExpression starts).2 word reserved)

/-! ## Productions -/

/-- The token is a primary expression of its own. -/
def standsAlone (token : Token) : Bool :=
  Terminal.constant.test token || token.isWord .thisWord || token.kind == .identifier

/-- A primary is one token, or starts with a parenthesis. -/
theorem matches_primary :
    Matches (.symbol .primary) tokens ↔ (∃ token, tokens = [token] ∧ standsAlone token = true) ∨
      ∃ opening rest, tokens = opening :: rest ∧ opening.isMark .leftParen ∧
        Matches (.sequence [.symbol .expression, .mark .rightParen]) rest := by
  rw [matches_symbol]
  simp only [production, matches_choice, mem_cons, not_mem_nil,
    or_false, exists_eq_or_imp, exists_eq_left, Ebnf.word, Ebnf.name, Ebnf.mark,
    matches_terminal, matches_terminal_cons, Terminal.test, standsAlone, Bool.or_eq_true]
  grind

theorem standsAlone_of_opening (opens : token.isMark .leftParen) : standsAlone token = false := by
  simp [standsAlone, Terminal.test, constant?, Token.isWord, kind_of_isMark opens]

/-- What may follow a primary expression. -/
def callSuffix : Ebnf :=
  .choice [
    .sequence [.mark .leftParen, .optional (.symbol .arguments), .mark .rightParen],
    .sequence [.mark .dot, .name]]

/-- A call goes on with arguments or with a name. -/
theorem matches_callSuffix : Matches callSuffix tokens ↔
      (∃ opening rest, tokens = opening :: rest ∧ opening.isMark .leftParen ∧
        Matches (.sequence [.optional (.symbol .arguments), .mark .rightParen]) rest) ∨
      ∃ dot rest, tokens = dot :: rest ∧ dot.isMark .dot ∧ Matches .name rest := by
  simp only [callSuffix, matches_choice, mem_cons, not_mem_nil,
    or_false, exists_eq_or_imp, exists_eq_left, Ebnf.mark,
    matches_terminal_cons, Terminal.test, matches_singleton]

theorem matches_callSuffix_opening {opening : Token} (opens : opening.isMark .leftParen) :
    Matches callSuffix (opening :: tokens) ↔
      Matches (.sequence [.optional (.symbol .arguments), .mark .rightParen]) tokens := by
  rw [matches_callSuffix]
  constructor
  · rintro (⟨_, _, same, _, enclosed⟩ | ⟨_, _, same, dots, _⟩)
    · cases same
      exact enclosed
    · cases same
      exact absurd opens (isMark_excludes dots (by decide))
  · exact fun enclosed => .inl ⟨opening, tokens, rfl, opens, enclosed⟩

theorem matches_callSuffix_dot {dot : Token} (dots : dot.isMark .dot) :
    Matches callSuffix (dot :: tokens) ↔ Matches .name tokens := by
  rw [matches_callSuffix]
  constructor
  · rintro (⟨_, _, same, opens, _⟩ | ⟨_, _, same, _, named⟩)
    · cases same
      exact absurd opens (isMark_excludes dots (by decide))
    · cases same
      exact named
  · exact fun named => .inr ⟨dot, tokens, rfl, dots, named⟩

theorem starts_callSuffix : callSuffix.starts = extendsCall := by
  funext token
  simp [callSuffix, extendsCall, Ebnf.starts, Ebnf.startsAny, Ebnf.startsFirst,
    Ebnf.nullable, Ebnf.mark, Terminal.test, Indexed.isAnyMark_cons, Indexed.isAnyMark_nil]

/-- A unary is a call with negations in front of it. -/
theorem matches_unary : Matches (.symbol .unary) tokens ↔
      (∃ op rest, tokens = op :: rest ∧ isAnyMark [.bang, .minus] op = true ∧
        Matches (.symbol .unary) rest) ∨ Matches (.symbol .call) tokens := by
  rw [matches_symbol]
  simp only [production, matches_choice, mem_cons, not_mem_nil,
    or_false, exists_eq_or_imp, exists_eq_left, matches_terminal_cons,
    Terminal.test, matches_singleton]

theorem startsPrimary_of_negation (negates : isAnyMark [.bang, .minus] token = true) :
    startsPrimary token = false := by
  cases kind : token.kind with
  | punctuator mark =>
    revert negates
    cases mark <;> simp [isAnyMark, startsPrimary, kind]
  | _ => simp [isAnyMark, kind] at negates

/-- A level goes on with its operators or as its operands do. -/
theorem unseen_extendsLevel : Unseen (extendsLevel level) tokens ↔
      Unseen level.operates tokens ∧ Unseen (extendsOperand level) tokens := by
  unfold Unseen
  rw [← Bool.or_eq_false_iff, ← isAhead_or]
  rfl

/-- The operations of a level that follow an operand. -/
def chainSuffix (level : Level) : Ebnf :=
  .sequence [.terminal (.operator level), .operand level]

theorem matches_chainSuffix {op : Token} (operates : level.operates op = true) :
    Matches (chainSuffix level) (op :: tokens) ↔ Matches (.operand level) tokens := by
  rw [chainSuffix, matches_terminal_cons]
  constructor
  · rintro ⟨_, _, same, _, valued⟩
    cases same
    exact matches_singleton.mp valued
  · exact fun valued => ⟨op, tokens, rfl, operates, matches_singleton.mpr valued⟩

theorem starts_chainSuffix (level : Level) : (chainSuffix level).starts = level.operates := by
  funext token
  simp [chainSuffix, Ebnf.starts, Ebnf.startsFirst, Ebnf.nullable, Terminal.test]

/-- Operands end in front of operators of their level. -/
theorem ended_before_operations {back : List Token}
    (more : Matches (.repeated (chainSuffix level)) front)
    (unseen : Unseen (extendsLevel level) back) :
    Unseen (extendsOperand level) (front ++ back) := by
  cases front with
  | nil => exact (unseen_extendsLevel.mp unseen).2
  | cons token front =>
    have starts : (chainSuffix level).starts token = true := more.begins
    rw [starts_chainSuffix] at starts
    exact extendsOperand_of_operates starts

theorem nullable_operand (level : Level) : (Ebnf.operand level).nullable = false := by
  cases level <;> rfl

theorem matches_expression : Matches (.symbol .expression) tokens ↔
      Matches (.sequence [.symbol (.level .disjunction),
        .optional (.sequence [.mark .equal, .symbol .expression])]) tokens := by
  have renamed {tokens : List Token} :
      Matches (.symbol .expression) tokens ↔ Matches (.symbol .assignment) tokens := matches_symbol
  rw [renamed, matches_symbol]
  constructor
  · intro derived
    rcases matches_choice.mp derived with ⟨part, mem, chosen⟩
    simp only [mem_cons, not_mem_nil, or_false] at mem
    rcases mem with rfl | rfl
    · rcases matches_cons.mp chosen with ⟨target, rest, rfl, head, tail⟩
      rcases matches_terminal_cons.mp tail with ⟨equals, value, rfl, isEqual, tail⟩
      refine .next head (matches_singleton.mpr (matches_optional.mpr (.inr ?_)))
      exact matches_terminal_cons.mpr ⟨equals, value, rfl, isEqual,
        matches_singleton.mpr (renamed.mpr (matches_singleton.mp tail))⟩
    · rw [← append_nil tokens]
      exact .next chosen (matches_singleton.mpr (matches_optional.mpr (.inl rfl)))
  · intro derived
    rcases matches_cons.mp derived with ⟨target, rest, rfl, head, tail⟩
    rcases matches_optional.mp (matches_singleton.mp tail) with rfl | tail
    · rw [append_nil]
      exact .choice (.tail _ (.head _)) head
    · rcases matches_terminal_cons.mp tail with ⟨equals, value, rfl, isEqual, tail⟩
      refine .choice (.head _) (.next head ?_)
      exact matches_terminal_cons.mpr ⟨equals, value, rfl, isEqual,
        matches_singleton.mpr (renamed.mp (matches_singleton.mp tail))⟩

/-- Targets end in front of the sign of an assignment. -/
theorem ended_before_assignment {back : List Token}
    (assigned : Matches (.optional (.sequence [.mark .equal, .symbol .expression])) front)
    (unseen : Unseen extendsExpression back) :
    Unseen (extendsLevel .disjunction) (front ++ back) := by
  rcases matches_optional.mp assigned with rfl | assigned
  · refine unseen_extendsLevel.mpr ?_
    exact (ended_of_not_extends unseen).2
  · rcases matches_terminal_cons.mp assigned with ⟨token, _, rfl, isEqual, _⟩
    simp [Unseen, isAhead, extendsLevel, extendsOperand, extendsCall,
      Level.above, Level.operates, isAnyMark, Token.isWord, kind_of_isMark isEqual]

/-! ## Operators -/

variable {size limit : Nat} {expr : Rule Expr}

variable {operand : Rule Expr}

/-- Operators in front of an operand. -/
theorem decides_negations {room : Nat}
    (called : Judges room operand (.symbol .call) (Unseen extendsCall)) :
    Judges room (do
        let ops ← Rule.takeWhile (isAnyMark [.bang, .minus])
        let value ← operand
        return ops.foldr Expr.unary value)
      (.symbol .unary) (Unseen extendsCall) := by
  induction room with
  | zero =>
    -- There is nothing to judge, but faults have to be kept all the same.
    refine fun cursor => ⟨?_, nofun⟩
    refine Decides.keeps_bind (fun _ => prefix_refl _) (fun _ => ?_) cursor
    exact Decides.keeps_bind (fun cursor => (called cursor).keeps) fun _ _ => prefix_refl _
  | succ room ih =>
    have smaller := called.shrink (Nat.le_succ room)
    rw [Indexed.unary_eq_takeIf]
    refine Decides.takeThen called (fun _ _ => (ih smaller).andReturn _) (Nat.le_refl _) ?_ ?_ ?_ ?_
    · exact fun tokens derived => matches_unary.mpr (.inr derived)
    · exact fun token tokens negates derived =>
        matches_unary.mpr (.inl ⟨token, tokens, rfl, negates, derived⟩)
    · rintro front back ⟨derived, unseen⟩ refused
      rcases matches_unary.mp derived with
        ⟨op, rest, rfl, negates, _⟩ | derived
      · exact absurd negates (Bool.eq_false_iff.mp refused)
      · exact ⟨derived, unseen⟩
    · rintro token front back negates ⟨derived, unseen⟩ same
      rcases matches_unary.mp derived with
        ⟨op, rest, rfl, _, inner⟩ | derived
      · cases same
        exact ⟨rest, rfl, inner, unseen⟩
      · rcases derived.exists_cons rfl same with ⟨rest, rfl⟩
        have starts : startsPrimary token = true := derived.begins
        rw [startsPrimary_of_negation negates] at starts
        cases starts

theorem decides_chainMore {room : Nat} (decides : Judges room operand (.operand level)
      (Unseen (extendsOperand level))) (join : Expr → Token → Expr → Expr)
    (rounds : Nat) (enough : room ≤ rounds + 1) (left : Expr) :
    Judges room (chainMore join level.operates operand rounds left) (.repeated (chainSuffix level))
      (Unseen (extendsLevel level)) := by
  induction rounds generalizing room left with
  | zero =>
    -- Where no round is left, no token is.
    refine fun cursor => ⟨prefix_refl _, fun short => ?_⟩
    have empty : cursor.ahead = [] := length_eq_zero_iff.mp (by omega)
    exact (Settled.unrepeated left (by rw [empty]; rfl)).judged short
  | succ rounds ih =>
    have smaller := decides.shrink (Nat.sub_le room 1)
    have unseen (back : List Token) (ended : isAhead level.operates back = false) :
        Unseen (chainSuffix level).starts back := by
      rw [starts_chainSuffix]
      exact ended
    intro cursor
    refine .takeIf (fun refused => .unrepeated left (unseen _ refused))
      fun token rest ahead operates => ?_
    refine Decides.again ahead (by omega) ?_ rfl (fun _ => matches_chainSuffix operates) smaller
      (fun right => ih smaller (by omega) (join left token right))
      (fun back ended => unseen back (unseen_extendsLevel.mp ended).1)
      fun _ _ => ended_before_operations
    rw [starts_chainSuffix]
    exact operates

/-- A chain is decided if its operands are. -/
theorem decides_chain (enough : size ≤ limit + 1)
    (operand : Judges (size + 1) (operandRule level limit expr) (.operand level)
      (Unseen (extendsOperand level))) :
    DecidesLevel (size + 1) limit expr level := by
  unfold DecidesLevel
  rw [levelRule_eq_chain]
  refine Decides.produced (operand.nextTaking ?_ (nullable_operand level)
    (.cons (.repeated _) .nil) fun _ _ more => ended_before_operations (matches_singleton.mp more))
  exact fun first => (decides_chainMore (operand.shrink (Nat.le_succ size))
    level.join limit enough first).single

/-! ## Rules -/

section

variable (decides : DecidesExpression size expr)

include decides

theorem decides_finishGrouping :
    Judges size (finishGrouping expr) (.sequence [.symbol .expression, .mark .rightParen])
      Anything :=
  decides.next (fun _ => (Decides.expect (.mark .rightParen) rfl).single.andReturn _)
    (.cons (.terminal _) .nil)
    fun _ back derived _ => ended_before_mark (by decide) back derived

theorem decides_primary : Judges (size + 1) (primary expr) (.symbol .primary) Anything := by
  rintro ⟨ahead, ending, nextId, errors⟩
  have live : Live (.symbol .primary) :=
    .produced (.choice (by simp [Ebnf.name]) (.terminal .name))
  cases ahead with
  | nil => exact .unstarted rfl live rfl rfl
  | cons token rest =>
    have alone {rule : Rule Expr} (stands : standsAlone token = true)
        (quiet : Judges size rule (.sequence []) Anything) :
        Settled (size + 1) (.symbol .primary) (Before (.symbol .primary) Anything)
          ⟨token :: rest, ending, nextId, errors⟩ (rule ⟨rest, ending, nextId, errors⟩) := by
      refine quiet.stepped (Nat.le_refl _) rfl ?_ ?_
      · intro tokens empty
        rw [matches_nil.mp empty]
        exact matches_primary.mpr (.inl ⟨token, rfl, stands⟩)
      · rintro front back ⟨derived, _⟩ same
        rcases matches_primary.mp derived with ⟨other, rfl, _⟩ | ⟨opening, inner, rfl, opens, _⟩
        · cases same
          exact ⟨[], rfl, .done, trivial⟩
        · cases same
          rw [standsAlone_of_opening opens] at stands
          cases stands
    -- The cases are the kinds of token that the rule tells apart.
    unfold primary
    dsimp only
    split <;> rename_i kind
    case h_6 =>
      exact alone (by simp [standsAlone, Token.isWord, kind])
        (Decides.freshId.afterQuiet (fun _ => .pure _) .nil)
    case h_7 =>
      exact alone (by simp [standsAlone, kind]) (Decides.freshId.afterQuiet (fun _ => .pure _) .nil)
    case h_8 =>
      have opens : token.isMark .leftParen := by simp [Token.isMark, kind]
      refine (decides_finishGrouping decides).stepped (Nat.le_refl _) rfl
        (fun tokens enclosed => matches_primary.mpr (.inr ⟨token, tokens, rfl, opens, enclosed⟩)) ?_
      rintro front back ⟨derived, _⟩ same
      rcases matches_primary.mp derived with
        ⟨other, rfl, stands⟩ | ⟨opening, inner, rfl, _, enclosed⟩
      · cases same
        rw [standsAlone_of_opening opens] at stands
        cases stands
      · cases same
        exact ⟨inner, rfl, enclosed, trivial⟩
    case h_9 =>
      refine .unstarted rfl live rfl ?_
      simp only [isAhead, Ebnf.starts, Symbol.starts, startsPrimary]
    all_goals
      exact alone (by simp [standsAlone, Terminal.test, constant?, kind]) (.pure _)

section

variable (enough : size ≤ limit + 1)

include enough

theorem decides_finishCall (callee : Expr) : Judges size (finishCall limit expr callee)
      (.sequence [.optional (.symbol .arguments), .mark .rightParen]) Anything := by
  have listed : Judges size (listed limit .tooManyArguments expr) (.optional (.symbol .arguments))
      (Seen fun token => token.isMark .rightParen) := by
    refine .listed rfl .expression rfl ?_ decides enough ?_ rfl
    · intro mark ends tokens
      exact ended_of_seen (by revert ends; cases mark <;> simp)
    · exact fun token closes => startsExpression_of_mark closes (by decide)
  refine listed.next (fun _ => (Decides.expect (.mark .rightParen) rfl).single.andReturn _)
    (.cons (.terminal _) .nil) ?_
  intro front back derived _
  rcases matches_terminal_cons.mp derived with ⟨token, rest, rfl, closes, _⟩
  exact closes

theorem decides_callMore (rounds : Nat) {left : Nat} (within : left ≤ size)
    (less : left ≤ rounds + 1) (callee : Expr) :
    Judges left (callMore limit expr rounds callee) (.repeated callSuffix)
      (Unseen extendsCall) := by
  induction rounds generalizing left callee with
  | zero =>
    -- Where no round is left, no token is.
    refine fun cursor => ⟨prefix_refl _, fun short => ?_⟩
    have empty : cursor.ahead = [] := length_eq_zero_iff.mp (by omega)
    exact (Settled.unrepeated callee (by rw [empty]; rfl)).judged short
  | succ rounds ih =>
    have smaller : left - 1 ≤ size := by omega
    have tail (callee : Expr) :=
      ih smaller (by omega) callee
    have unseen (back : List Token) (ended : Unseen extendsCall back) :
        Unseen callSuffix.starts back := by
      rw [starts_callSuffix]
      exact ended
    intro cursor
    refine .takeIf (fun refused => .unrepeated callee (unseen _ refused))
      fun token rest ahead passes => ?_
    have starts : callSuffix.starts token = true := by
      rw [starts_callSuffix]
      exact passes
    dsimp only
    split
    next opens =>
      exact Decides.again ahead (by omega) starts rfl (fun _ =>
        matches_callSuffix_opening opens)
        ((decides_finishCall decides enough callee).shrink smaller) tail
        unseen fun _ _ _ _ => trivial
    next other =>
      have dots : token.isMark .dot = true := by
        simpa [extendsCall, Indexed.isAnyMark_cons, Indexed.isAnyMark_nil, other] using passes
      exact Decides.again ahead (by omega) starts rfl (fun _ =>
        matches_callSuffix_dot dots) (Decides.expect .name rfl)
        (fun name => tail (.get callee name)) unseen fun _ _ _ _ => trivial

/-- A primary expression, with what may follow it. -/
theorem decides_call :
    Judges (size + 1) (call limit expr) (.symbol .call) (Unseen extendsCall) := by
  refine Decides.produced ((decides_primary decides).nextTaking ?_ rfl
    (.cons (.repeated _) .nil) fun _ _ _ _ => trivial)
  exact fun callee => (decides_callMore decides enough limit (Nat.le_refl size)
    enough callee).single

theorem decides_unary :
    Judges (size + 1) (unary limit expr) (.symbol .unary) (Unseen extendsCall) :=
  decides_negations (decides_call decides enough)

/-- The rule of each level decides the level. -/
theorem decides_level (level : Level) : DecidesLevel (size + 1) limit expr level := by
  have looser {level tighter : Level} (follows : level.tighter? = some tighter)
      (operand : DecidesLevel (size + 1) limit expr tighter) :
      DecidesLevel (size + 1) limit expr level := by
    refine decides_chain enough ?_
    rw [operandRule_of_tighter follows,
      funext (extendsOperand_of_tighter follows), Ebnf.operand, follows]
    exact operand
  have factor : DecidesLevel (size + 1) limit expr .factor :=
    decides_chain enough (decides_unary decides enough)
  have term : DecidesLevel (size + 1) limit expr .term :=
    looser rfl factor
  have comparison : DecidesLevel (size + 1) limit expr .comparison :=
    looser rfl term
  have equality : DecidesLevel (size + 1) limit expr .equality :=
    looser rfl comparison
  have conjunction : DecidesLevel (size + 1) limit expr .conjunction :=
    looser rfl equality
  cases level with
  | disjunction => exact looser rfl conjunction
  | _ => assumption

end

/-- What follows the target of an assignment. -/
theorem decides_assigned (target : Expr) : Judges size (do
        match ← takeMark .equal with
        | none => return target
        | some equals =>
          let value ← expr
          match target with
          | .name _ token =>
            let id ← freshId
            return .assign id token value
          | .get object property => return .set object property value
          | other =>
            noteAt .invalidTarget equals
            return other)
      (.optional (.sequence [.mark .equal, .symbol .expression])) (Unseen extendsExpression) := by
  refine Decides.optional (.pure target) (fun equals => decides.next
    (fun value => ?_) .nil ?_) (Nat.le_succ size) ?_
  · split
    · exact Decides.freshId.afterQuiet (fun _ => .pure _) .nil
    · exact .pure _
    · exact (Decides.noteAt rfl equals).afterQuiet (fun _ => .pure _) .nil
  · rintro front back empty unseen
    rw [matches_nil.mp empty]
    exact unseen
  · exact fun _ unseen => (ended_of_not_extends unseen).1

theorem decides_assignment (enough : size ≤ limit + 1) :
    DecidesExpression (size + 1) (assignment limit expr) := by
  refine ((decides_level decides enough .disjunction).nextTaking
    (fun target => (decides_assigned decides target).single) rfl
    (.cons (.optional _) .nil) fun _ _ assigned =>
      ended_before_assignment (matches_singleton.mp assigned)).weaken
    (fun _ => matches_expression.mpr) ?_
  exact fun _ _ ⟨derived, unseen⟩ => ⟨matches_expression.mp derived, unseen⟩

end

/-- By induction on the limit, expressions are decided. -/
theorem decides_expressionWithin (limit : Nat) :
    DecidesExpression (limit + 1) (expressionWithin limit) := by
  induction limit with
  | zero =>
    refine fun cursor => ⟨prefix_append _ _, fun short => ?_⟩
    have empty : cursor.ahead = [] := length_eq_zero_iff.mp (by omega)
    exact (Settled.unstarted rfl .expression rfl (by rw [empty]; rfl)).judged short
  | succ limit ih => exact decides_assignment ih (Nat.le_refl _)

end Treewalk.Grammar
