import Treewalk.Proofs.IndexedAgreement

/-!
# Reading by index stays within the tokens

Each rule over a cursor is tracked by its reader by index.  A reader stands at
the end mark at the latest, it looks back only after it has passed a token, and
every round of every loop passes a token.
-/

namespace Treewalk.Indexed

open Grammar (kind_of_isWord kind_of_isMark)

variable {source : Nat → Option Token} {bodyRule : Rule (List Stmt)} {statementRule' : Rule Stmt}
  {body : Reader (List Stmt)} {expr : Reader Expr} {rule : Rule Expr} {stream : TokenStream}
  {stmt : Reader Stmt} {fuel size limit depth : Nat} {place : Place}

section

variable (supplies : Supplies source stream) {α β : Type}

include supplies

/-! ## Expressions -/

variable {operand : Reader Expr} {rounds : Nat}

section

variable {join : Expr → Token → Expr → Expr} {test : Token → Bool} {operates : Reader Bool}
  (takes : TakesIf source test operates)

include takes

theorem tracks_chainMore (tracks : Tracks stream size 1 operand rule) (short : size ≤ limit + 1)
    (enough : size ≤ rounds) (left : Expr) :
    Tracks stream size 0 (chainMore source join operates operand rounds left)
      (Grammar.chainMore join test rule limit left) := by
  induction limit generalizing size rounds left with
  | zero =>
    cases rounds with
    | zero => exact fun _ _ _ => by omega
    | succ rounds => exact supplies.takesNone takes short (.pure size left)
  | succ limit ih =>
    cases rounds with
    | zero => exact fun _ _ _ => by omega
    | succ rounds =>
      have smaller : Tracks stream (size - 1) 1 operand rule :=
        tracks.shrink (Nat.sub_le size 1)
      refine supplies.takesThen takes (by omega) (Nat.zero_le 1)
        (.pure size left) fun token _ => TracksAfter.previous
          (Tracks.after (smaller.andThen fun right => ?_) token)
      exact ih smaller (by omega) (by omega) _

/-- A level of operators over a tighter level. -/
theorem tracks_chain (short : size ≤ limit + 1) (enough : size ≤ fuel)
    (tracks : Tracks stream (size + 1) 1 operand rule) :
    Tracks stream (size + 1) 1 (chain source join operates fuel operand)
      (Grammar.chain join test limit rule) :=
  tracks.bindTaking fun first =>
    tracks_chainMore supplies takes (tracks.shrink (Nat.le_succ size)) short enough first

end

omit supplies in
theorem cursor_next (place : Place) : { place.cursor stream with
    ahead := (place.next.cursor stream).ahead } = place.next.cursor stream := rfl

omit supplies in
theorem choose {place : Place} {token : Token} {test : Token → Bool}
    {yes no : Reader α} {start least : Nat} {result' : EStateM.Result GrammarError Cursor α}
    (found : source place.current = some token) (plain : token.isEnd = false)
    (present : test token → Agrees stream start least (yes place.next) result')
    (absent : test token = false → Agrees stream start least (no place) result') :
    Agrees stream start least ((do if ← takes source test then yes else no : Reader α) place)
      result' := by
  rw [choice_of_found found, plain, Bool.not_false, Bool.true_and]
  split
  · exact present ‹_›
  · exact absent (Bool.eq_false_iff.mpr ‹_›)

omit supplies in
/-- An id is handed out between a token and the look back at it. -/
theorem tracksAfter_occurrence {size : Nat} (make : ExprId → Token → Expr) (token : Token) :
    TracksAfter source stream token size
      (do
        let id ← freshId
        let name ← previous source
        return make id name)
      (do
        let id ← Rule.freshId
        return make id token) := by
  intro place found before room
  let later : Place := { place.next with nextId := place.nextId + 1 }
  have looked : previous source later = .ok token later :=
    previous_of_found found rfl
  have yields : (previous source >>= fun name =>
      Pure.pure (make place.nextId name)) later = .ok (make place.nextId token) later :=
    bind_of_ok looked
  show Agrees stream place.next.current 0
    ((previous source >>= fun name => Pure.pure (make place.nextId name))
      later) (.ok (make place.nextId token) (later.cursor stream))
  rw [yields]
  exact .ok _ later (Nat.le_refl _) before

theorem tracks_finishGrouping (tracks : Tracks stream size 1 expr rule) :
    Tracks stream size 0 (finishGrouping source expr) (Grammar.finishGrouping rule) :=
  tracks.andThen fun _ => (supplies.expect size _ _).andThen fun _ => .pure size _

/-- Primaries are tracked if expressions are. -/
theorem tracks_primary (tracks : Tracks stream size 1 expr rule) :
    Tracks stream (size + 1) 1 (primary source expr) (Grammar.primary rule) := by
  intro place within room
  cases supplies.faces within with
  | ending last found isEnd ahead =>
    have kind : stream.ending.kind = .endOfText := by
      simpa [Token.isEnd] using isEnd
    simp only [primary, valued, valueOf, reference, takesWord, takesMark,
      choice_of_found found, bind_of_ok (peek_of_found found), isEnd, kind,
      Bool.not_true, Bool.false_and, Bool.false_eq_true, if_false, Grammar.primary, ahead]
    exact supplies.fail (size + 1) 1 .expression place within room
  | token token before found plain ahead =>
    have constant (value : Literal) : Agrees stream place.current 1
        (.ok (Expr.literal value) place.next) (.ok (.literal value) (place.next.cursor stream)) :=
      .ok _ place.next (Nat.le_refl _) before
    refine choose found plain (fun isFalse => ?_) fun notFalse => ?_
    · simp only [Grammar.primary, ahead, cursor_next, kind_of_isWord isFalse]
      exact constant _
    refine choose found plain (fun isTrue => ?_) fun notTrue => ?_
    · simp only [Grammar.primary, ahead, cursor_next, kind_of_isWord isTrue]
      exact constant _
    refine choose found plain (fun isNil => ?_) fun notNil => ?_
    · simp only [Grammar.primary, ahead, cursor_next, kind_of_isWord isNil]
      exact constant _
    unfold valued
    rw [bind_of_ok (peek_of_found found)]
    cases carried : valueOf token with
    | some value =>
      have yields : Grammar.primary rule (place.cursor stream) =
          .ok (.literal value) (place.next.cursor stream) := by
        simp only [Grammar.primary, ahead, cursor_next]
        unfold valueOf at carried
        split at carried <;> simp_all
      simp only [yields, bind_of_ok (advance_of_found found plain)]
      exact constant _
    | none =>
      unfold reference
      refine choose found plain (fun isThis => ?_) fun notThis => ?_
      · simp only [Grammar.primary, ahead, cursor_next, kind_of_isWord isThis]
        exact (tracksAfter_occurrence .receiver token).next found before room
      refine choose found plain (fun named => ?_) fun notNamed => ?_
      · have kind : token.kind = .identifier := by simpa using named
        simp only [Grammar.primary, ahead, cursor_next, kind]
        exact (tracksAfter_occurrence .name token).next found before room
      refine choose found plain (fun opens => ?_) fun notOpens => ?_
      · simp only [Grammar.primary, ahead, cursor_next, kind_of_isMark opens]
        exact ((tracks_finishGrouping supplies tracks).after token).next found before room
      have failed : Grammar.primary rule (place.cursor stream) =
          Rule.fail .expression (place.cursor stream) := by
        simp only [Grammar.primary, ahead]
        split <;> simp_all [Token.isWord, Token.isMark, valueOf]
      rw [failed]
      exact supplies.fail (size + 1) 1 .expression place within room

omit supplies in
/-- A choice between two tests, made one after the other. -/
theorem takeIf_or (test other : Token → Bool) (cont : Option Token → Rule β) :
    (Rule.takeIf (fun token => test token || other token) >>= cont) =
      Rule.takeIf test >>= fun taken =>
        match taken with
        | some token => cont (some token)
        | none => Rule.takeIf other >>= cont := by
  funext ⟨ahead, ending, nextId, errors⟩
  cases ahead with
  | nil => rfl
  | cons token rest =>
    cases passes : test token <;> simp [Bind.bind, EStateM.bind, Rule.takeIf, passes]

omit supplies in
theorem isAnyMark_pair (mark other : Punctuator) :
    Grammar.isAnyMark [mark, other] = fun token => token.isMark mark || token.isMark other := by
  funext token
  rw [isAnyMark_cons, isAnyMark_cons, isAnyMark_nil, Bool.or_false]

section

variable (tracks : Tracks stream size 1 expr rule) (short : size ≤ limit + 1) (enough : size ≤ fuel)

include tracks short enough

theorem tracks_finishCall (callee : Expr) :
    Tracks stream size 0 (finishCall source fuel expr callee)
      (Grammar.finishCall limit rule callee) := by
  refine (supplies.listed .tooManyArguments tracks short enough).andThen fun _ => ?_
  exact (supplies.expect size _ _).andThen fun _ => .pure size _

theorem tracks_callMore {within rounds : Nat} (room : size ≤ within + 1)
    (left : size ≤ rounds) (callee : Expr) :
    Tracks stream size 0 (callMore source fuel expr rounds callee)
      (Grammar.callMore limit rule within callee) := by
  induction within generalizing size rounds callee with
  | zero =>
    cases rounds with
    | zero => exact fun _ _ _ => by omega
    | succ rounds =>
      exact supplies.takesNone (takesIf_takes _) room
        (supplies.takesNone (takesIf_takes _) room (.pure size callee))
  | succ within ih =>
    cases rounds with
    | zero => exact fun _ _ _ => by omega
    | succ rounds =>
      have smaller : Tracks stream (size - 1) 1 expr rule :=
        tracks.shrink (Nat.sub_le size 1)
      have more (called : Expr) : Tracks stream (size - 1) 0
          (callMore source fuel expr rounds called)
          (Grammar.callMore limit rule within called) :=
        ih smaller (by omega) (by omega) (by omega) (by omega) called
      have shrinks : size ≤ size - 1 + 1 := by omega
      unfold callMore Grammar.callMore
      rw [isAnyMark_pair, takeIf_or]
      refine supplies.takesThen (takesIf_takes _) shrinks (Nat.zero_le 1) ?_ fun token opens => ?_
      · refine supplies.takesThen (takesIf_takes _) shrinks
          (Nat.zero_le 1) (.pure size callee) fun token isDot => ?_
        have notOpening : token.isMark .leftParen = false := by
          simp [Token.isMark, kind_of_isMark isDot]
        simp only [notOpening]
        exact Tracks.after ((supplies.expect (size - 1) _ _).andThen
          fun property => more (.get callee property)) token
      · have finished := tracks_finishCall supplies smaller
          (by omega : size - 1 ≤ limit + 1) (by omega : size - 1 ≤ fuel)
          callee
        simp only [opens, if_true]
        exact Tracks.after (finished.andThen fun called => more called) token

end

omit supplies in
/-- Operators in front of an operand are read one after the other. -/
theorem unary_eq_takeIf (test : Token → Bool) (operand : Rule Expr) :
    (do
      let ops ← Rule.takeWhile test
      let value ← operand
      return ops.foldr Expr.unary value) =
    (do
      match ← Rule.takeIf test with
      | none => operand
      | some op =>
        let right ← (do
          let ops ← Rule.takeWhile test
          let value ← operand
          return ops.foldr Expr.unary value)
        return .unary op right) := by
  funext ⟨ahead, ending, nextId, errors⟩
  cases ahead with
  | nil =>
    simp only [Bind.bind, EStateM.bind, Rule.takeIf, Rule.takeWhile,
      List.takeWhile_nil, List.dropWhile_nil, List.foldr_nil]
    cases operand ⟨[], ending, nextId, errors⟩ <;> rfl
  | cons token rest =>
    cases passes : test token with
    | false =>
      simp only [Bind.bind, EStateM.bind, Rule.takeIf, Rule.takeWhile,
        passes, List.takeWhile_cons, List.dropWhile_cons,
        Bool.false_eq_true, if_false, List.foldr_nil]
      cases operand ⟨token :: rest, ending, nextId, errors⟩ <;> rfl
    | true =>
      simp only [Bind.bind, EStateM.bind, Rule.takeIf, Rule.takeWhile,
        passes, List.takeWhile_cons, List.dropWhile_cons, if_true, List.foldr_cons]
      cases operand ⟨rest.dropWhile test, ending, nextId, errors⟩ <;> rfl

theorem tracks_unaryMore (tracks : Tracks stream size 1 operand rule) (enough : size ≤ rounds) :
    Tracks stream size 1 (unaryMore source operand rounds)
      (do
        let ops ← Rule.takeWhile (Grammar.isAnyMark [.bang, .minus])
        let value ← rule
        return ops.foldr Expr.unary value) := by
  induction rounds generalizing size with
  | zero => exact fun _ _ _ => by omega
  | succ rounds ih =>
    have smaller : Tracks stream (size - 1) 1 operand rule :=
      tracks.shrink (Nat.sub_le size 1)
    rw [unary_eq_takeIf]
    refine supplies.takesThen (takesIf_takesAnyMark _)
      (by omega : size ≤ size - 1 + 1) (Nat.le_refl 1) tracks
      fun token _ => TracksAfter.previous (Tracks.after ?_ token)
    exact (ih smaller (by omega)).andThen fun _ =>
      .pure _ _

section

variable (tracks : Tracks stream size 1 expr rule) (short : size ≤ limit + 1) (enough : size < fuel)

include tracks short enough

/-- Negations are tracked if expressions are. -/
theorem tracks_unary :
    Tracks stream (size + 1) 1 (unary source fuel expr) (Grammar.unary limit rule) := by
  refine tracks_unaryMore supplies ?_ enough
  exact (tracks_primary supplies tracks).bindTaking fun callee =>
    tracks_callMore supplies tracks short (Nat.le_of_lt enough) short (Nat.le_of_lt enough) callee

/-- The six levels of operators, of which two are logical. -/
theorem tracks_disjunction : Tracks stream (size + 1) 1 (disjunction source fuel expr)
      (Grammar.disjunction limit rule) := by
  have rounds := Nat.le_of_lt enough
  iterate 2
    refine tracks_chain supplies (takesIf_takes _) short rounds ?_
  iterate 4
    refine tracks_chain supplies (takesIf_takesAnyMark _) short rounds ?_
  exact tracks_unary supplies tracks short enough

theorem tracks_assignment : Tracks stream (size + 1) 1 (assignment source fuel expr)
      (Grammar.assignment limit rule) := by
  refine (tracks_disjunction supplies tracks short enough).bindTaking fun target => ?_
  refine supplies.takesThen (takesIf_takes _) (Nat.le_succ size)
    (Nat.zero_le 1) (.pure size target) fun equals _ =>
      TracksAfter.previous (Tracks.after (tracks.andThen fun value => ?_) equals)
  cases target with
  | name _ token => exact (Tracks.freshId size).andThen fun _ => .pure size _
  | get object property => exact .pure size _
  | _ => exact (Tracks.noteAt size .invalidTarget equals).andThen fun _ => .pure size _

end

omit supplies in
theorem assignment_of_nil {cursor : Cursor} (limit : Nat) (rule : Rule Expr)
    (ahead : cursor.ahead = []) :
    Grammar.assignment limit rule cursor = Rule.fail .expression cursor := by
  rcases cursor with ⟨ahead', ending, nextId, errors⟩
  cases ahead
  rfl

/-- By induction on the limit, expressions are tracked. -/
theorem tracks_expression (deep : limit < depth) (enough : limit < fuel) :
    Tracks stream (limit + 1) 1 (expressionWithin source fuel depth)
      (Grammar.expressionWithin limit) := by
  induction limit generalizing depth with
  | zero =>
    cases depth with
    | zero => omega
    | succ depth =>
      intro place within room
      have nowhere : Tracks stream 0 1 (expressionWithin source fuel depth)
          (Grammar.expressionWithin 0) :=
        fun _ _ _ => by omega
      have agrees := tracks_assignment supplies nowhere
        (Nat.zero_le (0 + 1)) enough place within room
      cases supplies.faces within with
      | ending last found isEnd ahead =>
        rw [assignment_of_nil _ _ ahead] at agrees
        exact agrees
      | token token before found plain ahead => omega
  | succ limit ih =>
    cases depth with
    | zero => omega
    | succ depth =>
      exact tracks_assignment supplies (ih (by omega) (by omega)) (Nat.le_refl _) enough

/-! ## Statements -/

section

variable (tracks : Tracks stream size 1 expr rule)

include tracks

theorem tracks_expressionStatement : Tracks stream size 1 (expressionStatement source expr)
      (Grammar.expressionStatement rule) :=
  tracks.bind fun _ => (supplies.expect size _ _).andThen fun _ => .pure size _

theorem tracks_printStatement :
    Tracks stream size 0 (printStatement source expr) (Grammar.printStatement rule) :=
  tracks.andThen fun _ => (supplies.expect size _ _).andThen fun _ => .pure size _

theorem tracks_unlessSeen (mark : Punctuator) :
    Tracks stream size 0 (unlessSeen source mark expr) (Grammar.unlessSeen mark rule) := by
  refine (supplies.sees size mark).andThen fun seen => ?_
  cases seen with
  | true => exact .pure size _
  | false => exact tracks.andThen fun _ => .pure size _

theorem tracksAfter_returnStatement (keyword : Token) :
    TracksAfter source stream keyword size (returnStatement source expr)
      (Grammar.returnStatement rule keyword) := by
  refine TracksAfter.previous (Tracks.after ?_ keyword)
  refine (tracks_unlessSeen supplies tracks .semicolon).andThen fun _ => ?_
  exact (supplies.expect size _ _).andThen fun _ => .pure size _

theorem tracks_initialValue :
    Tracks stream size 0 (initialValue source expr) (Grammar.initialValue rule) :=
  supplies.takesThen (takesIf_takes _) (Nat.le_succ size) (Nat.zero_le 1)
    (.pure size _) fun token _ => Tracks.after (tracks.andThen fun _ => .pure size _) token

theorem tracks_varDeclaration :
    Tracks stream size 0 (varDeclaration source expr) (Grammar.varDeclaration rule) := by
  refine (supplies.expect size _ _).andThen fun _ => ?_
  refine (tracks_initialValue supplies tracks).andThen fun _ => ?_
  exact (supplies.expect size _ _).andThen fun _ => .pure size _

theorem tracks_parenthesised (opening closing : GrammarFault) :
    Tracks stream size 0 (parenthesised source opening closing expr)
      (Grammar.parenthesised opening closing rule) := by
  refine (supplies.expect size _ _).andThen fun _ => ?_
  refine tracks.andThen fun _ => ?_
  exact (supplies.expect size _ _).andThen fun _ => .pure size _

theorem tracks_forInitial :
    Tracks stream size 0 (forInitial source expr) (Grammar.forInitial rule) := by
  refine supplies.takesThen (takesIf_takes _) (Nat.le_succ size)
    (Nat.zero_le 1) ?_ fun token _ => Tracks.after (.pure size _) token
  refine supplies.takesThen (takesIf_takes _) (Nat.le_succ size)
    (Nat.zero_le 1) ?_ fun token _ => Tracks.after ?_ token
  · exact (tracks_expressionStatement supplies tracks).andThen fun _ => .pure size _
  · exact (tracks_varDeclaration supplies tracks).andThen fun _ => .pure size _

variable (nested : Tracks stream size 1 stmt statementRule')

include nested

theorem tracks_ifStatement : Tracks stream size 0 (ifStatement source expr stmt)
      (Grammar.ifStatement rule statementRule') := by
  refine (tracks_parenthesised supplies tracks _ _).andThen fun _ => ?_
  refine nested.andThen fun _ => ?_
  exact supplies.takesThen (takesIf_takes _) (Nat.le_succ size)
    (Nat.zero_le 1) (.pure size _) fun token _ =>
      Tracks.after (nested.andThen fun _ => .pure size _) token

theorem tracks_whileStatement : Tracks stream size 0 (whileStatement source expr stmt)
      (Grammar.whileStatement rule statementRule') := by
  refine (tracks_parenthesised supplies tracks _ _).andThen fun _ => ?_
  exact nested.andThen fun _ => .pure size _

theorem tracks_forStatement : Tracks stream size 0 (forStatement source expr stmt)
      (Grammar.forStatement rule statementRule') := by
  refine (supplies.expect size _ _).andThen fun _ => ?_
  refine (tracks_forInitial supplies tracks).andThen fun _ => ?_
  refine (tracks_unlessSeen supplies tracks _).andThen fun _ => ?_
  refine (supplies.expect size _ _).andThen fun _ => ?_
  refine (tracks_unlessSeen supplies tracks _).andThen fun _ => ?_
  refine (supplies.expect size _ _).andThen fun _ => ?_
  exact nested.andThen fun _ => .pure size _

end

/-- Statements are tracked if their parts are. -/
theorem tracks_statementRule (tracks : Tracks stream (size + 1) 1 expr rule)
    (nested : Tracks stream size 1 stmt statementRule')
    (blocks : Tracks stream size 0 body bodyRule) :
    Tracks stream (size + 1) 1 (statementRule source expr stmt body)
      (Grammar.statementRule rule statementRule' bodyRule) := by
  have smaller := tracks.shrink (Nat.le_succ size)
  have stated := tracks_expressionStatement supplies tracks
  intro place within room
  cases supplies.faces within with
  | ending last found isEnd ahead =>
    simp only [statementRule, takesWord, takesMark, choice_of_found found,
      isEnd, Bool.not_true, Bool.false_and, Bool.false_eq_true, if_false,
      Grammar.statementRule, ahead]
    exact stated place within room
  | token token before found plain ahead =>
    refine choose found plain (fun isFor => ?_) fun notFor => ?_
    · simp only [Grammar.statementRule, ahead, cursor_next, kind_of_isWord isFor]
      exact ((tracks_forStatement supplies smaller nested).after token).next found before room
    refine choose found plain (fun isIf => ?_) fun notIf => ?_
    · simp only [Grammar.statementRule, ahead, cursor_next, kind_of_isWord isIf]
      exact ((tracks_ifStatement supplies smaller nested).after token).next found before room
    refine choose found plain (fun isWhile => ?_) fun notWhile => ?_
    · simp only [Grammar.statementRule, ahead, cursor_next, kind_of_isWord isWhile]
      exact ((tracks_whileStatement supplies smaller nested).after token).next found before room
    refine choose found plain (fun isReturn => ?_) fun notReturn => ?_
    · simp only [Grammar.statementRule, ahead, cursor_next, kind_of_isWord isReturn]
      exact (tracksAfter_returnStatement supplies smaller token).next found before room
    refine choose found plain (fun opens => ?_) fun notOpens => ?_
    · simp only [Grammar.statementRule, ahead, cursor_next, kind_of_isMark opens]
      exact (Tracks.after (blocks.andThen fun _ => .pure size _) token).next found before room
    refine choose found plain (fun isPrint => ?_) fun notPrint => ?_
    · simp only [Grammar.statementRule, ahead, cursor_next, kind_of_isWord isPrint]
      exact ((tracks_printStatement supplies smaller).after token).next found before room
    have plainly : Grammar.statementRule rule statementRule' bodyRule (place.cursor stream) =
          Grammar.expressionStatement rule (place.cursor stream) := by
      simp only [Grammar.statementRule, ahead]
      split <;> simp_all [Token.isWord, Token.isMark]
    rw [plainly]
    exact stated place within room

/-! ## Declarations -/

theorem beforeEnd_eq (place : Place) (within : place.current ≤ stream.tokens.length) :
    beforeEnd source place = .ok (!((place.cursor stream).atEnd || false)) place := by
  cases supplies.faces within with
  | ending last found isEnd ahead | token token before found isEnd ahead =>
    rw [beforeEnd_of_found found, Cursor.atEnd, ahead, isEnd]
    rfl

theorem insideBraces_eq (place : Place) (within : place.current ≤ stream.tokens.length) :
    insideBraces source place = .ok (!((place.cursor stream).atEnd ||
      (place.cursor stream).sees .rightBrace)) place := by
  cases supplies.faces within with
  | ending last found isEnd ahead =>
    rw [insideBraces_of_found found, Cursor.atEnd, ahead, isEnd]
    rfl
  | token token before found plain ahead =>
    rw [insideBraces_of_found found, Cursor.atEnd, Cursor.sees, ahead, plain]
    rfl

/-- From every place before the end mark, a declaration takes a token. -/
def TracksDeclaration (stream : TokenStream) (size : Nat)
    (reader : Reader α) (rule : Rule α) : Prop :=
  ∀ place : Place, place.current < stream.tokens.length →
    stream.tokens.length < place.current + size →
    Agrees stream place.current 1 (reader place) (rule (place.cursor stream))

section

variable (short : size ≤ limit + 1) (enough : size ≤ fuel)

include short enough

/-- Blocks are tracked if declarations are. -/
theorem tracks_block {decl : Reader (Option Stmt)} {rule : Rule (Option Stmt)}
    (declared : TracksDeclaration stream size decl rule) :
    Tracks stream size 0 (block source fuel decl) (Grammar.block limit rule) := by
  refine (supplies.repeatWhile (insideBraces_eq supplies) declared short enough).andThen fun _ => ?_
  exact (supplies.expect size _ _).andThen fun _ => .pure size _

variable (blocks : Tracks stream size 0 body bodyRule)

include blocks

theorem tracks_callable (kind : CallableKind) :
    Tracks stream size 1 (callable source fuel kind body)
      (Grammar.callable limit kind bodyRule) := by
  refine (supplies.expect size _ _).bind fun _ => ?_
  refine (supplies.expect size _ _).andThen fun _ => ?_
  refine (supplies.listed .tooManyParameters (supplies.expect size _ _) short
    enough).andThen fun _ => ?_
  refine (supplies.expect size _ _).andThen fun _ => ?_
  refine (supplies.expect size _ _).andThen fun _ => ?_
  exact blocks.andThen fun _ => .pure size _

omit short enough blocks in
theorem tracks_superclass : Tracks stream size 0 (superclass source) Grammar.superclass := by
  refine supplies.takesThen (takesIf_takes _) (Nat.le_succ size)
    (Nat.zero_le 1) (.pure size _) fun token _ => Tracks.after ?_ token
  refine (supplies.expect size _ _).andThen fun _ => ?_
  exact (Tracks.freshId size).andThen fun _ => .pure size _

theorem tracks_classDeclaration : Tracks stream size 0 (classDeclaration source fuel body)
      (Grammar.classDeclaration limit bodyRule) := by
  have method := tracks_callable supplies short enough blocks .method
  refine (supplies.expect size _ _).andThen fun _ => ?_
  refine (tracks_superclass supplies).andThen fun _ => ?_
  refine (supplies.expect size _ _).andThen fun _ => ?_
  refine (supplies.repeatWhile (insideBraces_eq supplies)
    (fun place before => method place (Nat.le_of_lt before)) short enough).andThen fun _ => ?_
  exact (supplies.expect size _ _).andThen fun _ => .pure size _

end

theorem tracks_declarationRule (short : size ≤ limit + 1) (enough : size ≤ fuel)
    (tracks : Tracks stream size 1 expr rule)
    (nested : Tracks stream (size + 1) 1 stmt statementRule')
    (blocks : Tracks stream size 0 body bodyRule) :
    Tracks stream (size + 1) 1 (declarationRule source fuel expr stmt body)
      (Grammar.declarationRule limit rule statementRule' bodyRule) := by
  intro place within room
  cases supplies.faces within with
  | ending last found isEnd ahead =>
    simp only [declarationRule, takesWord, choice_of_found found, isEnd,
      Bool.not_true, Bool.false_and, Bool.false_eq_true, if_false, Grammar.declarationRule, ahead]
    exact nested place within room
  | token token before found plain ahead =>
    refine choose found plain (fun isClass => ?_) fun notClass => ?_
    · simp only [Grammar.declarationRule, ahead, cursor_next, kind_of_isWord isClass]
      exact ((tracks_classDeclaration supplies short enough blocks).after
        token).next found before room
    refine choose found plain (fun isFun => ?_) fun notFun => ?_
    · simp only [Grammar.declarationRule, ahead, cursor_next, kind_of_isWord isFun]
      have declared := tracks_callable supplies short enough blocks .function
      exact (Tracks.after (declared.andThen fun _ => .pure size _) token).next found before room
    refine choose found plain (fun isVar => ?_) fun notVar => ?_
    · simp only [Grammar.declarationRule, ahead, cursor_next, kind_of_isWord isVar]
      exact ((tracks_varDeclaration supplies tracks).after token).next found before room
    have plainly : Grammar.declarationRule limit rule statementRule' bodyRule
        (place.cursor stream) = statementRule' (place.cursor stream) := by
      simp only [Grammar.declarationRule, ahead]
      split <;> simp_all [Token.isWord]
    rw [plainly]
    exact nested place within room

/-! ## Recovery -/

/-- Behind a token that was passed one can look back. -/
theorem Supplies.looksBack (passed : 0 < place.current)
    (within : place.current ≤ stream.tokens.length) :
    ∃ token, previous source place = .ok token place := by
  let earlier : Place := { place with current := place.current - 1 }
  have before : earlier.current < stream.tokens.length := by
    simp only [earlier]
    omega
  cases supplies.faces (Nat.le_of_lt before) with
  | ending last => omega
  | token token before found plain ahead =>
    refine ⟨token, previous_of_found found ?_⟩
    simp only [earlier]
    omega

/-- Tokens are skipped by index as they are by list. -/
theorem skip_eq {last : Token} (within : place.current ≤ stream.tokens.length)
    (looked : previous source place = .ok last place)
    (enough : stream.tokens.length < place.current + rounds) :
    ∃ later : Place, skip source rounds place = .ok () later ∧
      later.cursor stream = { place.cursor stream with
        ahead := Cursor.skipAfter last (place.cursor stream).ahead } ∧
      place.current ≤ later.current ∧
      later.current ≤ stream.tokens.length := by
  induction rounds generalizing place last with
  | zero => omega
  | succ rounds ih =>
    unfold skip
    cases supplies.faces within with
    | ending last' found isEnd ahead =>
      rw [bind_of_ok (atEnd_of_found found), isEnd, ahead]
      refine ⟨place, rfl, ?_, Nat.le_refl _, within⟩
      rw [Cursor.skipAfter, ← ahead]
    | token token before found plain ahead =>
      rw [bind_of_ok (atEnd_of_found found), plain, ahead]
      simp only [Bool.false_eq_true, if_false, bind_of_ok looked]
      cases semicolon : last.isMark .semicolon with
      | true =>
        refine ⟨place, rfl, ?_, Nat.le_refl _, within⟩
        rw [Cursor.skipAfter, semicolon, ← ahead]
        rfl
      | false =>
        simp only [Bool.false_eq_true, if_false, bind_of_ok (peek_of_found found)]
        cases starts : Cursor.startsStatement token with
        | true =>
          refine ⟨place, rfl, ?_, Nat.le_refl _, within⟩
          rw [Cursor.skipAfter, starts, ← ahead, Bool.or_true]
          rfl
        | false =>
          simp only [Bool.false_eq_true, if_false, bind_of_ok (advance_of_found found plain)]
          have inside : place.next.current ≤ stream.tokens.length :=
            before
          have passed : previous source place.next = .ok token place.next :=
            previous_of_found found rfl
          have left : stream.tokens.length < place.next.current + rounds := by
            simp only [Place.next]
            omega
          rcases ih inside passed left with ⟨later, skipped, reached, forward, inside⟩
          refine ⟨later, skipped, ?_, Nat.le_of_succ_le forward, inside⟩
          rw [reached, Cursor.skipAfter, semicolon, starts]
          rfl

/--
After a fault the reader goes on at the same place as a cursor does, which is
further on unless it is the end.
-/
theorem synchronize_eq (within : place.current ≤ stream.tokens.length)
    (somewhere : 0 < stream.tokens.length) (enough : stream.tokens.length < place.current + fuel) :
    ∃ later : Place, synchronize source fuel place = .ok () later ∧
      later.cursor stream = (place.cursor stream).resume ∧
      (place.current < later.current ∨ later.current = stream.tokens.length) ∧
      later.current ≤ stream.tokens.length := by
  unfold synchronize
  cases supplies.faces within with
  | ending last found isEnd ahead =>
    -- The last token before the end mark has been passed.
    rcases supplies.looksBack (by omega : 0 < place.current) within with ⟨previous', looked⟩
    have stays : advance source place = .ok previous' place := by
      unfold advance
      rw [bind_of_ok (atEnd_of_found found), isEnd]
      exact looked
    rw [bind_of_ok stays]
    rcases skip_eq supplies within looked enough with ⟨later, skipped, reached, forward, inside⟩
    refine ⟨later, skipped, ?_, .inr (by omega), inside⟩
    simp only [reached, Cursor.resume, ahead, Cursor.skipAfter]
    rw [← ahead]
  | token token before found plain ahead =>
    rw [bind_of_ok (advance_of_found found plain)]
    have inside : place.next.current ≤ stream.tokens.length := before
    have passed : previous source place.next = .ok token place.next :=
      previous_of_found found rfl
    have left : stream.tokens.length < place.next.current + fuel := by
      simp only [Place.next]
      omega
    rcases skip_eq supplies inside passed left with ⟨later, skipped, reached, forward, inside⟩
    refine ⟨later, skipped, ?_, .inl forward, inside⟩
    simp only [reached, Cursor.resume, ahead]
    rfl

/-- Recovering from a fault is tracked. -/
theorem tracks_recover {reader : Reader Stmt} {rule : Rule Stmt} (enough : size ≤ fuel)
    (tracks : Tracks stream size 1 reader rule) :
    TracksDeclaration stream size (recover source fuel reader) (Grammar.recover rule) := by
  intro place before room
  have agrees := tracks place (Nat.le_of_lt before) room
  unfold recover Grammar.recover
  generalize reader place = result, rule (place.cursor stream) = result' at agrees ⊢
  cases agrees with
  | ok value later passed within => exact .ok (some value) later passed within
  | fault error later passed within =>
    let noted : Place := { later with errors := later.errors ++ [error] }
    have left : stream.tokens.length < noted.current + fuel := by
      simp only [noted]
      omega
    have inside : noted.current ≤ stream.tokens.length := within
    rcases synchronize_eq supplies inside (by omega) left with
      ⟨further, resumed, reached, forward, inside⟩
    have yields : ((do
        noteAt error.fault error.token
        synchronize source fuel
        return none : Reader (Option Stmt)) later) = .ok none further :=
      bind_of_ok resumed
    show Agrees stream place.current 1
      ((do
        noteAt error.fault error.token
        synchronize source fuel
        return none : Reader (Option Stmt)) later)
      (.ok none (noted.cursor stream).resume)
    rw [yields, ← reached]
    refine .ok none further ?_ inside
    simp only [noted] at forward
    omega

/-- Statements and declarations of less than a number of tokens. -/
theorem tracks_within (deep : limit < depth) (enough : limit < fuel) :
    Tracks stream (limit + 1) 1 (statementWithin source fuel depth)
        (Grammar.statementWithin limit) ∧ TracksDeclaration stream (limit + 1)
        (declarationWithin source fuel depth) (Grammar.declarationWithin limit) := by
  have expressions : Tracks stream (limit + 1) 1
      (expressionWithin source fuel fuel) (Grammar.expressionWithin limit) :=
    tracks_expression supplies enough enough
  induction limit generalizing depth with
  | zero =>
    cases depth with
    | zero => omega
    | succ depth =>
      refine ⟨fun place within room => ?_, fun _ _ _ => by omega⟩
      have agrees : Agrees stream place.current 1 (statementWithin source fuel (depth + 1) place)
          (Grammar.statementRule (Grammar.expressionWithin 0) (Grammar.statementWithin 0)
            (Grammar.block 0 (Grammar.declarationWithin 0)) (place.cursor stream)) :=
        tracks_statementRule supplies expressions
          (fun _ _ _ => by omega) (fun _ _ _ => by omega) place within
          room
      cases supplies.faces within with
      | ending last found isEnd ahead =>
        simp only [Grammar.statementRule, ahead] at agrees
        exact agrees
      | token token before found plain ahead => omega
  | succ limit ih =>
    cases depth with
    | zero => omega
    | succ depth =>
      have nested := ih (by omega : limit < depth)
        (by omega) (tracks_expression supplies (by omega) (by omega))
      have blocks := tracks_block supplies (Nat.le_refl (limit + 1)) (Nat.le_of_lt enough) nested.2
      have stmts :=
        tracks_statementRule supplies expressions nested.1 blocks
      refine ⟨stmts, ?_⟩
      exact tracks_recover supplies enough
        (tracks_declarationRule supplies (Nat.le_refl (limit + 1)) (Nat.le_of_lt enough)
          (expressions.shrink (Nat.le_succ (limit + 1))) stmts blocks)

end

/-! ## Programs -/

/-- The rule never stops. -/
def Total {α : Type} (rule : Rule α) : Prop :=
  ∀ cursor, ∃ value later, rule cursor = .ok value later

theorem total_declarationWithin (limit : Nat) : Total (Grammar.declarationWithin limit) := by
  have recovered (rule : Rule Stmt) : Total (Grammar.recover rule) := by
    intro cursor
    unfold Grammar.recover
    cases rule cursor with
    | ok stmt later | error error later => exact ⟨_, _, rfl⟩
  cases limit with
  | zero | succ limit => exact recovered _

theorem total_repeatUntil {α : Type} {item : Rule α} (total : Total item)
    (stop : Cursor → Bool) (rounds : Nat) : Total (Rule.repeatUntil stop item rounds) := by
  induction rounds with
  | zero => exact fun cursor => ⟨[], cursor, rfl⟩
  | succ rounds ih =>
    intro cursor
    unfold Rule.repeatUntil
    split
    · exact ⟨[], cursor, rfl⟩
    · rcases total cursor with ⟨first, middle, head⟩
      rcases ih middle with ⟨others, later, tail⟩
      refine ⟨first :: others, later, ?_⟩
      simp only [Bind.bind, EStateM.bind, head, tail]
      rfl

/-- The rule for programs always ends with one. -/
theorem program_ok (cursor : Cursor) :
    ∃ program later, Grammar.program cursor = .ok program later := by
  rcases total_repeatUntil (total_declarationWithin cursor.ahead.length)
    (fun _ => false) cursor.ahead.length cursor with ⟨declared, later, read⟩
  refine ⟨declared.filterMap id, later, ?_⟩
  simp only [Grammar.program, Bind.bind, EStateM.bind, read]
  rfl

section

variable (supplies : Supplies source stream)

include supplies

/-- With enough fuel, parsing by index is parsing. -/
theorem parse_eq (enough : stream.tokens.length < fuel) (firstId : ExprId) :
    parse source fuel firstId = .ok (Treewalk.parse stream firstId) := by
  let start : Place := ⟨0, firstId, []⟩
  have declared := (tracks_within supplies enough enough).2
  have loop : Tracks stream (stream.tokens.length + 1) 0
      (repeatWhile (beforeEnd source) (declarationWithin source fuel fuel) fuel)
      (Rule.repeatUntil (fun _ => false) (Grammar.declarationWithin stream.tokens.length)
        stream.tokens.length) :=
    supplies.repeatWhile (beforeEnd_eq supplies) declared (Nat.le_refl _) enough
  have read : Agrees stream 0 0 (program source fuel start)
      (Grammar.program (start.cursor stream)) :=
    (loop.andThen fun declared => .pure _ (declared.filterMap id)) start
      (Nat.zero_le _) (by simp only [start]; omega)
  rcases program_ok (start.cursor stream) with ⟨read', later', yields⟩
  have parsed : Treewalk.parse stream firstId =
      ⟨if later'.errors.isEmpty then .ok read' else .error later'.errors, later'.nextId⟩ := by
    unfold Treewalk.parse
    rw [show Grammar.program ⟨stream.tokens, stream.ending, firstId, []⟩ =
      .ok read' later' from yields]
  rw [yields] at read
  unfold parse
  generalize program source fuel start = result at read ⊢
  cases read with
  | ok program later passed within =>
    rw [parsed]
    rfl

end

section

variable (supplies : Supplies source stream) (before : place.current < stream.tokens.length)
  (deep : stream.tokens.length < place.current + depth) (enough : stream.tokens.length < fuel)

include supplies before deep enough

/-- A declaration takes at least one token, its recovery from faults included. -/
theorem declaration_advances :
    ∃ declared later, declarationWithin source fuel depth place = .ok declared later ∧
      place.current < later.current ∧ later.current ≤ stream.tokens.length := by
  let left := stream.tokens.length - place.current
  have agrees := (tracks_within supplies (by omega : left < depth)
    (by omega : left < fuel)).2 place before (by omega)
  rcases total_declarationWithin left (place.cursor stream) with ⟨declared, later', read⟩
  rw [read] at agrees
  generalize declarationWithin source fuel depth place = result at agrees ⊢
  cases agrees with
  | ok declared later passed within => exact ⟨declared, later, rfl, passed, within⟩

theorem method_advances :
    let method := callable source fuel .method
      (block source fuel (declarationWithin source fuel depth))
    (∃ declared later, method place = .ok declared later ∧ place.current < later.current ∧
      later.current ≤ stream.tokens.length) ∨
    ∃ error later, method place = .error (.fault error) later := by
  intro method
  let left := stream.tokens.length - place.current
  have declared := (tracks_within supplies (by omega : left < depth) (by omega : left < fuel)).2
  have enclosed := tracks_block supplies (Nat.le_refl (left + 1))
    (by omega : left + 1 ≤ fuel) declared
  have agrees := tracks_callable supplies (Nat.le_refl (left + 1))
    (by omega : left + 1 ≤ fuel) enclosed .method place
    (Nat.le_of_lt before) (by omega)
  exact agrees.reached

end

section

variable {tokens : List Token} {last : Nat} (marked : tokens.findIdx? Token.isEnd = some last)

include marked

/-- Where the first end mark stands, a list of tokens is cut. -/
theorem ofList_of_findIdx? : ∃ ending, TokenStream.ofList tokens = ⟨tokens.take last, ending⟩ ∧
      tokens[last]? = some ending ∧ ending.isEnd = true ∧
      ∀ token ∈ tokens.take last, token.isEnd = false := by
  rcases List.findIdx?_eq_some_iff_getElem.mp marked with ⟨inside, isEnd, earlier⟩
  have before : tokens.takeWhile (!·.isEnd) = tokens.take last := by
    simp only [List.takeWhile_eq_take_findIdx_not, Bool.not_not]
    rw [(List.findIdx?_eq_some_iff_findIdx_eq.mp marked).2]
  have found : tokens.find? Token.isEnd = some tokens[last] := by
    refine List.find?_eq_some_iff_getElem.mpr ⟨isEnd, last, inside, rfl, fun index less => ?_⟩
    simpa using earlier index less
  refine ⟨tokens[last], ?_, List.getElem?_eq_getElem inside, isEnd, ?_⟩
  · simp only [TokenStream.ofList, before, found]
  · intro token mem
    rcases List.mem_take_iff_getElem.mp mem with ⟨index, less, rfl⟩
    simpa using earlier index (by omega)

/-- What comes after the first end mark is not part of the stream. -/
theorem ofList_of_take_eq {tokens' : List Token}
    (same : tokens'.take (last + 1) = tokens.take (last + 1)) :
    TokenStream.ofList tokens' = TokenStream.ofList tokens := by
  rcases List.findIdx?_eq_some_iff_getElem.mp marked with ⟨inside, isEnd, earlier⟩
  have cut : (tokens.take (last + 1)).findIdx? Token.isEnd = some last := by
    refine List.findIdx?_eq_some_iff_getElem.mpr ⟨?_, ?_, ?_⟩
    · simp only [List.length_take]
      omega
    · simpa using isEnd
    · intro index less
      simpa using earlier index less
  have marked' : tokens'.findIdx? Token.isEnd = some last := by
    rw [← List.take_append_drop (last + 1) tokens', same, List.findIdx?_append, cut]
    rfl
  rcases ofList_of_findIdx? marked with ⟨ending, stream, found, _⟩
  rcases ofList_of_findIdx? marked' with ⟨ending', stream', found', _⟩
  have upTo (index : Nat) (less : index < last + 1) : tokens'[index]? = tokens[index]? := by
    have at' := congrArg (fun tokens => tokens[index]?) same
    simpa only [List.getElem?_take_of_lt less] using at'
  have endings : ending' = ending := by
    have both := upTo last (Nat.lt_succ_self last)
    rw [found, found'] at both
    exact Option.some.inj both
  have before : tokens'.take last = tokens.take last := by
    have shorter := congrArg (List.take last) same
    simpa only [List.take_take, Nat.min_eq_left (Nat.le_succ last)] using shorter
  rw [stream, stream', endings, before]

/-- A source with the tokens up to the first end mark. -/
theorem supplies_of_findIdx? (supplied : ∀ index ≤ last, source index = tokens[index]?) :
    Supplies source (.ofList tokens) ∧ (TokenStream.ofList tokens).tokens.length = last := by
  rcases List.findIdx?_eq_some_iff_getElem.mp marked with ⟨inside, _⟩
  rcases ofList_of_findIdx? marked with ⟨ending, stream, found, isEnd, plain⟩
  have length : (tokens.take last).length = last := by
    rw [List.length_take]
    omega
  rw [stream]
  refine ⟨⟨fun index token stands => ?_, plain, ?_, isEnd⟩, length⟩
  · have less : index < last := by
      rcases List.getElem?_eq_some_iff.mp stands with ⟨less, _⟩
      rw [length] at less
      exact less
    rw [supplied index (Nat.le_of_lt less)]
    rwa [List.getElem?_take_of_lt less] at stands
  · rw [length, supplied last (Nat.le_refl last)]
    exact found

end

end Treewalk.Indexed

namespace Treewalk

open Indexed

/--
Reading by index stays within the tokens.  Let a list of tokens have its first
end mark at index `last`, and let a source have the same tokens up to that
index, and whatever it likes, or nothing, after it.  Reading from the source
never asks for a token that is not there, be it after the end mark or before
the first token, and never loops for more rounds or nests deeper than there are
tokens up to the end mark; it comes to what the rules over a cursor come to,
which depends on the tokens up to the end mark only.  A declaration that is
entered before the end mark always ends further on, also after a fault, and so
does a method, unless a fault ends the list of methods.
-/
theorem indexed_reading_stays_within_the_tokens {tokens : List Token}
    {last : Nat} (marked : tokens.findIdx? Token.isEnd = some last) {source : Nat → Option Token}
    (supplied : ∀ index ≤ last, source index = tokens[index]?) {fuel : Nat} (enough : last < fuel) :
    (∀ firstId, Indexed.parse source fuel firstId = .ok (parse (.ofList tokens) firstId)) ∧
    (∀ firstId tokens', tokens'.take (last + 1) = tokens.take (last + 1) →
      parse (.ofList tokens') firstId = parse (.ofList tokens) firstId) ∧
    (∀ depth (place : Place), place.current < last → last < place.current + depth →
      ∃ declared later, Indexed.declarationWithin source fuel depth place = .ok declared later ∧
        place.current < later.current ∧ later.current ≤ last) ∧
    (∀ depth (place : Place), place.current < last → last < place.current + depth →
      let method := Indexed.callable source fuel .method
        (Indexed.block source fuel (Indexed.declarationWithin source fuel depth))
      (∃ declared later, method place = .ok declared later ∧
        place.current < later.current ∧ later.current ≤ last) ∨
      ∃ error later, method place = .error (.fault error) later) := by
  rcases supplies_of_findIdx? marked supplied with ⟨supplies, rfl⟩
  refine ⟨fun firstId => ?_, fun firstId tokens' same => ?_, ?_, ?_⟩
  · exact parse_eq supplies enough firstId
  · rw [ofList_of_take_eq marked same]
  · intro depth place before deep
    exact declaration_advances supplies before deep enough
  · intro depth place before deep
    exact method_advances supplies before deep enough

/-- Faults in a method, then tokens after the end mark that nobody reads. -/
theorem faulty_class_is_read_within_its_tokens :
    let tokens := (scan "class A { f( } ; print a = ;").tokens ++ (scan "print b;").tokens
    let source := fun index => if index ≤ 11 then tokens[index]? else none
    tokens.findIdx? Token.isEnd = some 11 ∧ (∀ index ≤ 11, source index = tokens[index]?) ∧
      Indexed.parse source 12 0 = .ok (parse (.ofList tokens) 0) := by
  intro tokens source
  have marked : tokens.findIdx? Token.isEnd = some 11 := by decide +kernel
  have supplied : ∀ index ≤ 11, source index = tokens[index]? :=
    fun _ before => if_pos before
  exact ⟨marked, supplied,
    (indexed_reading_stays_within_the_tokens marked supplied (Nat.lt_succ_self 11)).1 0⟩

end Treewalk
