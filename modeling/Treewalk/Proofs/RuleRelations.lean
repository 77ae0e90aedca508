import Treewalk.Proofs.ParserCompleteness
import Treewalk.Proofs.Relabelling

/-!
# Relations that hold of all rules

Rules choose by the kinds of tokens.  So a relation between what reads tokens
and what reads relabelled ones is one between every rule of the grammar and the
rule itself, if it holds of the primitive rules and is kept wherever rules are
put together.  A property of single rules is such a relation, too: one that
ignores the relabelled side.
-/

namespace Treewalk

open Rule

/-- The fault at a relabelled token. -/
def GrammarError.relabel (change : Relabelling) (error : GrammarError) :
    GrammarError :=
  ⟨error.fault, change error.token⟩

/-- Relabel the tokens ahead, the end mark and the tokens of faults, and shift ids. -/
def Cursor.relabel (change : Relabelling) (shift : Nat) (cursor : Cursor) : Cursor :=
  ⟨cursor.ahead.map change, change cursor.ending, cursor.nextId + shift,
    cursor.errors.map (GrammarError.relabel change)⟩

theorem Cursor.sees_relabel (change : Relabelling) (shift : Nat) (mark : Punctuator)
    (cursor : Cursor) : (cursor.relabel change shift).sees mark = cursor.sees mark := by
  cases ahead : cursor.ahead <;>
    simp [Cursor.sees, Cursor.relabel, ahead, Token.isMark, change.kind]

section

variable (change : Relabelling) (shift : Nat)

include change shift

theorem Expr.relabelAll_eq_map (values : List Expr) :
    relabelAll change shift values = values.map (relabel change shift) := by
  induction values with
  | nil => rfl
  | cons value values ih => rw [relabelAll, List.map_cons, ih]

theorem FunctionDecl.relabelAll_eq_map (decls : List FunctionDecl) :
    relabelAll change shift decls = decls.map (relabel change shift) := by
  induction decls with
  | nil => rfl
  | cons decl decls ih => rw [relabelAll, List.map_cons, ih]

theorem Stmt.relabelAll_eq_map (stmts : List Stmt) :
    relabelAll change shift stmts = stmts.map (relabel change shift) := by
  induction stmts with
  | nil => rfl
  | cons stmt stmts ih => rw [relabelAll, List.map_cons, ih]

end

namespace Rule

variable {α : Type}

/-- The test tells no token from its replacement. -/
def Overlooks (change : Relabelling) (test : Token → Bool) : Prop :=
  ∀ token, test (change token) = test token

section

variable (change : Relabelling)

theorem overlooks_isMark (mark : Punctuator) : Overlooks change fun token => token.isMark mark := by
  intro token
  simp only [Token.isMark, change.kind]

theorem overlooks_isWord (word : Keyword) : Overlooks change fun token => token.isWord word := by
  intro token
  simp only [Token.isWord, change.kind]

theorem overlooks_isAnyMark (marks : List Punctuator) :
    Overlooks change (Grammar.isAnyMark marks) := by
  intro token
  simp only [Grammar.isAnyMark, change.kind]

theorem overlooks_identifier : Overlooks change fun token => token.kind == .identifier := by
  intro token
  simp only [change.kind]

theorem overlooks_operates (level : Grammar.Level) : Overlooks change level.operates := by
  cases level with
  | disjunction => exact overlooks_isWord change .orWord
  | conjunction => exact overlooks_isWord change .andWord
  | _ => exact overlooks_isAnyMark change _

end

/-- The rule that the next token chooses reads on behind it; else another rule reads. -/
def dispatch (choose : Token → Option (Rule α)) (otherwise : Rule α) : Rule α := fun cursor =>
  match cursor.ahead with
  | [] => otherwise cursor
  | token :: rest =>
    match choose token with
    | some rule => rule { cursor with ahead := rest }
    | none => otherwise cursor

/-- Nothing is read at the end or where reading stops. -/
def unlessStopped (stop : Cursor → Bool) (rule : Rule (List α)) : Rule (List α) := fun cursor =>
  if cursor.atEnd || stop cursor then .ok [] cursor else rule cursor

end Rule

namespace Grammar

variable {expr : Rule Expr} {stmt : Rule Stmt} {body : Rule (List Stmt)} {limit : Nat}

/-- What reads an operand behind its first token. -/
def primaryBehind (expr : Rule Expr) (token : Token) : Option (Rule Expr) :=
  match token.kind with
  | .keyword .thisWord => some (receiverRead token)
  | .identifier => some (nameRead token)
  | .punctuator .leftParen => some (finishGrouping expr)
  | _ => (constant? token).map fun value => pure (.literal value)

/-- What reads a statement behind its first token. -/
def statementBehind (expr : Rule Expr) (stmt : Rule Stmt) (body : Rule (List Stmt))
    (token : Token) : Option (Rule Stmt) :=
  match token.kind with
  | .keyword .forWord => some (forStatement expr stmt)
  | .keyword .ifWord => some (ifStatement expr stmt)
  | .keyword .whileWord => some (whileStatement expr stmt)
  | .keyword .returnWord => some (returnStatement expr token)
  | .punctuator .leftBrace => some (blockStatement body)
  | .keyword .printWord => some (printStatement expr)
  | _ => none

/-- What reads a declaration behind its first token. -/
def declarationBehind (limit : Nat) (expr : Rule Expr) (body : Rule (List Stmt))
    (token : Token) : Option (Rule Stmt) :=
  match token.kind with
  | .keyword .classWord => some (classDeclaration limit body)
  | .keyword .funWord => some (funDeclaration limit body)
  | .keyword .varWord => some (varDeclaration expr)
  | _ => none

theorem foldr_unary_relabel {change : Relabelling} {shift : Nat} (ops : List Token)
    (operand : Expr) : (ops.map change).foldr Expr.unary (operand.relabel change shift) =
      (ops.foldr Expr.unary operand).relabel change shift := by
  induction ops with
  | nil => rfl
  | cons op ops ih => rw [List.map_cons, List.foldr_cons, List.foldr_cons, Expr.relabel, ih]

/-- The first token of a primary chooses its rule. -/
theorem primary_eq_dispatch : primary expr = dispatch (primaryBehind expr) (fail .expression) := by
  funext ⟨ahead, ending, nextId, errors⟩
  cases ahead with
  | nil => rfl
  | cons token rest =>
    simp only [primary, dispatch, primaryBehind]
    split <;> simp_all [constant?] <;> rfl

theorem statementRule_eq_dispatch : statementRule expr stmt body =
    dispatch (statementBehind expr stmt body) (expressionStatement expr) := by
  funext ⟨ahead, ending, nextId, errors⟩
  cases ahead with
  | nil => rfl
  | cons token rest =>
    simp only [statementRule, dispatch, statementBehind]
    split <;> simp_all

theorem declarationRule_eq_dispatch : declarationRule limit expr stmt body =
    dispatch (declarationBehind limit expr body) stmt := by
  funext ⟨ahead, ending, nextId, errors⟩
  cases ahead with
  | nil => rfl
  | cons token rest =>
    simp only [declarationRule, dispatch, declarationBehind]
    split <;> simp_all

end Grammar

/--
A relation between rules, by what the values of one are in the other, which
reads relabelled tokens.  It holds of the primitive rules, and of all that is
put together from rules for which it holds.
-/
structure RuleRelation where
  change : Relabelling
  shift : Nat
  Relates : {α : Type} → (α → α) → Rule α → Rule α → Prop
  /-- The faults that may be noted in passing. -/
  Notes : GrammarFault → Prop
  bind : ∀ {α β : Type} {view : α → α} {further : β → β} {mirror rule : Rule α}
    {mirrors cont : α → Rule β}, Relates view mirror rule →
    (∀ value, Relates further (mirrors (view value)) (cont value)) →
      Relates further (mirror >>= mirrors) (rule >>= cont)
  pure : ∀ {α : Type} {view : α → α} {value mirrored : α}, mirrored = view value →
    Relates view (Pure.pure mirrored) (Pure.pure value)
  fail : ∀ {α : Type} {view : α → α} (fault : GrammarFault),
    Relates view (fail fault) (fail fault)
  noteHere : ∀ {fault : GrammarFault}, Notes fault →
    Relates id (noteHere fault) (noteHere fault)
  freshId : Relates (· + shift) freshId freshId
  sees : ∀ mark : Punctuator, Relates id (sees mark) (sees mark)
  takeWhile : ∀ {test : Token → Bool}, Rule.Overlooks change test →
    Relates (List.map change) (takeWhile test) (takeWhile test)
  takeThen : ∀ {α : Type} {view : α → α} {test : Token → Bool}
    {mirrors cont : Option Token → Rule α},
    Rule.Overlooks change test → Relates view (mirrors none) (cont none) →
    (∀ token, Relates view (mirrors (some (change token))) (cont (some token))) →
      Relates view (takeIf test >>= mirrors) (takeIf test >>= cont)
  dispatch : ∀ {α : Type} {view : α → α} {mirrors rules : Token → Option (Rule α)}
    {mirror rule : Rule α}, Relates view mirror rule →
    (∀ token, Option.Rel (Relates view) (mirrors (change token)) (rules token)) →
      Relates view (dispatch mirrors mirror) (dispatch rules rule)
  unlessStopped : ∀ {α : Type} {view : α → α} {stop : Cursor → Bool} {mirror rule : Rule (List α)},
    (∀ cursor : Cursor, stop (cursor.relabel change shift) = stop cursor) →
    Relates (List.map view) mirror rule →
      Relates (List.map view) (unlessStopped stop mirror) (unlessStopped stop rule)

namespace RuleRelation

open Grammar

variable (rel : RuleRelation)

section

variable {α : Type} {view : α → α} {item : Rule α}

theorem expect {test : Token → Bool} (overlooks : Overlooks rel.change test)
    (fault : GrammarFault) :
    rel.Relates rel.change (expect test fault) (expect test fault) :=
  rel.takeThen overlooks (rel.fail fault) fun _ => rel.pure rfl

theorem expectMark (mark : Punctuator) (fault : GrammarFault) :
    rel.Relates rel.change (expectMark mark fault) (expectMark mark fault) :=
  rel.expect (overlooks_isMark rel.change mark) fault

theorem expectName (fault : GrammarFault) :
    rel.Relates rel.change (expectName fault) (expectName fault) :=
  rel.expect (overlooks_identifier rel.change) fault

theorem repeatUntil {stop : Cursor → Bool}
    (stops : ∀ cursor : Cursor, stop (cursor.relabel rel.change rel.shift) = stop cursor)
    (relates : rel.Relates view item item) (rounds : Nat) :
    rel.Relates (List.map view) (Rule.repeatUntil stop item rounds)
      (Rule.repeatUntil stop item rounds) := by
  induction rounds with
  | zero => exact rel.pure rfl
  | succ rounds ih =>
    exact rel.unlessStopped stops
      (rel.bind relates fun _ => rel.bind ih fun _ => rel.pure rfl)

section

variable {overflow : GrammarFault} (notes : rel.Notes overflow)
  (relates : rel.Relates view item item)

include notes relates

theorem countedItem (count : Nat) : rel.Relates view (Rule.countedItem overflow item count)
      (Rule.countedItem overflow item count) := by
  unfold Rule.countedItem
  split
  · exact rel.bind (rel.noteHere notes) fun _ => relates
  · exact relates

/-- Lists are related if their items are. -/
theorem separated (rounds count : Nat) :
    rel.Relates (List.map view) (separated overflow item rounds count)
      (separated overflow item rounds count) := by
  induction rounds generalizing count with
  | zero => exact rel.bind (rel.countedItem notes relates count) fun _ => rel.pure rfl
  | succ rounds ih =>
    refine rel.bind (rel.countedItem notes relates count) fun _ =>
      rel.takeThen (overlooks_isMark rel.change .comma) (rel.pure rfl) fun _ => ?_
    exact rel.bind (ih (count + 1)) fun _ => rel.pure rfl

theorem listed (limit : Nat) : rel.Relates (List.map view) (listed limit overflow item)
      (listed limit overflow item) := by
  refine rel.bind (rel.sees .rightParen) fun seen => ?_
  cases seen with
  | true => exact rel.pure rfl
  | false => exact rel.separated notes relates limit 0

end

end

/-- The rule for a nonterminal is related to itself. -/
abbrev Keeps (goal : Nonterminal) (rule : Rule goal.Tree) : Prop :=
  rel.Relates (goal.relabel rel.change rel.shift) rule rule

/-! ## Expressions -/

section

variable {expr operand : Rule Expr} (notes : rel.Notes .tooManyArguments)
  (keeps : rel.Keeps .expression expr)

/-- Primaries are kept if expressions are. -/
theorem keeps_primary (keeps : rel.Keeps .expression expr) : rel.Keeps .primary (primary expr) := by
  rw [primary_eq_dispatch]
  refine rel.dispatch (rel.fail .expression) fun token => ?_
  have same : constant? (rel.change token) = constant? token := by
    simp only [constant?, rel.change.kind]
  simp only [primaryBehind, rel.change.kind, same]
  split
  · exact .some (rel.bind rel.freshId fun _ => rel.pure rfl)
  · exact .some (rel.bind rel.freshId fun _ => rel.pure rfl)
  · exact .some (rel.bind keeps fun _ =>
      rel.bind (rel.expectMark .rightParen .groupingClosing) fun _ => rel.pure rfl)
  · cases constant? token with
    | none => exact .none
    | some value => exact .some (rel.pure rfl)

include notes keeps

theorem keeps_finishCall (limit : Nat) (callee : Expr) :
    rel.Relates (Expr.relabel rel.change rel.shift)
      (finishCall limit expr (callee.relabel rel.change rel.shift))
      (finishCall limit expr callee) := by
  refine rel.bind (rel.listed notes keeps limit) fun values =>
    rel.bind (rel.expectMark .rightParen .argumentsClosing) fun closing => rel.pure ?_
  rw [Expr.relabel, Expr.relabelAll_eq_map]
  rfl

theorem keeps_callMore (limit rounds : Nat) (callee : Expr) :
    rel.Relates (Expr.relabel rel.change rel.shift)
      (callMore limit expr rounds (callee.relabel rel.change rel.shift))
      (callMore limit expr rounds callee) := by
  induction rounds generalizing callee with
  | zero => exact rel.pure rfl
  | succ rounds ih =>
    refine rel.takeThen (overlooks_isAnyMark rel.change _) (rel.pure rfl) fun token => ?_
    have overlooked := overlooks_isMark rel.change .leftParen token
    simp only [overlooked]
    split
    · exact rel.bind (rel.keeps_finishCall notes keeps limit callee) ih
    · exact rel.bind (rel.expectName .propertyName) fun property => ih (.get callee property)

theorem keeps_unary (limit : Nat) : rel.Keeps .unary (unary limit expr) := by
  refine rel.bind (rel.takeWhile (overlooks_isAnyMark rel.change _)) fun ops =>
    rel.bind (rel.bind (rel.keeps_primary keeps) (rel.keeps_callMore notes keeps limit limit))
      fun operand => rel.pure ?_
  exact foldr_unary_relabel ops operand

omit notes keeps in
theorem keeps_chain {level : Level} (keeps : rel.Keeps (.operand level) operand) (limit : Nat) :
    rel.Keeps (.level level) (chain level.join level.operates limit operand) := by
  have more (rounds : Nat) (left : Expr) : rel.Relates (Expr.relabel rel.change rel.shift)
      (chainMore level.join level.operates operand rounds (left.relabel rel.change rel.shift))
      (chainMore level.join level.operates operand rounds left) := by
    induction rounds generalizing left with
    | zero => exact rel.pure rfl
    | succ rounds ih =>
      refine rel.takeThen (overlooks_operates rel.change level) (rel.pure rfl) fun op =>
        rel.bind keeps fun right => ?_
      have further := ih (level.join left op right)
      rw [relabel_join] at further
      exact further
  exact rel.bind keeps (more limit)

theorem keeps_disjunction (limit : Nat) :
    rel.Keeps (.level .disjunction) (disjunction limit expr) := by
  have factor : rel.Keeps (.level .factor) (factor limit expr) :=
    rel.keeps_chain (rel.keeps_unary notes keeps limit) limit
  have term : rel.Keeps (.level .term) (term limit expr) := rel.keeps_chain factor limit
  have comparison : rel.Keeps (.level .comparison) (comparison limit expr) :=
    rel.keeps_chain term limit
  have equality : rel.Keeps (.level .equality) (equality limit expr) :=
    rel.keeps_chain comparison limit
  have conjunction : rel.Keeps (.level .conjunction) (conjunction limit expr) :=
    rel.keeps_chain equality limit
  exact rel.keeps_chain conjunction limit

end

/-- The value of an assignment is kept where the target turns out to be none. -/
def KeepsTargets : Prop :=
  ∀ {expr : Rule Expr} (target : Expr) {mirrors cont : Option Token → Rule Expr},
    rel.Keeps .expression expr →
    rel.Relates (Expr.relabel rel.change rel.shift) (mirrors none) (cont none) →
    (∀ equals, cont (some equals) = do
      let _ ← expr
      noteAt .invalidTarget equals
      return target) →
    (∀ equals, mirrors (some equals) = do
      let _ ← expr
      noteAt .invalidTarget equals
      return target.relabel rel.change rel.shift) →
    rel.Relates (Expr.relabel rel.change rel.shift) (takeMark .equal >>= mirrors)
      (takeMark .equal >>= cont)

/-- By induction on the limit, expressions are kept. -/
theorem keeps_expressionWithin (notes : rel.Notes .tooManyArguments) (targets : rel.KeepsTargets)
    (limit : Nat) : rel.Keeps .expression (expressionWithin limit) := by
  induction limit with
  | zero => exact rel.fail .expression
  | succ limit ih =>
    refine rel.bind (rel.keeps_disjunction notes ih limit) fun target => ?_
    cases target with
    | name id token =>
      exact rel.takeThen (overlooks_isMark rel.change .equal) (rel.pure rfl) fun _ =>
        rel.bind ih fun _ => rel.bind rel.freshId fun _ => rel.pure rfl
    | get object property =>
      exact rel.takeThen (overlooks_isMark rel.change .equal) (rel.pure rfl) fun _ =>
        rel.bind ih fun _ => rel.pure rfl
    | _ => exact targets _ ih (rel.pure rfl) (fun _ => rfl) fun _ => rfl

/-! ## Statements -/

section

variable {expr : Rule Expr} {stmt : Rule Stmt} {body : Rule (List Stmt)}

section

variable (keeps : rel.Keeps .expression expr)

include keeps

theorem keeps_expressionStatement :
    rel.Keeps .expressionStatement (expressionStatement expr) :=
  rel.bind keeps fun _ => rel.bind (rel.expectMark .semicolon .expressionEnd) fun _ => rel.pure rfl

theorem keeps_unlessSeen (mark : Punctuator) :
    rel.Keeps .optionalExpression (unlessSeen mark expr) := by
  refine rel.bind (rel.sees mark) fun seen => ?_
  cases seen with
  | true => exact rel.pure rfl
  | false => exact rel.bind keeps fun _ => rel.pure rfl

theorem keeps_varDeclaration : rel.Keeps .varDeclaration (varDeclaration expr) := by
  have initial : rel.Keeps .initialValue (initialValue expr) :=
    rel.takeThen (overlooks_isMark rel.change .equal) (rel.pure rfl) fun _ =>
      rel.bind keeps fun _ => rel.pure rfl
  exact rel.bind (rel.expectName .variableName) fun _ => rel.bind initial fun _ =>
    rel.bind (rel.expectMark .semicolon .variableEnd) fun _ => rel.pure rfl

theorem keeps_parenthesised (opening closing : GrammarFault) :
    rel.Keeps .expression (parenthesised opening closing expr) :=
  rel.bind (rel.expectMark .leftParen opening) fun _ => rel.bind keeps fun _ =>
    rel.bind (rel.expectMark .rightParen closing) fun _ => rel.pure rfl

section

variable (states : rel.Keeps .statement stmt)

include states

theorem keeps_ifStatement : rel.Keeps .statement (ifStatement expr stmt) :=
  rel.bind (rel.keeps_parenthesised keeps .ifOpening .ifClosing) fun _ => rel.bind states fun _ =>
    rel.takeThen (overlooks_isWord rel.change .elseWord) (rel.pure rfl) fun _ =>
      rel.bind states fun _ => rel.pure rfl

theorem keeps_forStatement : rel.Keeps .statement (forStatement expr stmt) := by
  have initial : rel.Keeps .forInitial (forInitial expr) := by
    refine rel.takeThen (overlooks_isMark rel.change .semicolon) ?_ fun _ => rel.pure rfl
    refine rel.takeThen (overlooks_isWord rel.change .varWord) ?_ fun _ => ?_
    · exact rel.bind (rel.keeps_expressionStatement keeps) fun _ => rel.pure rfl
    · exact rel.bind (rel.keeps_varDeclaration keeps) fun _ => rel.pure rfl
  refine rel.bind (rel.expectMark .leftParen .forOpening) fun _ => rel.bind initial fun initial =>
    rel.bind (rel.keeps_unlessSeen keeps .semicolon) fun cond =>
      rel.bind (rel.expectMark .semicolon .loopConditionEnd) fun _ =>
        rel.bind (rel.keeps_unlessSeen keeps .rightParen) fun step =>
          rel.bind (rel.expectMark .rightParen .forClosing) fun _ =>
            rel.bind states fun repeated => rel.pure ?_
  exact (relabel_lowerFor rel.change rel.shift initial cond step repeated).symm

/-- Statements are kept if their parts are. -/
theorem keeps_statementRule (encloses : rel.Keeps .block body) :
    rel.Keeps .statement (statementRule expr stmt body) := by
  rw [statementRule_eq_dispatch]
  refine rel.dispatch (rel.keeps_expressionStatement keeps) fun token => ?_
  simp only [statementBehind, rel.change.kind]
  split
  · exact .some (rel.keeps_forStatement keeps states)
  · exact .some (rel.keeps_ifStatement keeps states)
  · exact .some (rel.bind (rel.keeps_parenthesised keeps .whileOpening .whileClosing) fun _ =>
      rel.bind states fun _ => rel.pure rfl)
  · exact .some (rel.bind (rel.keeps_unlessSeen keeps .semicolon) fun _ =>
      rel.bind (rel.expectMark .semicolon .returnEnd) fun _ => rel.pure rfl)
  · exact .some (rel.bind encloses fun _ => rel.pure rfl)
  · exact .some (rel.bind keeps fun _ =>
      rel.bind (rel.expectMark .semicolon .printEnd) fun _ => rel.pure rfl)
  · exact .none

end

end

/-! ## Declarations -/

section

variable (notes : rel.Notes .tooManyParameters) (encloses : rel.Keeps .block body) (limit : Nat)

include notes encloses

theorem keeps_callable (kind : CallableKind) : rel.Keeps .function (callable limit kind body) :=
  rel.bind (rel.expectName (.callableName kind)) fun _ =>
    rel.bind (rel.expectMark .leftParen (.parametersOpening kind)) fun _ =>
      rel.bind (rel.listed notes (rel.expectName .parameterName) limit) fun _ =>
        rel.bind (rel.expectMark .rightParen .parametersClosing) fun _ =>
          rel.bind (rel.expectMark .leftBrace (.bodyOpening kind)) fun _ =>
            rel.bind encloses fun _ => rel.pure rfl

theorem keeps_classDeclaration : rel.Keeps .declaration (classDeclaration limit body) := by
  have inherits : rel.Keeps .superclass superclass :=
    rel.takeThen (overlooks_isMark rel.change .less) (rel.pure rfl) fun _ =>
      rel.bind (rel.expectName .superclassName) fun _ => rel.bind rel.freshId fun _ => rel.pure rfl
  refine rel.bind (rel.expectName .className) fun name => rel.bind inherits fun parent =>
    rel.bind (rel.expectMark .leftBrace .classOpening) fun _ =>
      rel.bind (rel.repeatUntil (Cursor.sees_relabel rel.change rel.shift .rightBrace)
        (rel.keeps_callable notes encloses limit .method) limit) fun methods =>
        rel.bind (rel.expectMark .rightBrace .classClosing) fun _ => rel.pure ?_
  rw [Nonterminal.relabel, Stmt.relabel, FunctionDecl.relabelAll_eq_map]
  rfl

/-- Declarations are kept if their parts are. -/
theorem keeps_declarationRule (keeps : rel.Keeps .expression expr)
    (states : rel.Keeps .statement stmt) :
    rel.Keeps .declaration (declarationRule limit expr stmt body) := by
  rw [declarationRule_eq_dispatch]
  refine rel.dispatch states fun token => ?_
  simp only [declarationBehind, rel.change.kind]
  split
  · exact .some (rel.keeps_classDeclaration notes encloses limit)
  · exact .some (rel.bind (rel.keeps_callable notes encloses limit .function) fun _ => rel.pure rfl)
  · exact .some (rel.keeps_varDeclaration keeps)
  · exact .none

end

end

/-- The rule for a declaration is kept when it recovers from faults. -/
abbrev KeepsRecovered (rule : Rule (Option Stmt)) : Prop :=
  rel.Relates (Option.map (Stmt.relabel rel.change rel.shift)) rule rule

theorem filterMap_relabel (declared : List (Option Stmt)) :
    (declared.map (Option.map (Stmt.relabel rel.change rel.shift))).filterMap id =
      Stmt.relabelAll rel.change rel.shift (declared.filterMap id) := by
  rw [Stmt.relabelAll_eq_map, List.filterMap_map, List.map_filterMap]
  rfl

/-- Blocks are kept if declarations are. -/
theorem keeps_block {decl : Rule (Option Stmt)} (declares : rel.KeepsRecovered decl) (limit : Nat) :
    rel.Keeps .block (block limit decl) := by
  refine rel.bind (rel.repeatUntil (Cursor.sees_relabel rel.change rel.shift .rightBrace)
    declares limit) fun declared =>
      rel.bind (rel.expectMark .rightBrace .blockClosing) fun _ => rel.pure ?_
  exact rel.filterMap_relabel declared

section

variable (notes : rel.Notes .tooManyParameters)
  (recovers : ∀ {rule}, rel.Keeps .declaration rule → rel.KeepsRecovered (recover rule))
  (keeps : ∀ limit, rel.Keeps .expression (expressionWithin limit))

include notes recovers keeps

/-- Both knots of the grammar are related to themselves. -/
theorem keeps_within (limit : Nat) :
    rel.Keeps .statement (statementWithin limit) ∧
      rel.KeepsRecovered (declarationWithin limit) := by
  induction limit with
  | zero =>
    have states := rel.keeps_expressionStatement (keeps 0)
    rw [statementWithin, declarationWithin]
    exact ⟨states, recovers states⟩
  | succ limit ih =>
    have encloses := rel.keeps_block ih.2 limit
    have states := rel.keeps_statementRule (keeps (limit + 1)) ih.1 encloses
    rw [statementWithin_succ, declarationWithin_succ, statementWithin_succ]
    exact ⟨states, recovers
      (rel.keeps_declarationRule notes encloses limit (keeps (limit + 1)) states)⟩

theorem keeps_declarations (limit : Nat) :
    rel.Keeps .declarations
      (do
        let declared ← Rule.repeatUntil (fun _ => false) (declarationWithin limit) limit
        return declared.filterMap id) :=
  rel.bind (rel.repeatUntil (fun _ => rfl) (rel.keeps_within notes recovers keeps limit).2 limit)
    fun declared => rel.pure (rel.filterMap_relabel declared)

end

end RuleRelation

end Treewalk
