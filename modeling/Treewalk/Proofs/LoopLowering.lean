import Treewalk.Proofs.CountedLoops
import Treewalk.Proofs.NameUses
import Treewalk.Proofs.ProgramSimulation
import Treewalk.Proofs.ProgramTexts

/-!
# Lowering keeps the meaning of loops

The grammar leaves the tree of a loop with a counter open.  If it is the loop
itself, the tokens of a program derive a tree that keeps its loops.

The lowering makes one scope more in each round of a loop with a step.  This
scope stays empty, so both analyses find the same declarations, and their
distances differ by the empty scopes that are passed.
-/

namespace Treewalk

open Scoping Renaming

variable {chain : List Renaming} {nextId : ExprId}

/-! ## Scopes without the spare ones -/

namespace Scoping

/-- Local scopes, and those of them that are not spare. -/
inductive LocalScope.Thins : List Renaming → List LocalScope → List LocalScope → Prop where
  | nil : Thins [] [] []
  | keep {chain scopes scopes'} (scope : LocalScope) (outer : Thins chain scopes scopes') :
      Thins (.identity :: chain) (scope :: scopes) (scope :: scopes')
  | drop {chain scopes scopes'} (outer : Thins chain scopes scopes') :
      Thins (.unshared :: chain) ([] :: scopes) scopes'

section

variable {scopes scopes' : List LocalScope} (thins : LocalScope.Thins chain scopes scopes')

include thins

/-- What is found in the scopes is found in the same one without the spare ones. -/
theorem LocalScope.Thins.findIdx? (test : LocalScope → Bool) (empty : test [] = false) :
    scopes'.findIdx? test = (scopes.findIdx? test).map (shared chain) ∧
      ∀ dist, scopes.findIdx? test = some dist → chain[dist]? = some .identity := by
  induction thins with
  | nil => simp
  | @keep chain scopes scopes' scope outer ih =>
    rcases ih with ⟨same, kept⟩
    rw [List.findIdx?_cons, List.findIdx?_cons, same]
    cases test scope with
    | true => simp [shared]
    | false =>
      cases nearest : scopes.findIdx? test <;> simp_all [shared_cons, identity]
  | @drop chain scopes scopes' outer ih =>
    rcases ih with ⟨same, kept⟩
    rw [List.findIdx?_cons, same, empty]
    cases nearest : scopes.findIdx? test <;> simp_all [shared_cons, unshared]

theorem LocalScope.Thins.declares (kept : (innermost chain).spare = false) (name : String) :
    Renaming.Declares chain name name := by
  refine ⟨kept, ?_⟩
  cases thins <;> rfl

end

namespace Context

/-- A context, and the same one without the spare scopes. -/
structure Thins (chain : List Renaming) (context context' : Context) : Prop where
  scopes : LocalScope.Thins chain context.scopes context'.scopes
  inClass : context'.inClass = context.inClass

namespace Thins

variable {ctx ctx' : Context}

theorem mark (thins : Thins chain ctx ctx')
    (kept : (innermost chain).spare = false) (name : String) (readable : Bool) :
    Thins chain (ctx.mark name readable) (ctx'.mark name readable) := by
  rcases ctx with ⟨scopes, inFunction, inClass⟩
  rcases ctx' with ⟨scopes', inFunction', inClass'⟩
  rcases thins with ⟨thins, same⟩
  cases thins with
  | nil => exact ⟨.nil, same⟩
  | keep scope outer => exact ⟨.keep _ outer, same⟩
  | drop outer => cases kept

/-- A body whose scope is spare is analysed like a statement without a scope. -/
theorem drop (thins : Thins chain ctx ctx') : Thins (.unshared :: chain) (ctx.enter []) ctx' :=
  ⟨.drop thins.scopes, thins.inClass⟩

section

variable (thins : Thins chain ctx ctx')

include thins

theorem enter (scope : LocalScope) :
    Thins (.identity :: chain) (ctx.enter scope) (ctx'.enter scope) :=
  ⟨.keep scope thins.scopes, thins.inClass⟩

theorem foldl_define (kept : (innermost chain).spare = false) (names : List Token) :
    Thins chain (names.foldl Context.define ctx) (names.foldl Context.define ctx') := by
  induction names generalizing ctx ctx' with
  | nil => exact thins
  | cons name names ih => exact ih (thins.mark kept name.lexeme true)

theorem inBody (params : List Token) :
    Thins (.identity :: chain) (ctx.inBody params) (ctx'.inBody params) := by
  have inside : Thins (.identity :: chain) { ctx.enter [] with inFunction := true }
      { ctx'.enter [] with inFunction := true } := ⟨.keep [] thins.scopes, thins.inClass⟩
  exact inside.foldl_define rfl params

theorem named (kept : (innermost chain).spare = false) (name : Token) :
    Thins chain { ctx.define name with inClass := true }
      { ctx'.define name with inClass := true } :=
  ⟨(thins.mark kept name.lexeme true).scopes, rfl⟩

end

end Thins

end Context

end Scoping

/-! ## Lowered trees -/

section

variable {ledger ledger' : Ledger} {ctx ctx' : Context}

/-- Occurrences keep their ids; the lowering and the kept tree record them apart. -/
def Ledger.loopPairing (ledger ledger' : Ledger) : Pairing where
  Pairs id id' place place' :=
    ledger.distances.find? id = place ∧ ledger'.distances.find? id' = place'
  marks := Token.marksLoop

theorem Ledger.recorded_loopPairing (ledger ledger' : Ledger) :
    (ledger.loopPairing ledger').Recorded ledger.distances ledger'.distances :=
  fun _ _ _ _ paired => paired

/-- Occurrences refer to the same scope but for spare ones. -/
theorem Scoping.Context.Thins.refers (thins : ctx.Thins chain ctx') {id : ExprId}
    {token : Token} (told : Told ledger [id] (.occurrence ctx id token.lexeme))
    (told' : Told ledger' [id] (.occurrence ctx' id token.lexeme)) :
    Token.Refers Eq (ledger.loopPairing ledger') chain id id token token := by
  rcases thins.scopes.findIdx? (fun scope => (scope.lookup token.lexeme).isSome) rfl with
    ⟨same, kept⟩
  refine ⟨rfl, ctx.distance? token.lexeme, ⟨told.find?_eq, told'.find?_eq.trans same⟩, ?_⟩
  cases nearest : ctx.distance? token.lexeme with
  | none => rfl
  | some dist => exact ⟨.identity, kept dist nearest, rfl, rfl⟩

open Findings

theorem Grammar.unmarked_of_isAnyMark {token : Token} {marks : List Punctuator}
    (test : isAnyMark marks token) :
    token.marksLoop = false := by
  by_contra marked
  simp [isAnyMark, kind_of_isWord (eq_true_of_ne_false marked)] at test

namespace Expr

mutual

/-- An expression is like itself with further spare scopes around it. -/
theorem alike_thinned (thins : ctx.Thins chain ctx') : ∀ value : Expr,
    Told ledger value.ids (ofExpr ctx value) → Told ledger' value.ids (ofExpr ctx' value) →
    Node.Formed [.expr value] →
      value.Alike Eq (ledger.loopPairing ledger') chain value
  | .literal value, _, _, _ => .literal value
  | .grouping inner, told, told', formed =>
    .grouping (alike_thinned thins inner told told' formed.below)
  | .unary op operand, told, told', formed =>
    .unary ⟨rfl, rfl, rfl⟩ (Grammar.unmarked_of_isAnyMark formed.here.2)
      (alike_thinned thins operand told told' formed.below)
  | .binary left op right, told, told', formed => by
    have parts := told.append (within_ofExpr _ _) (within_ofExpr _ _)
    have parts' := told'.append (within_ofExpr _ _) (within_ofExpr _ _)
    exact .binary (alike_thinned thins left parts.1 parts'.1 formed.below.head) ⟨rfl, rfl, rfl⟩
      (alike_thinned thins right parts.2 parts'.2 formed.below.tail)
  | .logical left op right, told, told', formed => by
    have parts := told.append (within_ofExpr _ _) (within_ofExpr _ _)
    have parts' := told'.append (within_ofExpr _ _) (within_ofExpr _ _)
    exact .logical (alike_thinned thins left parts.1 parts'.1 formed.below.head) ⟨rfl, rfl, rfl⟩
      (alike_thinned thins right parts.2 parts'.2 formed.below.tail)
  | .name _ _, told, told', _ =>
    .name (thins.refers (told.rest (within_errorIf _ _ _) (within_occurrence _ _ _))
      (told'.rest (within_errorIf _ _ _) (within_occurrence _ _ _)))
  | .assign _ _ value, told, told', formed => by
    have parts := told.append (within_ofExpr _ _) (within_occurrence _ _ _)
    have parts' := told'.append (within_ofExpr _ _) (within_occurrence _ _ _)
    exact .assign (alike_thinned thins value parts.1 parts'.1 formed.below)
      (thins.refers parts.2 parts'.2)
  | .receiver id keyword, told, told', _ => by
    unfold ofExpr at told told'
    rw [thins.inClass] at told'
    cases inClass : ctx.inClass with
    | true =>
      rw [inClass, if_pos rfl] at told told'
      exact .receiver (thins.refers told told')
    | false =>
      -- Outside of classes no distance is found.
      rw [inClass, if_neg (by decide)] at told told'
      exact .receiver ⟨rfl, none,
        ⟨told.unknown (within_errorIf _ _ _), told'.unknown (within_errorIf _ _ _)⟩, rfl⟩
  | .call callee closing args, told, told', formed => by
    have parts := told.append (within_ofExpr _ _) (within_ofExprs _ _)
    have parts' := told'.append (within_ofExpr _ _) (within_ofExprs _ _)
    exact .call (alike_thinned thins callee parts.1 parts'.1 formed.below.head) ⟨rfl, rfl, rfl⟩
      (allAlike_thinned thins args parts.2 parts'.2 formed.below.tail)
  | .get object property, told, told', formed =>
    .get (alike_thinned thins object told told' formed.below) ⟨rfl, rfl, rfl⟩
  | .set object property value, told, told', formed => by
    have parts := told.append (within_ofExpr _ _) (within_ofExpr _ _)
    have parts' := told'.append (within_ofExpr _ _) (within_ofExpr _ _)
    exact .set (alike_thinned thins object parts.1 parts'.1 formed.below.head) ⟨rfl, rfl, rfl⟩
      (alike_thinned thins value parts.2 parts'.2 formed.below.tail)

theorem allAlike_thinned (thins : ctx.Thins chain ctx') : ∀ values : List Expr,
    Told ledger (idsAll values) (ofExprs ctx values) →
    Told ledger' (idsAll values) (ofExprs ctx' values) →
    Node.Formed (values.map .expr) →
      AllAlike Eq (ledger.loopPairing ledger') chain values values
  | [], _, _, _ => .nil
  | value :: values, told, told', formed => by
    have parts := told.append (within_ofExpr _ _) (within_ofExprs _ _)
    have parts' := told'.append (within_ofExpr _ _) (within_ofExprs _ _)
    exact .cons (alike_thinned thins value parts.1 parts'.1 formed.head)
      (allAlike_thinned thins values parts.2 parts'.2 formed.tail)

end

end Expr

/-! ## Statements -/

/--
A statement that keeps its loops, and the one in which they are unfolded.  They
have the same ids, declare the same around them, and are alike wherever the
context of the first one lacks some spare scopes.
-/
structure Stmt.Lowers (kept lowered : Stmt) : Prop where
  ids : lowered.ids = kept.ids
  after : ∀ ctx : Context,
    ctx.after kept = kept.declared.foldl Context.define ctx ∧
    ctx.after lowered = kept.declared.foldl Context.define ctx
  alike : ∀ {ledger ledger' : Ledger} {chain} {ctx ctx' : Context},
    ctx.Thins chain ctx' →
    (innermost chain).spare = false ∨ kept.declared = [] →
    Told ledger lowered.ids (ofStmt ctx lowered) →
    Told ledger' kept.ids (ofStmt ctx' kept) →
    Node.Formed [.stmt lowered] →
      Stmt.Alike Eq (ledger.loopPairing ledger') chain lowered kept

/-- Statements that keep their loops, and those in which they are unfolded. -/
structure Stmt.AllLower (kept lowered : List Stmt) : Prop where
  ids : Stmt.idsAll lowered = Stmt.idsAll kept
  alike : ∀ {ledger ledger' : Ledger} {chain} {ctx ctx' : Context},
    ctx.Thins chain ctx' →
    (innermost chain).spare = false →
    Told ledger (Stmt.idsAll lowered) (ofStmts ctx lowered) →
    Told ledger' (Stmt.idsAll kept) (ofStmts ctx' kept) →
    Node.Formed (lowered.map .stmt) →
      Stmt.AllAlike Eq (ledger.loopPairing ledger') chain lowered kept

/-- A function that keeps its loops, and the one in which they are unfolded. -/
structure FunctionDecl.Lowers (kept lowered : FunctionDecl) : Prop where
  name : lowered.name = kept.name
  ids : lowered.ids = kept.ids
  alike : ∀ {ledger ledger' : Ledger} {chain} {ctx ctx' : Context},
    ctx.Thins chain ctx' →
    Told ledger lowered.ids (ofFunction ctx lowered) →
    Told ledger' kept.ids (ofFunction ctx' kept) →
    Node.Formed [.function lowered] →
      FunctionDecl.Alike Eq (ledger.loopPairing ledger') chain lowered kept

/-- Methods that keep their loops, and those in which they are unfolded. -/
structure FunctionDecl.AllLower (kept lowered : List FunctionDecl) : Prop where
  ids : FunctionDecl.idsAll lowered = FunctionDecl.idsAll kept
  alike : ∀ {ledger ledger' : Ledger} {chain} {ctx ctx' : Context},
    ctx.Thins chain ctx' →
    Told ledger (FunctionDecl.idsAll lowered) (ofMethods ctx lowered) →
    Told ledger' (FunctionDecl.idsAll kept) (ofMethods ctx' kept) →
    Node.Formed (lowered.map .function) →
      FunctionDecl.AllAlike Eq (ledger.loopPairing ledger') chain lowered kept

section

variable {kept lowered yes yes' : Stmt} {stmts stmts' : List Stmt}
  {decl decl' : FunctionDecl} {decls decls' : List FunctionDecl}

/-- A statement declares nothing in a spare scope. -/
theorem Scoping.Context.Thins.after (thins : Thins chain ctx ctx') (lowers : kept.Lowers lowered)
    (plain : (innermost chain).spare = false ∨ kept.declared = []) :
    Thins chain (ctx.after lowered) (ctx'.after kept) := by
  rw [(lowers.after ctx).2, (lowers.after ctx').1]
  rcases plain with whole | plain
  · exact thins.foldl_define whole _
  · rw [plain]
    exact thins

namespace Stmt

theorem AllLower.nil : AllLower [] [] where
  ids := rfl
  alike _ _ _ _ _ := .nil

theorem AllLower.cons (first : kept.Lowers lowered) (others : AllLower stmts stmts') :
    AllLower (kept :: stmts) (lowered :: stmts') where
  ids := congrArg₂ _ first.ids others.ids
  alike thins whole told told' formed := by
    have parts := told.append (within_ofStmt _ _) (within_ofStmts _ _)
    have parts' := told'.append (within_ofStmt _ _) (within_ofStmts _ _)
    exact .cons (first.alike thins (.inl whole) parts.1 parts'.1 formed.head)
      (others.alike (thins.after first (.inl whole)) whole parts.2 parts'.2 formed.tail)

namespace Lowers

/-- A branch or a body declares nothing around it. -/
theorem after_plain (chosen : yes.Lowers yes') (plain : yes.declared = []) (ctx : Context) :
    ctx.after yes = ctx ∧ ctx.after yes' = ctx := by
  have same := chosen.after ctx
  rw [plain] at same
  exact same

theorem expression (value : Expr) : Lowers (.expression value) (.expression value) where
  ids := rfl
  after _ := ⟨rfl, rfl⟩
  alike thins _ told told' formed :=
    .expression (value.alike_thinned thins told told' formed.operands)

theorem print (value : Expr) : Lowers (.print value) (.print value) where
  ids := rfl
  after _ := ⟨rfl, rfl⟩
  alike thins _ told told' formed :=
    .print (value.alike_thinned thins told told' formed.operands)

theorem varDecl (name : Token) (initial : Option Expr) :
    Lowers (.varDecl name initial) (.varDecl name initial) where
  ids := rfl
  after _ := ⟨rfl, rfl⟩
  alike thins plain told told' formed := by
    have whole := plain.resolve_right (by rintro ⟨⟩)
    cases initial with
    | none => exact .varPlain (thins.scopes.declares whole _)
    | some initial =>
      exact .varInitial (thins.scopes.declares whole _)
        (initial.alike_thinned (thins.mark whole name.lexeme false)
          (told.rest (within_errorIf _ _ _) (within_ofExpr _ _))
          (told'.rest (within_errorIf _ _ _) (within_ofExpr _ _)) formed.operands)

theorem returnValue (keyword : Token) (value : Option Expr) :
    Lowers (.returnValue keyword value) (.returnValue keyword value) where
  ids := rfl
  after _ := ⟨rfl, rfl⟩
  alike thins _ told told' formed := by
    cases value with
    | none => exact .returnPlain _ _
    | some value =>
      exact .returnValue _ _ (value.alike_thinned thins
        (told.rest (within_errorIf _ _ _) (within_ofExpr _ _))
        (told'.rest (within_errorIf _ _ _) (within_ofExpr _ _)) formed.operands)

theorem block (body : AllLower stmts stmts') : Lowers (.block stmts) (.block stmts') where
  ids := body.ids
  after _ := ⟨rfl, rfl⟩
  alike thins _ told told' formed :=
    .block .identity rfl (body.alike (thins.enter []) rfl told told' formed.inner)

theorem funDecl (function : decl.Lowers decl') : Lowers (.funDecl decl) (.funDecl decl') where
  ids := function.ids
  after ctx := ⟨rfl, congrArg ctx.define function.name⟩
  alike thins plain told told' formed := by
    have whole := plain.resolve_right (by rintro ⟨⟩)
    have inner := told.rest (within_errorIf _ _ _) (within_ofFunction _ _)
    rw [function.name] at inner
    refine .funDecl ?_ (function.alike (thins.mark whole decl.name.lexeme true) inner
      (told'.rest (within_errorIf _ _ _) (within_ofFunction _ _)) formed.functions)
    rw [function.name]
    exact thins.scopes.declares whole _

theorem classDecl (name : Token) (superclass : Option Expr)
    (methods : FunctionDecl.AllLower decls decls') :
    Lowers (.classDecl name superclass decls) (.classDecl name superclass decls') where
  ids := congrArg (Expr.idsOption superclass ++ ·) methods.ids
  after _ := ⟨rfl, rfl⟩
  alike thins plain told told' formed := by
    have whole := plain.resolve_right (by rintro ⟨⟩)
    have within (ctx : Context) := (within_errorIf (ctx.declaresInnermost name.lexeme)
      .redeclared name).append (within_inheritsItself name superclass)
    have parts := told.append ((within _).append (within_ofOption _ _)) (within_ofMethods _ _)
    have parts' := told'.append ((within _).append (within_ofOption _ _)) (within_ofMethods _ _)
    have inner := methods.alike ((thins.named whole name).enter [("this", true)])
      parts.2 parts'.2 formed.functions
    cases superclass with
    | none => exact .classPlain ⟨rfl, rfl, rfl⟩ (thins.scopes.declares whole _) inner
    | some superclass =>
      have extended := superclass.alike_thinned (thins.named whole name)
        (parts.1.rest (within _) (within_ofExpr _ _))
        (parts'.1.rest (within _) (within_ofExpr _ _)) formed.operands
      exact .classExtending ⟨rfl, rfl, rfl⟩ (thins.scopes.declares whole _) extended inner

section

variable (cond : Expr) (chosen : yes.Lowers yes') (plain : yes.declared = [])

include chosen plain

theorem whileLoop : Lowers (.whileLoop cond yes) (.whileLoop cond yes') where
  ids := congrArg (cond.ids ++ ·) chosen.ids
  after := chosen.after_plain plain
  alike thins _ told told' formed := by
    have parts := told.append (within_ofExpr _ _) (within_ofStmt _ _)
    have parts' := told'.append (within_ofExpr _ _) (within_ofStmt _ _)
    exact .whileLoop (cond.alike_thinned thins parts.1 parts'.1 formed.operands)
      (chosen.alike thins (.inr plain) parts.2 parts'.2 formed.inner)

theorem ifThen : Lowers (.ifElse cond yes none) (.ifElse cond yes' none) where
  ids := congrArg (cond.ids ++ ·) chosen.ids
  after := chosen.after_plain plain
  alike thins _ told told' formed := by
    have parts := told.append (within_ofExpr _ _) (within_ofStmt _ _)
    have parts' := told'.append (within_ofExpr _ _) (within_ofStmt _ _)
    exact .ifThen (cond.alike_thinned thins parts.1 parts'.1 formed.operands)
      (chosen.alike thins (.inr plain) parts.2 parts'.2 formed.inner)

theorem ifElse {no no' : Stmt} (otherwise : no.Lowers no') (plain' : no.declared = []) :
    Lowers (.ifElse cond yes (some no)) (.ifElse cond yes' (some no')) where
  ids := by rw [Stmt.ids, Stmt.ids, chosen.ids, otherwise.ids]
  after ctx := by
    rw [Context.after, Context.after, (chosen.after_plain plain ctx).1,
      (chosen.after_plain plain ctx).2]
    exact otherwise.after_plain plain' ctx
  alike thins _ told told' formed := by
    have within (ctx : Context) (yes : Stmt) :=
      (within_ofExpr ctx cond).append (within_ofStmt ctx yes)
    have parts := told.append (within _ _) (within_ofStmt _ _)
    have parts' := told'.append (within _ _) (within_ofStmt _ _)
    have heads := parts.1.append (within_ofExpr _ _) (within_ofStmt _ _)
    have heads' := parts'.1.append (within_ofExpr _ _) (within_ofStmt _ _)
    exact .ifElse (cond.alike_thinned thins heads.1 heads'.1 formed.operands)
      (chosen.alike thins (.inr plain) heads.2 heads'.2 formed.inner.head)
      (otherwise.alike (thins.after chosen (.inr plain)) (.inr plain')
        parts.2 parts'.2 formed.inner.tail)

end

section

variable (condition : Option Expr) {body body' : Stmt} (repeated : body.Lowers body')
  (plain : body.declared = [])

include repeated plain

/-- The rounds of a loop are lowered to a plain loop. -/
theorem rounds (step : Option Expr) :
    Lowers (.rounds condition step body) (Grammar.unfoldedLoop none condition step body') := by
  cases step with
  | none =>
    refine ⟨congrArg (_ ++ ·) repeated.ids, repeated.after_plain plain, ?_⟩
    intro _ _ _ _ _ thins _ told told' formed
    have parts := told.append (within_ofExpr _ _) (within_ofStmt _ _)
    have parts' := told'.append (within_ofExpr _ _) (within_ofStmt _ _)
    exact .countedLoop rfl
      ((condition.getD _).alike_thinned thins parts.1 parts'.1 formed.operands)
      (repeated.alike thins (.inr plain) parts.2 parts'.2 formed.inner)
  | some step =>
    refine ⟨?_, ?_, ?_⟩
    · simp [Grammar.unfoldedLoop, Stmt.rounds, Stmt.ids, Stmt.idsAll, Expr.ids, repeated.ids]
    · exact fun ctx => ⟨(repeated.after_plain plain ctx).1, rfl⟩
    -- The unfolded body and step stand in a scope of their own.
    intro _ _ _ _ _ thins _ told told' formed
    have stepped := expression step
    have parts := told.append (within_ofExpr _ _) (within_ofStmt _ (.block [_, _]))
    have heads := parts.2.append (within_ofStmt _ _) (within_ofStmts _ [_])
    have tails := heads.2.append (within_ofStmt _ _) (within_ofStmts _ [])
    have parts' := told'.append ((within_ofExpr _ _).append (within_ofStmt _ _))
      (within_ofStmt _ _)
    have heads' := parts'.1.append (within_ofExpr _ _) (within_ofStmt _ _)
    have inner : Node.Formed [.stmt body', .stmt (.expression step)] := formed.inner.inner
    exact .steppedLoop rfl
      ((condition.getD _).alike_thinned thins parts.1 heads'.1 formed.operands)
      (.cons (repeated.alike thins.drop (.inr plain) heads.1 heads'.2 inner.head)
        (.cons (stepped.alike (thins.drop.after repeated (.inr plain)) (.inr rfl)
          tails.1 parts'.2 inner.tail) .nil))

/-- A loop with a counter, and the loop that it is unfolded to. -/
theorem forLoop (initial : Option Stmt) (initially : ∀ first ∈ initial, first.Lowers first)
    (step : Option Expr) :
    Lowers (.forLoop initial condition step body)
      (Grammar.unfoldedLoop initial condition step body') := by
  have looped := rounds condition repeated plain step
  cases initial with
  | none => exact looped
  | some first =>
    have whole := block (.cons (initially first rfl) (.cons looped .nil))
    cases step <;> exact whole

end

end Lowers

end Stmt

namespace FunctionDecl

/-- A function is lowered with its body. -/
theorem Lowers.function (name : Token) (params : List Token) (body : Stmt.AllLower stmts stmts') :
    Lowers (.mk name params stmts) (.mk name params stmts') where
  name := rfl
  ids := body.ids
  alike thins told told' formed :=
    .mk .identity rfl rfl (List.forall₂_same.mpr fun _ _ => rfl)
      (body.alike (thins.inBody params) rfl
        (told.rest (within_ofParameters _ _) (within_ofStmts _ _))
        (told'.rest (within_ofParameters _ _) (within_ofStmts _ _)) formed.below)

theorem AllLower.nil : AllLower [] [] where
  ids := rfl
  alike _ _ _ _ := .nil

theorem AllLower.cons (first : decl.Lowers decl') (others : AllLower decls decls') :
    AllLower (decl :: decls) (decl' :: decls') where
  ids := congrArg₂ _ first.ids others.ids
  alike thins told told' formed := by
    have parts := told.append (within_ofFunction _ _) (within_ofMethods _ _)
    have parts' := told'.append (within_ofFunction _ _) (within_ofMethods _ _)
    exact .cons (first.alike thins parts.1 parts'.1 formed.head)
      (others.alike thins parts.2 parts'.2 formed.tail)

end FunctionDecl

end

/-! ## Derived trees -/

namespace Grammar

/-- A tree that keeps its loops, and the one in which they are unfolded. -/
def Nonterminal.Lowers : (goal : Nonterminal) → goal.Tree → goal.Tree → Prop
  | declarations => Stmt.AllLower
  | declaration => Stmt.Lowers
  | methods => FunctionDecl.AllLower
  | function => FunctionDecl.Lowers
  | statement => fun kept lowered => kept.declared = [] ∧ kept.Lowers lowered
  | block => Stmt.AllLower
  | _ => fun _ _ => True

namespace Derives

variable {policy : Policy} {input rest : List Token} {first next : ExprId}

theorem lowers_varDeclaration {tree : Stmt}
    (derivation : Derives policy .varDeclaration input first tree rest next) :
    tree.Lowers tree := by
  cases derivation
  exact .varDecl _ _

theorem lowers_expressionStatement {tree : Stmt}
    (derivation : Derives policy .expressionStatement input first tree rest next) :
    tree.declared = [] ∧ tree.Lowers tree := by
  cases derivation
  exact ⟨rfl, .expression _⟩

theorem lowers_forInitial {tree : Option Stmt}
    (derivation : Derives policy .forInitial input first tree rest next) :
    ∀ initial ∈ tree, initial.Lowers initial := by
  rintro initial ⟨⟩
  cases derivation with
  | forVariable declared => exact declared.lowers_varDeclaration
  | forExpression stated => exact stated.lowers_expressionStatement.2

/-- Where tokens derive a tree that keeps its loops, they derive its lowering. -/
theorem exists_lowered {goal : Nonterminal} {kept : goal.Tree}
    (derivation : Derives ⟨.nearest, Stmt.forLoop⟩ goal input first kept rest next)
    (holds : goal.plain = false) :
    ∃ lowered, Derives .nearest goal input first lowered rest next ∧
      goal.Lowers kept lowered := by
  induction derivation with
  | noDeclaration => exact ⟨_, .noDeclaration, .nil⟩
  | moreDeclarations _ _ head tail =>
    rcases head rfl with ⟨_, head, lowers⟩
    rcases tail rfl with ⟨_, tail, others⟩
    exact ⟨_, .moreDeclarations head tail, .cons lowers others⟩
  | classDeclaration isClass named extended opens _ closes _ body =>
    rcases body rfl with ⟨_, body, lowers⟩
    exact ⟨_, .classDeclaration isClass named (extended.under nofun) opens body closes,
      .classDecl _ _ lowers⟩
  | funDeclaration isFun _ body =>
    rcases body rfl with ⟨_, body, lowers⟩
    exact ⟨_, .funDeclaration isFun body, .funDecl lowers⟩
  | declareVariable declared =>
    exact ⟨_, .declareVariable (declared.under nofun), declared.lowers_varDeclaration⟩
  | plainStatement _ stated =>
    rcases stated rfl with ⟨_, stated, _, lowers⟩
    exact ⟨_, .plainStatement stated, lowers⟩
  | noMethod => exact ⟨_, .noMethod, .nil⟩
  | moreMethods _ _ head tail =>
    rcases head rfl with ⟨_, head, lowers⟩
    rcases tail rfl with ⟨_, tail, others⟩
    exact ⟨_, .moreMethods head tail, .cons lowers others⟩
  | function named opens listed closes _ _ executed =>
    rcases executed rfl with ⟨_, executed, lowers⟩
    exact ⟨_, .function named opens (listed.under nofun) closes executed, .function _ _ lowers⟩
  | stateExpression stated =>
    exact ⟨_, .stateExpression (stated.under nofun), stated.lowers_expressionStatement⟩
  | @forStatement _ _ _ _ initial _ _ _ _ _ _ _ _ _ _ _ _ _ isFor opens initially conditional
    ends stepwise closes _ _ _ _ repeated =>
    rcases repeated rfl with ⟨_, repeated, plain, lowers⟩
    refine ⟨_, .forStatement isFor opens (initially.under nofun) (conditional.under nofun)
      ends (stepwise.under nofun) closes repeated, ?_,
      .forLoop _ lowers plain initial initially.lowers_forInitial _⟩
    cases initial <;> rfl
  | ifThen isIf opens conditional closes _ settled _ chosen =>
    rcases chosen rfl with ⟨_, chosen, plain, lowers⟩
    exact ⟨_, .ifThen isIf opens (conditional.under nofun) closes chosen settled,
      rfl, .ifThen _ lowers plain⟩
  | ifElse isIf opens conditional closes _ isElse _ _ chosen otherwise =>
    rcases chosen rfl with ⟨_, chosen, plain, lowers⟩
    rcases otherwise rfl with ⟨_, otherwise, plain', others⟩
    exact ⟨_, .ifElse isIf opens (conditional.under nofun) closes chosen isElse otherwise,
      rfl, .ifElse _ lowers plain others plain'⟩
  | printStatement isPrint valued ends =>
    exact ⟨_, .printStatement isPrint (valued.under nofun) ends, rfl, .print _⟩
  | returnStatement isReturn valued ends =>
    exact ⟨_, .returnStatement isReturn (valued.under nofun) ends, rfl, .returnValue _ _⟩
  | whileStatement isWhile opens conditional closes _ _ repeated =>
    rcases repeated rfl with ⟨_, repeated, plain, lowers⟩
    exact ⟨_, .whileStatement isWhile opens (conditional.under nofun) closes repeated,
      rfl, .whileLoop _ lowers plain⟩
  | blockStatement _ enclosed =>
    rcases enclosed rfl with ⟨_, enclosed, lowers⟩
    exact ⟨_, .blockStatement enclosed, rfl, .block lowers⟩
  | block opens _ closes declared =>
    rcases declared rfl with ⟨_, declared, lowers⟩
    exact ⟨_, .block opens declared closes, lowers⟩
  | _ => cases holds

end Derives

end Grammar

end

/-! ## Runs -/

/-- A ledger is told what the analysis of a program finds. -/
theorem told_analyse {prog : Program} (minted : Minted 0 nextId prog.ids) :
    Told (Ledger.recordAll ⟨.empty, 0⟩ (analyse prog).distances nextId) prog.ids
      (analyse prog) where
  distinct := minted.distinct
  below := fun id mem => (minted.within id mem).2
  found := fun id _ _ => Distances.find?_recordAll_eq_some (Distances.find?_empty id)
    ((Findings.within_ofStmts .outermost prog).unique minted.distinct id)

/-- Run a program that keeps its loops, with the distances that its own analysis finds. -/
def Program.runKept (kept : Program) (fuel : Nat) (clock : Nat → Float) (output : Sink) :
    Outcome × Machine :=
  Machine.conclude (Run.Counted.executeProgram Token.marksLoop .recorded fuel kept
    ((Machine.initial clock output).recordDistances (analyse kept).distances))

theorem run_eq_conclude_recorded {text : String} {prog : Program}
    (read : readProgram text 0 = (.ok prog, nextId)) (clean : (analyse prog).errors = [])
    (fuel : Nat) (clock : Nat → Float) (output : Sink) :
    run fuel clock output text = Machine.conclude (Run.executeProgram .recorded fuel prog
      ((Machine.initial clock output).recordDistances (analyse prog).distances)) := by
  rw [← Machine.interpretWith_eq_conclude]
  simp only [run, runWith, read, Machine.runProgramWith, Machine.analyse, clean]

/-- A program that keeps its loops runs like its lowering. -/
theorem runKept_of_lowers {kept lowered : Program} (lowers : Stmt.AllLower kept lowered)
    (minted : Minted 0 nextId lowered.ids) (formed : Node.Formed (lowered.map .stmt))
    (fuel : Nat) (clock : Nat → Float) (output : Sink) :
    let result := Machine.conclude (Run.executeProgram .recorded fuel lowered
      ((Machine.initial clock output).recordDistances (analyse lowered).distances))
    (kept.runKept fuel clock output).1 = result.1 ∧
      (kept.runKept fuel clock output).2.output = result.2.output := by
  intro result
  have minted' : Minted 0 nextId kept.ids := by
    rw [Program.ids, ← lowers.ids]
    exact minted
  have alike := lowers.alike ⟨.nil, rfl⟩ rfl (told_analyse minted) (told_analyse minted') formed
  have machines := Machine.alike_initial Eq _ clock output (Ledger.recorded_loopPairing
    (Ledger.recordAll ⟨.empty, 0⟩ (analyse lowered).distances nextId)
    (Ledger.recordAll ⟨.empty, 0⟩ (analyse kept).distances nextId))
  have similar := similar_counted (Access.faithful_recorded _) machines rfl fuel alike
  have unseen : RuntimeError.Unseen id Eq := by
    rintro fault token _ rfl
    rfl
  have ended := similar.conclude unseen
  rw [Outcome.mapRuntime_id, Outcome.mapRuntime_id] at ended
  exact ended

/--
Lowering keeps the meaning of loops with a counter.  The tokens of an accepted
text derive a tree that keeps its loops: where the parser unfolds a loop, this
tree has the loop itself, made of the same clauses and the same body.  Run with
the distances of its own analysis, it ends like the text and writes the same.
-/
theorem lowering_keeps_meaning_of_loops {text : String} (accepted : isAccepted text = true) :
    ∃ program nextId,
      readProgram text 0 = (.ok program, nextId) ∧
      (∃ kept,
        Grammar.Derives ⟨.nearest, Stmt.forLoop⟩ .declarations
          (TokenStream.ofList (scan text).tokens).tokens 0 kept [] nextId) ∧
      ∀ (kept : Program) lastId,
        Grammar.Derives ⟨.nearest, Stmt.forLoop⟩ .declarations
          (TokenStream.ofList (scan text).tokens).tokens 0 kept [] lastId →
        ∀ fuel clock output,
          (kept.runKept fuel clock output).1 = (run fuel clock output text).1 ∧
          (kept.runKept fuel clock output).2.output =
            (run fuel clock output text).2.output := by
  rcases exists_of_isAccepted accepted with ⟨program, nextId, read, clean⟩
  have derivation := derives_of_readProgram read
  refine ⟨program, nextId, read, derivation.nearest Stmt.forLoop rfl, ?_⟩
  intro kept lastId keeps fuel clock output
  rcases keeps.exists_lowered rfl with ⟨lowered, derives, lowers⟩
  -- The grammar that unfolds all loops derives one program only.
  have reread := readProgram_ok_iff.mpr ⟨(readProgram_ok_iff.mp read).1, derives⟩
  obtain rfl : lowered = program :=
    Except.ok.inj (congrArg Prod.fst (reread.symm.trans read))
  rw [run_eq_conclude_recorded read clean]
  exact runKept_of_lowers lowers derivation.minted
    (formed_of_readProgram read) fuel clock output

/-- Closures that outlive the rounds of a loop share its counter. -/
theorem closures_share_kept_counter :
    let text := "var a; for (var i = \"x\"; i != nil; i = nil) \x7b fun f() \x7b print i; \x7d " ++
      "a = f; \x7d a();"
    isAccepted text = true ∧
      ∃ kept nextId,
        Grammar.Derives ⟨.nearest, Stmt.forLoop⟩ .declarations
          (TokenStream.ofList (scan text).tokens).tokens 0 kept [] nextId ∧
        ∀ fuel clock output,
          (Program.runKept kept fuel clock output).1 = (run fuel clock output text).1 ∧
          (Program.runKept kept fuel clock output).2.output =
            (run fuel clock output text).2.output := by
  intro text
  have accepted : isAccepted text = true := by decide +kernel
  rcases lowering_keeps_meaning_of_loops accepted with
    ⟨program, nextId, _, ⟨kept, keeps⟩, runs⟩
  exact ⟨accepted, kept, nextId, keeps, runs kept nextId keeps⟩

end Treewalk
