import Mathlib.Data.List.Nodup
import Treewalk.Proofs.DerivedTrees
import Treewalk.Proofs.ParserSoundness
import Treewalk.Proofs.Resolution
import Treewalk.Proofs.TreeShapes
import Treewalk.Execution

/-!
# What the scope analysis leaves recorded

The scope analysis of a formed tree with distinct ids that breaks no rule leaves
the tree resolved: distances are found for ids of the tree, each at most once,
so no record is overwritten.
-/

namespace Treewalk

open Scoping List

/-! ## Findings -/

/-- Of some ids, the ledger has exactly the distances that were found. -/
def Ledger.Knows (ledger : Ledger) (first next : Nat)
    (found : List (ExprId × Nat)) : Prop :=
  ∀ id distance : Nat, first ≤ id → id < next →
    (ledger.distances.find? id = some distance ↔ (id, distance) ∈ found)

variable {findings : Findings} {ledger : Ledger} {property : Ledger → Prop}
  {ids further : List ExprId} {id : ExprId} {name : String}

namespace Scoping.Findings

/--
All occurrences found have ids in a range, each id at most one distance, and a
ledger that knows the distances has a property if no rule was broken.
-/
structure Resolve (first next : Nat) (findings : Findings)
    (property : Ledger → Prop) : Prop where
  within : ∀ id distance : Nat, (id, distance) ∈ findings.distances → first ≤ id ∧ id < next
  unique : ∀ id distance other : Nat, (id, distance) ∈ findings.distances →
    (id, other) ∈ findings.distances → distance = other
  resolved : ∀ ledger : Ledger, next ≤ ledger.bound →
    ledger.Knows first next findings.distances → findings.errors = [] →
      property ledger

theorem resolve_none {first next : Nat} (trivially : ∀ ledger, property ledger) :
    Resolve first next .none property where
  within := by
    intro id dist found
    cases found
  unique := by
    intro id dist other found
    cases found
  resolved := fun ledger _ _ _ => trivially ledger

theorem append_assoc (findings others further : Findings) :
    findings ++ others ++ further = findings ++ (others ++ further) := by
  show Findings.append (Findings.append findings others) further =
    Findings.append findings (Findings.append others further)
  simp [Findings.append]

/-- Distances are found for some ids, once for each and in their order. -/
def Within (findings : Findings) (ids : List ExprId) : Prop :=
  (findings.distances.map Prod.fst).Sublist ids

theorem within_none (ids : List ExprId) : Within .none ids :=
  nil_sublist _

theorem within_errorIf (cond : Bool) (fault : ScopingFault) (token : Token) :
    Within (errorIf cond fault token) [] := by
  unfold errorIf
  split <;> exact nil_sublist _

theorem within_occurrence (ctx : Context) (id : ExprId) (name : String) :
    Within (occurrence ctx id name) [id] := by
  unfold occurrence
  split
  · exact List.Sublist.refl _
  · exact nil_sublist _

/-- Findings of neighbours are about the occurrences of both. -/
theorem Within.append {findings others : Findings} {ids further : List ExprId}
    (within : findings.Within ids) (within' : others.Within further) :
    Within (findings ++ others) (ids ++ further) := by
  rw [Within, show (findings ++ others).distances = findings.distances ++ others.distances from rfl,
    map_append]
  exact List.Sublist.append within within'

theorem within_ofParameters (ctx : Context) (names : List Token) :
    Within (ofParameters ctx names) [] := by
  induction names generalizing ctx with
  | nil => exact within_none _
  | cons name names ih => exact (within_errorIf _ _ _).append (ih _)

mutual

/-- What is found in an expression is about its own occurrences. -/
theorem within_ofExpr (ctx : Context) : ∀ value : Expr, (ofExpr ctx value).Within value.ids
  | .literal _ => within_none _
  | .grouping inner | .unary _ inner | .get inner _ => within_ofExpr ctx inner
  | .binary left _ right | .logical left _ right | .set left _ right =>
    (within_ofExpr ctx left).append (within_ofExpr ctx right)
  | .name _ _ => (within_errorIf _ _ _).append (within_occurrence _ _ _)
  | .assign _ _ value => (within_ofExpr ctx value).append (within_occurrence _ _ _)
  | .receiver _ _ => by
    unfold ofExpr
    split
    · exact within_occurrence _ _ _
    · exact nil_sublist _
  | .call callee _ args => (within_ofExpr ctx callee).append (within_ofExprs ctx args)

theorem within_ofExprs (ctx : Context) : ∀ values : List Expr,
    (ofExprs ctx values).Within (Expr.idsAll values)
  | [] => within_none _
  | value :: values => (within_ofExpr ctx value).append (within_ofExprs ctx values)

end

theorem within_ofOption (ctx : Context) (value : Option Expr) :
    (ofOption ctx value).Within (Expr.idsOption value) := by
  cases value with
  | none => exact within_none _
  | some value => exact within_ofExpr ctx value

theorem within_inheritsItself (name : Token) (superclass : Option Expr) :
    (inheritsItself name superclass).Within [] := by
  unfold inheritsItself
  split
  · exact within_errorIf _ _ _
  · exact within_none _

mutual

theorem within_ofFunction : ∀ (ctx : Context) (decl : FunctionDecl),
    (ofFunction ctx decl).Within decl.ids
  | _, .mk _ _ body => (within_ofParameters _ _).append (within_ofStmts _ body)

theorem within_ofMethods : ∀ (ctx : Context) (decls : List FunctionDecl),
    (ofMethods ctx decls).Within (FunctionDecl.idsAll decls)
  | _, [] => within_none _
  | ctx, decl :: decls => (within_ofFunction ctx decl).append (within_ofMethods ctx decls)

/-- What is found in a statement is about its own occurrences. -/
theorem within_ofStmt : ∀ (ctx : Context) (stmt : Stmt), (ofStmt ctx stmt).Within stmt.ids
  | ctx, .expression value | ctx, .print value => within_ofExpr ctx value
  | _, .varDecl _ initial => (within_errorIf _ _ _).append (within_ofOption _ initial)
  | _, .block body => within_ofStmts _ body
  | ctx, .ifElse cond yes .none | ctx, .whileLoop cond yes =>
    (within_ofExpr ctx cond).append (within_ofStmt ctx yes)
  | ctx, .ifElse cond yes (some no) =>
    ((within_ofExpr ctx cond).append (within_ofStmt ctx yes)).append (within_ofStmt _ no)
  | _, .funDecl decl => (within_errorIf _ _ _).append (within_ofFunction _ decl)
  | ctx, .returnValue _ value => (within_errorIf _ _ _).append (within_ofOption ctx value)
  | _, .classDecl name superclass methods =>
    (((within_errorIf _ _ _).append (within_inheritsItself name superclass)).append
      (within_ofOption _ superclass)).append (within_ofMethods _ methods)

theorem within_ofStmts : ∀ (ctx : Context) (stmts : List Stmt),
    (ofStmts ctx stmts).Within (Stmt.idsAll stmts)
  | _, [] => within_none _
  | ctx, stmt :: stmts => (within_ofStmt ctx stmt).append (within_ofStmts _ stmts)

end

end Scoping.Findings

namespace Scoping

/-- What is recorded for some ids is what was found. -/
structure Told (ledger : Ledger) (ids : List ExprId) (findings : Findings) : Prop where
  distinct : ids.Nodup
  below : ∀ id ∈ ids, id < ledger.bound
  found : ∀ id ∈ ids, ∀ distance, ledger.distances.find? id = some distance ↔
    (id, distance) ∈ findings.distances

namespace Told

variable {others : Findings} {ctx : Context}

/-- What a ledger tells of two parts it tells of each. -/
theorem append (told : Told ledger (ids ++ further) (findings ++ others))
    (within : findings.Within ids) (within' : others.Within further) :
    Told ledger ids findings ∧ Told ledger further others := by
  rcases nodup_append.mp told.distinct with ⟨distinct, distinct', apart⟩
  have found (id : ExprId) (mem : id ∈ ids ++ further) (dist : Nat) :
      ledger.distances.find? id = some dist ↔
        (id, dist) ∈ findings.distances ∨ (id, dist) ∈ others.distances := by
    rw [told.found id mem dist]
    exact mem_append
  rcases forall_mem_append.mp told.below with ⟨below, below'⟩
  refine ⟨⟨distinct, below, fun id mem dist => ?_⟩, distinct', below', fun id mem dist => ?_⟩
  · rw [found id (mem_append_left _ mem), or_iff_left]
    intro again
    exact apart id mem id (within'.subset (mem_map_of_mem again)) rfl
  · rw [found id (mem_append_right _ mem), or_iff_right]
    intro again
    exact apart id (within.subset (mem_map_of_mem again)) id mem rfl

/-- A part that finds nothing says nothing. -/
theorem rest (told : Told ledger ids (findings ++ others)) (within : findings.Within [])
    (within' : others.Within ids) : Told ledger ids others := by
  have whole : Told ledger ([] ++ ids) (findings ++ others) := told
  exact (whole.append within within').2

theorem unknown (told : Told ledger [id] findings) (within : findings.Within []) :
    ledger.distances.find? id = none := by
  rw [Option.eq_none_iff_forall_ne_some]
  intro dist recorded
  have found := (told.found id mem_cons_self dist).mp recorded
  cases within.subset (mem_map_of_mem found)

/-- An occurrence is recorded at its distance in the context. -/
theorem find?_eq (told : Told ledger [id] (.occurrence ctx id name)) :
    ledger.distances.find? id = ctx.distance? name := by
  ext dist
  rw [told.found id mem_cons_self, Findings.occurrence]
  cases ctx.distance? name with
  | none => simp [Findings.none]
  | some nearest => simp [eq_comm]

theorem places (told : Told ledger [id] (.occurrence ctx id name)) : ledger.Places ctx id name :=
  ⟨told.below id mem_cons_self, told.find?_eq⟩

end Told

/-- What is recorded for some ids is what was found, and no rule was broken. -/
structure Upheld (ledger : Ledger) (ids : List ExprId) (findings : Findings) : Prop
    extends Told ledger ids findings where
  clean : findings.errors = []

namespace Upheld

variable {others : Findings}

theorem append (upheld : Upheld ledger (ids ++ further) (findings ++ others))
    (within : findings.Within ids) (within' : others.Within further) :
    Upheld ledger ids findings ∧ Upheld ledger further others := by
  rcases upheld.toTold.append within within' with ⟨told, told'⟩
  rcases append_eq_nil_iff.mp upheld.clean with ⟨clean, clean'⟩
  exact ⟨⟨told, clean⟩, told', clean'⟩

theorem rest (upheld : Upheld ledger ids (findings ++ others)) (within : findings.Within [])
    (within' : others.Within ids) : Upheld ledger ids others :=
  ⟨upheld.toTold.rest within within', (append_eq_nil_iff.mp upheld.clean).2⟩

/-- Where the rules are kept, no condition for an error holds. -/
theorem unbroken {cond : Bool} {fault : ScopingFault} {token : Token}
    (upheld : Upheld ledger ids (.errorIf cond fault token ++ findings)) :
    cond = false := by
  have clean := (append_eq_nil_iff.mp upheld.clean).1
  cases cond with
  | false => rfl
  | true => cases clean

end Upheld

end Scoping

namespace Scoping.Context

variable {ctx : Context}

theorem Settled.awaits (settled : ctx.Settled) (name : String) : ctx.awaits name = false := by
  unfold Context.awaits
  split
  · rfl
  · next scope outer scopes =>
      have readable := settled scope (by rw [scopes]; exact .head _) name
      simpa using readable

theorem Settled.steady (settled : ctx.Settled) : ctx.Steady where
  outer := by
    intro scope mem
    exact settled scope (mem_of_mem_tail mem)
  receiver := settled.awaits "this"

/-- A name that is not awaited may be read. -/
theorem Steady.readable (steady : ctx.Steady) {name : String}
    (unawaited : ctx.awaits name = false) : ctx.Readable name := by
  intro dist nearest
  rcases findIdx?_eq_some_iff_getElem.mp nearest with ⟨inside, declared, _⟩
  refine ⟨ctx.scopes[dist], getElem?_eq_getElem inside, ?_⟩
  rcases Option.isSome_iff_exists.mp declared with ⟨readable, found⟩
  cases readable with
  | true => exact found
  | false =>
    cases dist with
    | zero =>
      unfold awaits at unawaited
      split at unawaited
      · next scopes => simp [scopes] at inside
      · next scope outer scopes =>
          simp [scopes] at found
          simp [found] at unawaited
    | succ dist =>
      refine absurd found (steady.outer _ ?_ name)
      rw [mem_iff_getElem]
      exact ⟨dist, by simp; omega, by simp⟩

theorem settled_outermost : outermost.Settled := by
  intro scope mem
  cases mem

section

variable (settled : ctx.Settled)

include settled

theorem Settled.mark (name : String) : (ctx.mark name true).Settled := by
  unfold Context.mark
  split
  · exact settled
  · next scope outer scopes =>
      intro inner mem other
      rcases mem_cons.mp mem with rfl | mem
      · have readable := settled scope (by rw [scopes]; exact .head _) other
        rw [lookup_cons]
        split
        · simp
        · exact readable
      · exact settled inner (by rw [scopes]; exact .tail _ mem) other

theorem Settled.define (name : Token) : (ctx.define name).Settled :=
  settled.mark name.lexeme

theorem Settled.enter : (ctx.enter []).Settled := by
  intro scope mem name
  rcases mem_cons.mp mem with rfl | mem
  · simp
  · exact settled scope mem name

theorem Settled.enter_receiver : (ctx.enter [("this", true)]).Settled := by
  intro scope mem name
  rcases mem_cons.mp mem with rfl | mem
  · rw [lookup_cons]
    split <;> simp
  · exact settled scope mem name

theorem Settled.named (name : Token) : (ctx.named name).Settled :=
  settled.define name

theorem Settled.inBody (params : List Token) : (ctx.inBody params).Settled := by
  have inside : ({ ctx.enter [] with inFunction := true } : Context).Settled := settled.enter
  unfold Context.inBody
  generalize ({ ctx.enter [] with inFunction := true } : Context) = inner at inside
  induction params generalizing inner with
  | nil => exact inside
  | cons name names ih => exact ih (inner.define name) (inside.define name)

end

/-- What every declaration keeps holds after a statement if it held before. -/
theorem after_of_define (Kept : Context → Prop) (holds : Kept ctx)
    (defined : ∀ ctx name, Kept ctx → Kept (ctx.define name)) (stmt : Stmt) :
    Kept (ctx.after stmt) := by
  fun_induction Context.after ctx stmt with
  | case1 ctx name | case2 ctx decl | case3 ctx name => exact defined _ _ holds
  | case4 ctx _ yes inner | case6 ctx _ body inner => exact inner holds
  | case5 ctx _ yes no inner other => exact other (inner holds)
  | case7 ctx => exact holds

/-- No name is awaited after a statement if none was before it. -/
theorem Settled.after (settled : ctx.Settled) (stmt : Stmt) : (ctx.after stmt).Settled :=
  after_of_define Settled settled (fun _ name settled => settled.define name) stmt

/-- Where no name is awaited, all names may be read. -/
theorem Settled.readable (settled : ctx.Settled) (name : String) : ctx.Readable name :=
  settled.steady.readable (settled.awaits name)

theorem distance?_mark_of_ne (ctx : Context) {other : String} (differs : other ≠ name)
    (readable : Bool) : (ctx.mark name readable).distance? other = ctx.distance? other := by
  unfold Context.mark distance?
  split
  · rfl
  · next scope outer scopes =>
      have absent : (other == name) = false := by simpa using differs
      simp [scopes, findIdx?_cons, lookup_cons, absent]

theorem length_scopes_mark (ctx : Context) (name : String) (readable : Bool) :
    (ctx.mark name readable).scopes.length = ctx.scopes.length := by
  unfold mark
  split
  · rfl
  · next scopes => rw [scopes]; rfl

/-- A statement leaves the scopes that it has entered. -/
theorem length_scopes_after (ctx : Context) (stmt : Stmt) :
    (ctx.after stmt).scopes.length = ctx.scopes.length := by
  refine after_of_define (fun other => other.scopes.length = ctx.scopes.length) rfl ?_ stmt
  intro other name same
  exact (other.length_scopes_mark name.lexeme true).trans same

theorem after_inFunction (ctx : Context) (stmt : Stmt) :
    (ctx.after stmt).inFunction = ctx.inFunction := by
  refine after_of_define (fun other => other.inFunction = ctx.inFunction) rfl ?_ stmt
  intro other name same
  rw [← same, Context.define, Context.mark]
  split <;> rfl

/-- The initial value of a variable is read where the variable is awaited. -/
theorem Settled.declare (settled : ctx.Settled) {name : Token}
    (variable_name : name.lexeme ≠ "this") : (ctx.declare name).Steady := by
  unfold Context.declare Context.mark
  split
  · exact settled.steady
  · next scope outer scopes =>
      constructor
      · intro inner mem
        exact settled inner (by rw [scopes]; exact .tail _ mem)
      · have readable := settled scope (by rw [scopes]; exact .head _) "this"
        have other : ("this" == name.lexeme) = false := by
          simpa using variable_name.symm
        simp only [Context.awaits, lookup_cons, other]
        simpa using readable

end Scoping.Context

/-! ## Formed trees -/

/-- A statement that declares nothing leaves its context as it is. -/
theorem Stmt.after_eq : ∀ stmt : Stmt, Node.Formed [.stmt stmt] → stmt.declared = [] →
    ∀ ctx : Context, ctx.after stmt = ctx
  | .expression _, _, _, _ => rfl
  | .print _, _, _, _ => rfl
  | .block _, _, _, _ => rfl
  | .returnValue _ _, _, _, _ => rfl
  | .ifElse _ yes none, formed, _, ctx | .whileLoop _ yes, formed, _, ctx =>
    yes.after_eq formed.inner (formed.here yes (.head _)) ctx
  | .ifElse _ yes (some no), formed, _, ctx => by
    rw [Context.after, yes.after_eq formed.inner.head (formed.here yes (.head _)),
      no.after_eq formed.inner.tail (formed.here no (.tail _ (.head _)))]

section

open Findings

mutual

/-- Expressions that keep the scope rules are resolved. -/
theorem Expr.resolved {ctx : Context} (steady : ctx.Steady) : ∀ value : Expr,
    Node.Formed [.expr value] → Upheld ledger value.ids (ofExpr ctx value) →
      value.Resolved ledger ctx
  | .literal _, _, _ => trivial
  | .grouping inner, formed, upheld | .unary _ inner, formed, upheld
  | .get inner _, formed, upheld => inner.resolved steady formed.below upheld
  | .binary left _ right, formed, upheld | .logical left _ right, formed, upheld
  | .set left _ right, formed, upheld => by
    rcases upheld.append (within_ofExpr _ _) (within_ofExpr _ _) with ⟨first, second⟩
    exact ⟨left.resolved steady formed.below.head first,
      right.resolved steady formed.below.tail second⟩
  | .name _ _, _, upheld =>
    ⟨(upheld.rest (within_errorIf _ _ _) (within_occurrence _ _ _)).places,
      steady.readable upheld.unbroken⟩
  | .assign _ _ value, formed, upheld => by
    rcases upheld.append (within_ofExpr _ _) (within_occurrence _ _ _) with ⟨first, second⟩
    exact ⟨value.resolved steady formed.below first, second.places⟩
  | .receiver _ keyword, formed, upheld => by
    have received : keyword.lexeme = "this" :=
      formed.here.1.keyword .thisWord (Grammar.kind_of_isWord formed.here.2)
    unfold ofExpr at upheld
    split at upheld
    · refine ⟨upheld.places, ?_, received⟩
      rw [received]
      exact steady.readable steady.receiver
    · cases upheld.clean
  | .call callee _ args, formed, upheld => by
    rcases upheld.append (within_ofExpr _ _) (within_ofExprs _ _) with ⟨first, second⟩
    exact ⟨callee.resolved steady formed.below.head first,
      Expr.allResolved steady args formed.below.tail second⟩

theorem Expr.allResolved {ctx : Context} (steady : ctx.Steady) :
    ∀ values : List Expr, Node.Formed (values.map .expr) →
      Upheld ledger (Expr.idsAll values) (ofExprs ctx values) →
      Expr.AllResolved ledger ctx values
  | [], _, _ => trivial
  | value :: values, formed, upheld => by
    rcases upheld.append (within_ofExpr _ _) (within_ofExprs _ _) with ⟨first, second⟩
    exact ⟨value.resolved steady formed.head first,
      Expr.allResolved steady values formed.tail second⟩

end

theorem Expr.optionResolved {ctx : Context} (steady : ctx.Steady)
    {value : Option Expr} (formed : Node.Formed (value.toList.map .expr))
    (upheld : Upheld ledger (Expr.idsOption value) (ofOption ctx value)) :
    Expr.OptionResolved ledger ctx value := by
  cases value with
  | none => trivial
  | some value => exact value.resolved steady formed upheld

/-- A class other than the superclass does not change where that is found. -/
theorem Expr.parentResolved {ctx : Context} (settled : ctx.Settled) {name : Token}
    {superclass : Option Expr} (formed : Node.Formed (superclass.toList.map .expr))
    (named : ∀ value ∈ superclass.toList, ∃ id token, value = .name id token)
    (clean : (inheritsItself name superclass).errors = [])
    (upheld : Upheld ledger (Expr.idsOption superclass) (ofOption (ctx.named name) superclass)) :
    Expr.OptionResolved ledger ctx superclass ∧
      Expr.OptionResolved ledger (ctx.named name) superclass := by
  have resolved := Expr.optionResolved (settled.named name).steady formed upheld
  refine ⟨?_, resolved⟩
  cases superclass with
  | none => trivial
  | some superclass =>
    rcases named _ (.head _) with ⟨id, superName, rfl⟩
    have differs : superName.lexeme ≠ name.lexeme := by
      intro same
      rw [inheritsItself, same, beq_self_eq_true] at clean
      cases clean
    refine ⟨⟨resolved.1.1, ?_⟩, settled.readable _⟩
    rw [resolved.1.2]
    exact Context.distance?_mark_of_ne ctx differs true

mutual

/-- Functions that keep the scope rules are resolved. -/
theorem FunctionDecl.resolved {ctx : Context} (settled : ctx.Settled) :
    ∀ decl : FunctionDecl, Node.Formed [.function decl] →
      Upheld ledger decl.ids (ofFunction ctx decl) → decl.Resolved ledger ctx
  | .mk _ params body, formed, upheld =>
    Stmt.allResolved (settled.inBody params) body formed.below
      (upheld.rest (within_ofParameters _ _) (within_ofStmts _ _))

theorem FunctionDecl.allResolved {ctx : Context} (settled : ctx.Settled) :
    ∀ decls : List FunctionDecl, Node.Formed (decls.map .function) →
      Upheld ledger (FunctionDecl.idsAll decls) (ofMethods ctx decls) →
      FunctionDecl.AllResolved ledger ctx decls
  | [], _, _ => trivial
  | decl :: decls, formed, upheld => by
    rcases upheld.append (within_ofFunction _ _) (within_ofMethods _ _) with ⟨first, second⟩
    exact ⟨decl.resolved settled formed.head first,
      FunctionDecl.allResolved settled decls formed.tail second⟩

/-- The analysis of a formed statement leaves it resolved. -/
theorem Stmt.resolved {ctx : Context} (settled : ctx.Settled) : ∀ stmt : Stmt,
    Node.Formed [.stmt stmt] → Upheld ledger stmt.ids (ofStmt ctx stmt) → stmt.Resolved ledger ctx
  | .expression value, formed, upheld | .print value, formed, upheld =>
    value.resolved settled.steady formed.below upheld
  | .varDecl _ _, formed, upheld =>
    Expr.optionResolved (settled.declare formed.here.lexeme) formed.operands
      (upheld.rest (within_errorIf _ _ _) (within_ofOption _ _))
  | .block body, formed, upheld => Stmt.allResolved settled.enter body formed.inner upheld
  | .ifElse cond yes .none, formed, upheld | .whileLoop cond yes, formed, upheld => by
    rcases upheld.append (within_ofExpr _ _) (within_ofStmt _ _) with ⟨first, second⟩
    exact ⟨cond.resolved settled.steady formed.operands first,
      yes.resolved settled formed.inner second,
      yes.after_eq formed.inner (formed.here yes (.head _)) ctx⟩
  | .ifElse cond yes (some no), formed, upheld => by
    have chosen := yes.after_eq formed.inner.head (formed.here yes (.head _)) ctx
    rw [ofStmt, chosen] at upheld
    rcases upheld.append ((within_ofExpr _ _).append (within_ofStmt _ _)) (within_ofStmt _ _) with
      ⟨head, third⟩
    rcases head.append (within_ofExpr _ _) (within_ofStmt _ _) with ⟨first, second⟩
    exact ⟨cond.resolved settled.steady formed.operands first,
      yes.resolved settled formed.inner.head second, chosen,
      no.resolved settled formed.inner.tail third,
      no.after_eq formed.inner.tail (formed.here no (.tail _ (.head _))) ctx⟩
  | .funDecl decl, formed, upheld =>
    decl.resolved (settled.define _) formed.functions
      (upheld.rest (within_errorIf _ _ _) (within_ofFunction _ _))
  | .returnValue _ _, formed, upheld =>
    ⟨by simpa using upheld.unbroken, Expr.optionResolved settled.steady formed.operands
        (upheld.rest (within_errorIf _ _ _) (within_ofOption _ _))⟩
  | .classDecl name superclass methods, formed, upheld => by
    have rules := (within_errorIf (ctx.declaresInnermost name.lexeme) .redeclared name).append
      (within_inheritsItself name superclass)
    rcases upheld.append (rules.append (within_ofOption _ _)) (within_ofMethods _ _) with
      ⟨head, second⟩
    have clean := (append_eq_nil_iff.mp (append_eq_nil_iff.mp head.clean).1).2
    have named := Expr.parentResolved settled formed.operands formed.here.2 clean
      (head.rest rules (within_ofOption _ _))
    exact ⟨named.1, named.2, FunctionDecl.allResolved
      (settled.named name).enter_receiver methods formed.functions second⟩

theorem Stmt.allResolved {ctx : Context} (settled : ctx.Settled) :
    ∀ stmts : List Stmt, Node.Formed (stmts.map .stmt) →
      Upheld ledger (Stmt.idsAll stmts) (ofStmts ctx stmts) →
      Stmt.AllResolved ledger ctx stmts
  | [], _, _ => trivial
  | stmt :: stmts, formed, upheld => by
    rcases upheld.append (within_ofStmt _ _) (within_ofStmts _ _) with ⟨first, second⟩
    exact ⟨stmt.resolved settled formed.head first,
      Stmt.allResolved (settled.after stmt) stmts formed.tail second⟩

end

end

/-- An id is recorded at one distance at most. -/
theorem Scoping.Findings.Within.unique (within : findings.Within ids) (distinct : ids.Nodup)
    (id dist other : Nat) (found : (id, dist) ∈ findings.distances)
    (again : (id, other) ∈ findings.distances) : dist = other :=
  congrArg Prod.snd (inj_on_of_nodup_map (within.nodup distinct) found again rfl)

variable {prog : Program} {firstId nextId : ExprId} {text : String}

/-- The analysis of a derived program leaves it resolved. -/
theorem Grammar.Derives.resolve {input rest : List Token}
    {first next : ExprId} (derivation : Derives .nearest .declarations input first prog rest next)
    (spelled : Given Token.Spelled input) :
    Findings.Resolve first next (Scoping.analyse prog)
      (fun ledger => Stmt.AllResolved ledger .outermost prog) := by
  have minted := derivation.minted
  have inside := Findings.within_ofStmts .outermost prog
  refine ⟨fun id dist found => ?_, inside.unique minted.distinct, ?_⟩
  · exact minted.within id (inside.subset (mem_map_of_mem found))
  · intro ledger bounded knows clean
    refine Stmt.allResolved Context.settled_outermost prog (derivation.grown spelled).1
      ⟨⟨minted.distinct, fun id mem => ?_, fun id mem dist => ?_⟩, clean⟩
    · exact Nat.lt_of_lt_of_le (minted.within id mem).2 bounded
    · exact knows id dist (minted.within id mem).1 (minted.within id mem).2

/-! ## Recording -/

namespace Distances

variable {found : List (ExprId × Nat)} {distances : Distances}

/-- Other ids keep what was recorded for them. -/
theorem find?_recordAll_of_absent (absent : ∀ dist, (id, dist) ∉ found) :
    (distances.recordAll found).find? id = distances.find? id := by
  induction found generalizing distances with
  | nil => rfl
  | cons entry found ih =>
    have others : ∀ dist, (id, dist) ∉ found :=
      fun dist mem => absent dist (.tail _ mem)
    have differs : entry.1 ≠ id := by
      rintro rfl
      exact absent entry.2 (.head _)
    show ((distances.record entry.1 entry.2).recordAll found).find? id = _
    rw [ih others, find?_record, if_neg differs]

theorem find?_recordAll_of_mem {dist : Nat}
    (unique : ∀ dist other, (id, dist) ∈ found → (id, other) ∈ found → dist = other)
    (mem : (id, dist) ∈ found) : (distances.recordAll found).find? id = some dist := by
  induction found generalizing distances with
  | nil => cases mem
  | cons entry found ih =>
    have others : ∀ dist other, (id, dist) ∈ found → (id, other) ∈ found → dist = other :=
      fun dist other one two => unique _ _ (.tail _ one) (.tail _ two)
    show ((distances.record entry.1 entry.2).recordAll found).find? id = _
    by_cases again : ∃ other, (id, other) ∈ found
    · rcases again with ⟨other, later⟩
      rcases unique dist other mem (.tail _ later) with rfl
      exact ih others later
    · rw [find?_recordAll_of_absent (fun other later => again ⟨other, later⟩)]
      rcases mem_cons.mp mem with rfl | later
      · simp
      · exact absurd ⟨dist, later⟩ again

theorem find?_recordAll_eq_some (unknown : distances.find? id = none)
    (unique : ∀ dist other, (id, dist) ∈ found → (id, other) ∈ found → dist = other) {dist : Nat} :
    (distances.recordAll found).find? id = some dist ↔ (id, dist) ∈ found := by
  refine ⟨fun recorded => ?_, find?_recordAll_of_mem unique⟩
  by_cases known : ∃ other, (id, other) ∈ found
  · rcases known with ⟨other, mem⟩
    rw [find?_recordAll_of_mem unique mem, Option.some.injEq] at recorded
    rw [← recorded]
    exact mem
  · rw [find?_recordAll_of_absent (fun other mem => known ⟨other, mem⟩), unknown] at recorded
    cases recorded

end Distances

namespace Ledger

/-- No distance is recorded for an id that is not in use. -/
def Fresh (ledger : Ledger) : Prop :=
  ∀ id : Nat, ledger.bound ≤ id → ledger.distances.find? id = none

theorem fresh_empty : Fresh ⟨.empty, 0⟩ :=
  fun id _ => Distances.find?_empty id

/-- The ledger after the distances of a text with further ids. -/
def recordAll (ledger : Ledger) (found : List (ExprId × Nat)) (nextId : ExprId) : Ledger :=
  ⟨ledger.distances.recordAll found, nextId⟩

variable {nextId : Nat}

/-- Recording distances of new ids extends a ledger. -/
theorem extends_recordAll (increasing : ledger.bound ≤ nextId)
    (resolve : findings.Resolve ledger.bound nextId property) :
    ledger.Extends (ledger.recordAll findings.distances nextId) where
  bound_le := increasing
  same := by
    intro id below
    refine Distances.find?_recordAll_of_absent ?_
    intro dist found
    exact Nat.not_lt_of_le (resolve.within id dist found).1 below

/-- Ids that are still to come stay without a record. -/
theorem Fresh.recordAll (fresh : ledger.Fresh) (increasing : ledger.bound ≤ nextId)
    (resolve : findings.Resolve ledger.bound nextId property) :
    (ledger.recordAll findings.distances nextId).Fresh := by
  intro id above
  rw [← fresh id (Nat.le_trans increasing above)]
  refine Distances.find?_recordAll_of_absent ?_
  intro dist found
  exact Nat.not_lt_of_le above (resolve.within id dist found).2

/-- If no rule is broken, recording what was found resolves it. -/
theorem Fresh.resolved (fresh : ledger.Fresh)
    (resolve : findings.Resolve ledger.bound nextId property) (clean : findings.errors = []) :
    property (ledger.recordAll findings.distances nextId) := by
  refine resolve.resolved _ (Nat.le_refl _) ?_ clean
  intro id dist above below
  exact Distances.find?_recordAll_eq_some (fresh id above) (resolve.unique id)

end Ledger

/-! ## Texts -/

/-- The tokens of a program derive its tree. -/
theorem derives_of_readProgram (accepted : readProgram text firstId = (.ok prog, nextId)) :
    Grammar.Derives .nearest .declarations
      (TokenStream.ofList (scan text).tokens).tokens firstId prog []
      nextId := by
  unfold readProgram at accepted
  simp only [Prod.mk.injEq] at accepted
  rcases accepted with ⟨accepted, rfl⟩
  refine Grammar.derives_of_parse_ok ?_
  unfold accept at accepted
  simp only at accepted
  split at accepted
  · next parsed result =>
    split at accepted
    · cases accepted
      exact result
    · cases accepted
  · cases accepted

/-- Ids are never taken back, whether a text is accepted or not. -/
theorem readProgram_firstId_le (text : String) (firstId : ExprId) :
    firstId ≤ (readProgram text firstId).2 :=
  Grammar.firstId_le_nextId _ firstId

theorem spelled_ofList_scan (text : String) :
    Grammar.Given Token.Spelled (TokenStream.ofList (scan text).tokens).tokens :=
  fun _ mem => scan_spelled ((takeWhile_sublist _).subset mem)

/-- The nodes of a program that is read have their forms. -/
theorem formed_of_readProgram (accepted : readProgram text firstId = (.ok prog, nextId)) :
    Node.Formed (prog.map .stmt) :=
  ((derives_of_readProgram accepted).grown (spelled_ofList_scan text)).1

/-- A program that keeps the scope rules is resolved. -/
theorem resolve_of_readProgram (accepted : readProgram text firstId = (.ok prog, nextId)) :
    Findings.Resolve firstId nextId (Scoping.analyse prog)
      (fun ledger => Stmt.AllResolved ledger .outermost prog) :=
  (derives_of_readProgram accepted).resolve (spelled_ofList_scan text)

end Treewalk
