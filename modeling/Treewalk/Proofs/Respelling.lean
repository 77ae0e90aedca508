import Mathlib.Logic.Equiv.Basic
import Treewalk.Proofs.Analysis
import Treewalk.Proofs.Likeness
import Treewalk.Proofs.NameUses

/-!
# Giving a local variable a new name

Let some tokens of an accepted program be respelled with a name that occurs
nowhere in it, namely those that stand for one of some declarations of local
variables.  Then the programs before and after the change are alike.

A local scope that declares one of these variables exchanges the old and the
new name; all other scopes rename nothing.  The new name is never captured.
-/

namespace Treewalk

open Scoping NameUse List

/-- Tokens that are given a new name, and the declarations they stand for. -/
structure Respelling where
  old : String
  new : String
  /-- The declarations of the variables. -/
  target : Token → Bool
  /-- The tokens that are respelled. -/
  marked : Token → Bool
  old_ne : old ≠ "this"
  new_ne : new ≠ "this"

variable {frames : List (List Token)} {same : Token → Token → Prop} {change' change : Relabelling}
  {ctx : Context} {name name' : String} {ledger : Ledger} {token : Token} {findings : Findings}

namespace Respelling

variable (spelling : Respelling)

/-- The lexeme that a token is given. -/
def spell (token : Token) : String :=
  if spelling.marked token then spelling.new else token.lexeme

/-- The old and the new name change places. -/
def exchange : Renaming where
  apply := Equiv.swap spelling.old spelling.new
  injective := (Equiv.swap spelling.old spelling.new).injective
  receiver :=
    Equiv.swap_apply_of_ne_of_ne spelling.old_ne.symm spelling.new_ne.symm

theorem exchange_old : spelling.exchange spelling.old = spelling.new :=
  Equiv.swap_apply_left _ _

theorem exchange_new : spelling.exchange spelling.new = spelling.old :=
  Equiv.swap_apply_right _ _

theorem exchange_of_ne (not_old : name ≠ spelling.old) (not_new : name ≠ spelling.new) :
    spelling.exchange name = name :=
  Equiv.swap_apply_of_ne_of_ne not_old not_new

/-- The renaming of a scope that declares some names. -/
def frame (names : List Token) : Renaming :=
  if names.any spelling.target then spelling.exchange else .identity

/-- The renamings of nested scopes. -/
def chain (frames : List (List Token)) : List Renaming :=
  frames.map spelling.frame

theorem spare_frame (names : List Token) : (spelling.frame names).spare = false := by
  unfold frame
  split <;> rfl

theorem spare_chain (frames : List (List Token)) :
    ∀ layer ∈ spelling.chain frames, layer.spare = false := by
  intro layer mem
  rcases mem_map.mp mem with ⟨names, _, rfl⟩
  exact spelling.spare_frame names

end Respelling

/--
A token is respelled exactly if it stands for one of the declarations, and
these declare variables of the old name.
-/
structure NameUse.Respelled (spelling : Respelling) (use : NameUse) :
    Prop where
  marked : spelling.marked use.token = use.declaration.any spelling.target
  target : spelling.target use.token = true →
    use.declaration = some use.token ∧ use.token.lexeme = spelling.old
  fresh : use.token.lexeme ≠ spelling.new

/-! ## Scopes -/

namespace Scoping.Context

/-- Rename the names of a local scope. -/
def renameScope (rename : Renaming) (scope : LocalScope) : LocalScope :=
  scope.map fun (name, readable) => (rename name, readable)

/-- Rename the names of all local scopes. -/
def rename (chain : List Renaming) (context : Context) : Context :=
  { context with scopes := zipWith renameScope chain context.scopes }

theorem lookup_renameScope (rename : Renaming) (scope : LocalScope) (name : String) :
    (renameScope rename scope).lookup (rename name) = scope.lookup name := by
  induction scope with
  | nil => rfl
  | cons entry scope ih =>
    have same : (rename name == rename entry.1) = (name == entry.1) := by
      rw [Bool.eq_iff_iff, beq_iff_eq, beq_iff_eq, rename.injective.eq_iff]
    rw [renameScope, map_cons, lookup_cons, lookup_cons, same]
    split
    · rfl
    · exact ih

theorem rename_mark (chain : List Renaming) (ctx : Context) (name : String) (readable : Bool) :
    (ctx.mark name readable).rename chain = (ctx.rename chain).mark (Renaming.innermost chain name)
        readable := by
  rcases ctx with ⟨scopes, inFunction, inClass⟩
  cases scopes with
  | nil | cons scope outer => cases chain <;> rfl

theorem rename_enter (rename : Renaming) (chain : List Renaming)
    (ctx : Context) (scope : LocalScope) :
    (ctx.enter scope).rename (rename :: chain) =
      (ctx.rename chain).enter (renameScope rename scope) := rfl

end Scoping.Context

/-- A local scope among the names that it declares sooner or later. -/
structure Respelling.Frame (spelling : Respelling) (names : List Token)
    (scope : LocalScope) : Prop where
  declared : ∀ name, (scope.lookup name).isSome →
    name = "this" ∨ ∃ token ∈ names, token.lexeme = name
  single : ∀ token ∈ names, ∀ other ∈ names, token.lexeme = other.lexeme → token = other
  target : ∀ token ∈ names, spelling.target token = true → token.lexeme = spelling.old
  fresh : ∀ token ∈ names, token.lexeme ≠ spelling.new

/-- Nested local scopes among the names that they declare. -/
def Respelling.Fits (spelling : Respelling) (frames : List (List Token))
    (context : Context) : Prop :=
  List.Forall₂ spelling.Frame frames context.scopes

variable {spelling : Respelling}

namespace Respelling.Frame

variable {names : List Token} {scope : LocalScope}

/-- A frame renames its own names as they are respelled. -/
theorem apply_frame (frame : spelling.Frame names scope) (mem : token ∈ names) :
    spelling.frame names token.lexeme =
      if spelling.target token then spelling.new else token.lexeme := by
  unfold Respelling.frame
  by_cases targeted : spelling.target token = true
  · have some_target : names.any spelling.target = true :=
      any_eq_true.mpr ⟨token, mem, targeted⟩
    rw [if_pos some_target, if_pos targeted, frame.target token mem targeted, spelling.exchange_old]
  · rw [if_neg targeted]
    split
    · next some_target =>
      rcases any_eq_true.mp some_target with ⟨other, others, other_target⟩
      refine spelling.exchange_of_ne ?_ (frame.fresh token mem)
      intro same
      have equal := frame.single token mem other others
        (same.trans (frame.target other others other_target).symm)
      exact targeted (equal ▸ other_target)
    · rfl

/-- A name that the scope does not have is not captured by the renaming. -/
theorem lookup_absent (frame : spelling.Frame names scope) (absent : scope.lookup name = none)
    (fresh : name ≠ spelling.new)
    (spelled : name' = name ∨ name = spelling.old ∧ name' = spelling.new) :
    (Context.renameScope (spelling.frame names) scope).lookup name' = none := by
  have back : spelling.frame names (spelling.frame names name') = name' := by
    unfold Respelling.frame
    split
    · exact Equiv.swap_apply_self _ _ name'
    · rfl
  rw [← back, Context.lookup_renameScope]
  -- The scope would have to bind the old name, or else the new one.
  have unbound : scope.lookup spelling.new = none := by
    rw [← Option.not_isSome_iff_eq_none]
    intro bound
    rcases frame.declared spelling.new bound with same | ⟨token, mem, same⟩
    · exact spelling.new_ne same
    · exact frame.fresh token mem same
  unfold Respelling.frame
  rcases spelled with rfl | ⟨rfl, rfl⟩
  · split
    · by_cases is_old : name' = spelling.old
      · rw [is_old, spelling.exchange_old]
        exact unbound
      · rw [spelling.exchange_of_ne is_old fresh]
        exact absent
    · exact absent
  · split
    · rw [spelling.exchange_new]
      exact absent
    · exact unbound

end Respelling.Frame

namespace Respelling

/--
A name that is renamed as the scope it is found in says is found in the same
scope afterwards.
-/
theorem Fits.findIdx? {scopes : List LocalScope}
    (fits : List.Forall₂ spelling.Frame frames scopes) {name name' : String}
    (fresh : name ≠ spelling.new)
    (spelled : name' = name ∨ name = spelling.old ∧ name' = spelling.new)
    (found : ∀ dist, scopes.findIdx? (fun scope => (scope.lookup name).isSome) = some dist →
      ∃ names, frames[dist]? = some names ∧ name' = spelling.frame names name) :
    (zipWith Context.renameScope (spelling.chain frames) scopes).findIdx?
        (fun scope => (scope.lookup name').isSome) =
      scopes.findIdx? (fun scope => (scope.lookup name).isSome) := by
  induction fits with
  | nil => rfl
  | @cons names scope frames scopes frame fits ih =>
    simp only [chain, map_cons, zipWith_cons_cons, findIdx?_cons] at found ⊢
    cases bound : scope.lookup name with
    | some readable =>
      rcases found 0 (by simp [bound]) with ⟨_, here, rfl⟩
      cases here
      simp [Context.lookup_renameScope, bound]
    | none =>
      have absent := frame.lookup_absent bound fresh spelled
      simp only [absent, Option.isSome_none, Bool.false_eq_true, if_false]
      congr 1
      refine ih ?_
      intro dist nearest
      exact found (dist + 1) (by simp [bound, nearest])

section

variable (fits : spelling.Fits frames ctx) (fresh : name ≠ spelling.new)
  (spelled : name' = name ∨ name = spelling.old ∧ name' = spelling.new)
  (found : ∀ dist, ctx.distance? name = some dist →
    ∃ names, frames[dist]? = some names ∧ name' = spelling.frame names name)

include fits fresh spelled found

/-- Renamed scopes give the same distance. -/
theorem Fits.distance? :
    (ctx.rename (spelling.chain frames)).distance? name' = ctx.distance? name :=
  Fits.findIdx? fits fresh spelled found

theorem Fits.awaits : (ctx.rename (spelling.chain frames)).awaits name' = ctx.awaits name := by
  rcases ctx with ⟨scopes, inFunction, inClass⟩
  cases fits with
  | nil => rfl
  | @cons names scope frames scopes frame fits =>
    simp only [Context.awaits, Context.rename, chain, map_cons, zipWith_cons_cons]
    cases bound : scope.lookup name with
    | some readable =>
      have nearest : Context.distance? ⟨scope :: scopes, inFunction, inClass⟩ name = some 0 := by
        simp [Context.distance?, findIdx?_cons, bound]
      rcases found 0 nearest with ⟨_, here, rfl⟩
      cases here
      rw [Context.lookup_renameScope, bound]
    | none => rw [frame.lookup_absent bound fresh spelled]

end

theorem Fits.get? (fits : spelling.Fits frames ctx) {index : Nat}
    {names : List Token} (here : frames[index]? = some names) :
    ∃ scope, spelling.Frame names scope := by
  rcases List.getElem?_eq_some_iff.mp here with ⟨inside, rfl⟩
  have bounded := fits.length_eq ▸ inside
  exact ⟨ctx.scopes[index], fits.get inside bounded⟩

/-- The scope at a distance is among the names that it declares. -/
theorem Fits.near {scopes : List LocalScope} (fits : List.Forall₂ spelling.Frame frames scopes)
    {dist : Nat} (nearest : scopes.findIdx? (fun scope => (scope.lookup name).isSome) = some dist) :
    ∃ names scope, frames[dist]? = some names ∧
      spelling.Frame names scope ∧ (scope.lookup name).isSome := by
  induction fits generalizing dist with
  | nil => cases nearest
  | @cons names scope frames scopes frame fits ih =>
    rw [findIdx?_cons] at nearest
    split at nearest
    · next bound =>
      cases nearest
      exact ⟨names, scope, rfl, frame, bound⟩
    · rcases Option.map_eq_some_iff.mp nearest with ⟨closer, inside, rfl⟩
      exact ih inside

end Respelling

/-! ## Occurrences -/

/--
Replacements of the tokens by which a program becomes the one before and the
one after the change.
-/
structure Respelling.Between (spelling : Respelling)
    (same : Token → Token → Prop) (change change' : Relabelling) : Prop where
  keeps : change.KeepsLexemes
  spells : ∀ token, (change' token).lexeme = spelling.spell token
  same : ∀ token, same (change token) (change' token)

section

variable {id : ExprId}

theorem NameUse.declaration_occurrence {distances : Distances} {decl : Token} :
    (occurrence distances frames id token).declaration = some decl ↔
      ∃ dist names, distances.find? id = some dist ∧ frames[dist]? = some names ∧
        names.find? (fun name => name.lexeme == token.lexeme) = some decl := by
  simp [occurrence, Option.bind_eq_some_iff]

theorem NameUse.Respelled.spell_plain (respelled : (plain token).Respelled spelling) :
    spelling.spell token = token.lexeme := by
  have unmarked : spelling.marked token = false := respelled.marked
  rw [Respelling.spell, unmarked]
  rfl

theorem NameUse.Respelled.fixed (respelled : (plain token).Respelled spelling)
    (between : spelling.Between same change change') :
    Token.Fixed same (change token) (change' token) where
  same := between.same token
  kind := (change'.kind token).trans (change.kind token).symm
  lexeme := by
    rw [between.spells, respelled.spell_plain, between.keeps]

/-- Changed tokens refer to one variable if its scope respells it as they are. -/
theorem Respelling.Between.refers (between : spelling.Between same change change')
    (places : ledger.Places ctx id token.lexeme)
    (found : ∀ {dist}, ctx.distance? token.lexeme = some dist → ∃ names,
      frames[dist]? = some names ∧ spelling.spell token = spelling.frame names token.lexeme)
    (free : ctx.distance? token.lexeme = none → spelling.spell token = token.lexeme) :
    Token.Refers same ledger.occurrences (spelling.chain frames) id id
      (change token) (change' token) := by
  refine ⟨between.same token, ctx.distance? token.lexeme, ?_, ?_⟩
  · rw [Renaming.map_shared (spelling.spare_chain frames)]
    exact places.occurrences
  cases nearest : ctx.distance? token.lexeme with
  | some dist =>
    rcases found nearest with ⟨names, here, spelled⟩
    refine ⟨spelling.frame names, ?_, spelling.spare_frame names, ?_⟩
    · rw [Respelling.chain, getElem?_map, here]
      rfl
    · rw [between.spells, between.keeps, spelled]
  | none =>
    show (change' token).lexeme = (change token).lexeme
    rw [between.spells, between.keeps, free nearest]

section

variable (respelled : (occurrence ledger.distances frames id token).Respelled spelling)
  (fits : spelling.Fits frames ctx)

include respelled fits

theorem NameUse.Respelled.spelled :
    spelling.spell token = token.lexeme ∨
      token.lexeme = spelling.old ∧ spelling.spell token = spelling.new := by
  cases marked : spelling.marked token with
  | false => exact .inl (by simp [Respelling.spell, marked])
  | true =>
    refine .inr ⟨?_, by simp [Respelling.spell, marked]⟩
    have targeted := respelled.marked.symm.trans marked
    rcases (Option.any_eq_true _ _).mp targeted with ⟨decl, declared, is_target⟩
    rcases declaration_occurrence.mp declared with ⟨dist, names, _, here, found⟩
    rcases fits.get? here with ⟨scope, frame⟩
    have mem := mem_of_find?_eq_some found
    have lexeme := find?_some found
    simp only [beq_iff_eq] at lexeme
    exact lexeme.symm.trans (frame.target decl mem is_target)

theorem NameUse.Respelled.found (recorded : ledger.distances.find? id = ctx.distance? token.lexeme)
    {dist : Nat} (nearest : ctx.distance? token.lexeme = some dist) :
    ∃ names, frames[dist]? = some names ∧
      spelling.spell token = spelling.frame names token.lexeme := by
  rcases Respelling.Fits.near fits nearest with ⟨names, scope, here, frame, bound⟩
  refine ⟨names, here, ?_⟩
  have marked := respelled.marked
  have decl : (occurrence ledger.distances frames id token).declaration =
        names.find? (fun name => name.lexeme == token.lexeme) := by
    simp [occurrence, recorded, nearest, here]
  rw [decl] at marked
  cases found : names.find? (fun name => name.lexeme == token.lexeme) with
  | none =>
    rw [found] at marked
    have unmarked : spelling.spell token = token.lexeme := by
      rw [Respelling.spell, show spelling.marked token = false from marked]
      rfl
    rcases frame.declared token.lexeme bound with
      receiver | ⟨declared, mem, same⟩
    · rw [unmarked, receiver, (spelling.frame names).receiver]
    · have missing := find?_eq_none.mp found declared mem
      rw [same, beq_self_eq_true] at missing
      exact absurd rfl missing
  | some declared =>
    rw [found] at marked
    have mem := mem_of_find?_eq_some found
    have lexeme := find?_some found
    simp only [beq_iff_eq] at lexeme
    rw [Respelling.spell, show spelling.marked token =
      spelling.target declared from marked, ← lexeme, frame.apply_frame mem]

/-- A respelled occurrence refers to the same variable. -/
theorem NameUse.Respelled.refers (between : spelling.Between same change change')
    (places : ledger.Places ctx id token.lexeme) :
    Token.Refers same ledger.occurrences (spelling.chain frames) id id
      (change token) (change' token) := by
  refine between.refers places (respelled.found fits places.2) fun nearest => ?_
  have undeclared : (occurrence ledger.distances frames id token).declaration = none := by
    simp [occurrence, places.2, nearest]
  have unmarked := respelled.marked
  rw [undeclared] at unmarked
  rw [Respelling.spell, show spelling.marked token = false from unmarked]
  rfl

end

/-- The receiver is never renamed. -/
theorem NameUse.Respelled.refers_receiver (respelled : (plain token).Respelled spelling)
    (fits : spelling.Fits frames ctx) (between : spelling.Between same change change')
    (places : ledger.Places ctx id token.lexeme) (receiver : token.lexeme = "this") :
    Token.Refers same ledger.occurrences (spelling.chain frames) id id
      (change token) (change' token) := by
  refine between.refers places (fun nearest => ?_) fun _ => respelled.spell_plain
  rcases Respelling.Fits.near fits nearest with ⟨names, scope, here, frame, bound⟩
  refine ⟨names, here, ?_⟩
  rw [respelled.spell_plain, receiver, (spelling.frame names).receiver]

end

/-! ## Scope analysis of expressions -/

namespace Scoping.Findings

/-- No breach of the rules, and the same distances. -/
def Kept (findings later : Findings) : Prop :=
  later = ⟨findings.distances, []⟩

theorem kept_none : Kept none none := rfl

theorem errors_append {others : Findings} :
    (findings ++ others).errors = [] ↔ findings.errors = [] ∧ others.errors = [] :=
  append_eq_nil_iff

theorem Kept.append {later others further : Findings} (kept : Kept findings later)
    (rest : Kept others further) : Kept (findings ++ others) (later ++ further) := by
  rw [kept, rest]
  rfl

theorem kept_errorIf {cond cond' : Bool} {fault fault' : ScopingFault} {token' : Token}
    (same : cond' = cond) (clean : (errorIf cond fault token).errors = []) :
    Kept (errorIf cond fault token) (errorIf cond' fault' token') := by
  subst same
  cases cond' with
  | false => rfl
  | true => cases clean

theorem kept_occurrence {ctx' : Context} (same : ctx'.distance? name' = ctx.distance? name)
    (id : ExprId) : Kept (occurrence ctx id name) (occurrence ctx' id name') := by
  unfold occurrence
  rw [same]
  split <;> rfl

end Scoping.Findings

section

section

variable {id : ExprId}
  (respelled : (occurrence ledger.distances frames id token).Respelled spelling)
  (fits : spelling.Fits frames ctx)
  (recorded : ledger.distances.find? id = ctx.distance? token.lexeme)

include respelled fits recorded

/-- A respelled occurrence has the same distance. -/
theorem NameUse.Respelled.distance? :
    (ctx.rename (spelling.chain frames)).distance? (spelling.spell token) =
      ctx.distance? token.lexeme :=
  fits.distance? respelled.fresh (respelled.spelled fits)
    (fun _ nearest => respelled.found fits recorded nearest)

theorem NameUse.Respelled.awaits :
    (ctx.rename (spelling.chain frames)).awaits (spelling.spell token) = ctx.awaits token.lexeme :=
  fits.awaits respelled.fresh (respelled.spelled fits)
    (fun _ nearest => respelled.found fits recorded nearest)

end

/-- The receiver is found where it was. -/
theorem Respelling.Fits.distance?_receiver (fits : spelling.Fits frames ctx) :
    (ctx.rename (spelling.chain frames)).distance? "this" = ctx.distance? "this" := by
  refine fits.distance? spelling.new_ne.symm (.inl rfl) ?_
  intro dist nearest
  rcases Respelling.Fits.near fits nearest with ⟨names, _, here, _, _⟩
  exact ⟨names, here, (spelling.frame names).receiver.symm⟩

end

/-! ## Expressions -/

open Scoping

section

variable (between : spelling.Between same change change')
  (fits : spelling.Fits frames ctx)

include between fits

set_option linter.unusedSectionVars false in
mutual

/-- A respelled expression is alike, and its analysis is kept. -/
theorem Expr.respelled :
    ∀ value : Expr, value.Resolved ledger ctx →
      (∀ use ∈ value.uses ledger.distances frames, use.Respelled spelling) →
      (ofExpr ctx value).errors = [] →
        (value.relabel change 0).Alike same ledger.occurrences
            (spelling.chain frames) (value.relabel change' 0) ∧
          (ofExpr ctx value).Kept
            (ofExpr (ctx.rename (spelling.chain frames)) (value.relabel change' 0))
  | .literal value, _, _, _ => ⟨.literal value, Findings.kept_none⟩
  | .unary op operand, resolved, uses, clean => by
    rw [Expr.uses, forall_mem_cons] at uses
    have inner := Expr.respelled operand resolved uses.2 clean
    exact ⟨.unary (uses.1.fixed between) rfl inner.1, inner.2⟩
  | .binary left op right, resolved, uses, clean
  | .logical left op right, resolved, uses, clean
  | .set left op right, resolved, uses, clean => by
    rw [Expr.uses, forall_mem_append, forall_mem_cons] at uses
    rw [ofExpr, Findings.errors_append] at clean
    have first := Expr.respelled left resolved.1 uses.1 clean.1
    have second := Expr.respelled right resolved.2 uses.2.2 clean.2
    refine ⟨?_, first.2.append second.2⟩
    constructor
    exacts [first.1, uses.2.1.fixed between, second.1]
  | .grouping inner, resolved, uses, clean =>
    have kept := Expr.respelled inner resolved uses clean
    ⟨.grouping kept.1, kept.2⟩
  | .name id token, resolved, uses, clean => by
    rw [Expr.uses, forall_mem_singleton] at uses
    rw [ofExpr, Findings.errors_append] at clean
    refine ⟨.name (uses.refers fits between resolved.1), ?_⟩
    rw [Expr.relabel, ofExpr, ofExpr, between.spells]
    exact (Findings.kept_errorIf (uses.awaits fits resolved.1.2) clean.1).append
      (Findings.kept_occurrence (uses.distance? fits resolved.1.2) id)
  | .assign id target value, resolved, uses, clean => by
    rw [Expr.uses, forall_mem_cons] at uses
    rw [ofExpr, Findings.errors_append] at clean
    have inner := Expr.respelled value resolved.1 uses.2 clean.1
    refine ⟨.assign inner.1 (uses.1.refers fits between resolved.2), ?_⟩
    rw [Expr.relabel, ofExpr, ofExpr, between.spells]
    exact inner.2.append
      (Findings.kept_occurrence (uses.1.distance? fits resolved.2.2) id)
  | .call callee closing args, resolved, uses, clean => by
    rw [Expr.uses, forall_mem_append, forall_mem_append,
      forall_mem_singleton] at uses
    rw [ofExpr, Findings.errors_append] at clean
    have called := Expr.respelled callee resolved.1 uses.1.1 clean.1
    have passed := Expr.allRespelled args resolved.2 uses.1.2 clean.2
    exact ⟨.call called.1 (uses.2.fixed between) passed.1, called.2.append passed.2⟩
  | .get object property, resolved, uses, clean => by
    rw [Expr.uses, forall_mem_append, forall_mem_singleton] at uses
    have inner := Expr.respelled object resolved uses.1 clean
    exact ⟨.get inner.1 (uses.2.fixed between), inner.2⟩
  | .receiver id keyword, resolved, uses, clean => by
    rw [Expr.uses, forall_mem_singleton] at uses
    refine ⟨.receiver (uses.refers_receiver fits between resolved.1 resolved.2.2), ?_⟩
    have lexeme : (change' keyword).lexeme = "this" := by
      rw [between.spells, uses.spell_plain, resolved.2.2]
    rw [ofExpr] at clean
    rw [Expr.relabel, ofExpr, ofExpr]
    split at clean
    · next inClass =>
      have still : (ctx.rename (spelling.chain frames)).inClass = true :=
        inClass
      rw [if_pos inClass, if_pos still, lexeme, resolved.2.2]
      exact Findings.kept_occurrence fits.distance?_receiver id
    · cases clean

theorem Expr.allRespelled :
    ∀ values : List Expr, Expr.AllResolved ledger ctx values →
      (∀ use ∈ Expr.usesAll ledger.distances frames values, use.Respelled spelling) →
      (ofExprs ctx values).errors = [] →
        Expr.AllAlike same ledger.occurrences (spelling.chain frames)
            (Expr.relabelAll change 0 values) (Expr.relabelAll change' 0 values) ∧
          (ofExprs ctx values).Kept
            (ofExprs (ctx.rename (spelling.chain frames)) (Expr.relabelAll change' 0 values))
  | [], _, _, _ => ⟨.nil, Findings.kept_none⟩
  | value :: values, resolved, uses, clean => by
    rw [Expr.usesAll, forall_mem_append] at uses
    rw [ofExprs, Findings.errors_append] at clean
    have head := Expr.respelled value resolved.1 uses.1 clean.1
    have tail := Expr.allRespelled values resolved.2 uses.2 clean.2
    exact ⟨.cons head.1 tail.1, head.2.append tail.2⟩

end

end

end Treewalk
