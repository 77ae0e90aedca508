import Treewalk.Proofs.Respelling

/-!
# Statements with a new name for a local variable

The names that an accepted block or function declares in its scope are all
different, so the scope is renamed by an exchange of two names or not at all.
Statements are followed in the context they are analysed in.
-/

namespace Treewalk

open Scoping Respelling List

/-! ## The names of a scope -/

/-- The names are all different, and a scope has none of them yet. -/
def Scoping.Undeclared (scope : LocalScope) (names : List Token) : Prop :=
  (names.map Token.lexeme).Nodup ∧ ∀ name ∈ names, scope.lookup name.lexeme = none

variable {frames : List (List Token)} {spelling : Respelling} {outer : List LocalScope}
  {ctx : Context} {name : Token} {scope : LocalScope} {ledger : Ledger} {change : Relabelling}

namespace Scoping

theorem Undeclared.cons {scope : LocalScope} {name : Token}
    {names : List Token} (absent : scope.lookup name.lexeme = none)
    (others : Undeclared ((name.lexeme, true) :: scope) names) :
    Undeclared scope (name :: names) := by
  have separate : ∀ other ∈ names, other.lexeme ≠ name.lexeme ∧
      scope.lookup other.lexeme = none := by
    intro other mem
    have missing := others.2 other mem
    rw [lookup_cons] at missing
    split at missing
    · cases missing
    · next different => exact ⟨by simpa using different, missing⟩
  constructor
  · rw [map_cons, nodup_cons]
    refine ⟨?_, others.1⟩
    intro mem
    rcases mem_map.mp mem with ⟨other, among, same⟩
    exact (separate other among).1 same
  · rw [forall_mem_cons]
    exact ⟨absent, fun other mem => (separate other mem).2⟩

theorem Findings.errors_errorIf {cond : Bool} {fault : ScopingFault}
    {token : Token} (clean : (errorIf cond fault token).errors = []) : cond = false := by
  cases cond with
  | false => rfl
  | true => cases clean

section

variable (inside : ctx.scopes = scope :: outer)

include inside

theorem Context.absent_of_clean (clean : (Findings.redeclaration ctx name).errors = []) :
    scope.lookup name.lexeme = none := by
  have undeclared := Findings.errors_errorIf clean
  rw [declaresInnermost, inside] at undeclared
  simpa using undeclared

theorem Context.scopes_define (name : Token) :
    (ctx.define name).scopes = ((name.lexeme, true) :: scope) :: outer := by
  simp [define, mark, inside]

end

/-- Accepted parameters are all different. -/
theorem undeclared_parameters {names : List Token} :
    ∀ {ctx : Context} {scope : LocalScope} {outer : List LocalScope}
      {params : List Token}, ctx.scopes = scope :: outer →
      (ofParameters ctx params).errors = [] →
      (∀ declared, (params.foldl Context.define ctx).scopes =
        declared :: outer → Undeclared declared names) → Undeclared scope (params ++ names)
  | _, scope, _, [], inside, _, rest => rest scope inside
  | ctx, _, _, parameter :: params, inside, clean, rest => by
    rw [ofParameters, Findings.errors_append] at clean
    exact .cons (Context.absent_of_clean inside clean.1)
      (undeclared_parameters (Context.scopes_define inside parameter) clean.2 rest)

end Scoping

namespace Stmt

/-- A resolved statement declares its names and nothing else. -/
theorem after_of_resolved (stmt : Stmt) (resolved : stmt.Resolved ledger ctx) : ctx.after stmt =
      stmt.declared.foldl Context.define ctx := by
  cases stmt with
  | ifElse cond yes no =>
    cases no with
    | none => exact resolved.2.2
    | some no =>
      have first := resolved.2.2.1
      have second := resolved.2.2.2.2
      rw [Context.after, first, second]
      rfl
  | whileLoop cond body => exact resolved.2.2
  | _ => rfl

/-- A statement declares one name at most. -/
theorem declared_cases (stmt : Stmt) : stmt.declared = [] ∨ ∃ name, stmt.declared = [name] := by
  cases stmt with
  | varDecl name initial | classDecl name superclass methods => exact .inr ⟨name, rfl⟩
  | funDecl decl => exact .inr ⟨decl.name, rfl⟩
  | _ => exact .inl rfl

/-- What an accepted statement declares was not declared before. -/
theorem redeclares_nothing (stmt : Stmt) (clean : (ofStmt ctx stmt).errors = []) :
    ∀ name ∈ stmt.declared, (Findings.redeclaration ctx name).errors = [] := by
  cases stmt with
  | varDecl name initial | funDecl decl =>
    rw [ofStmt, Findings.errors_append] at clean
    exact forall_mem_singleton.mpr clean.1
  | classDecl name superclass methods =>
    simp only [ofStmt, Findings.errors_append] at clean
    exact forall_mem_singleton.mpr clean.1.1.1
  | _ => nofun

/-- The names that accepted statements declare are all different. -/
theorem undeclared_declaredAll (stmts : List Stmt) (inside : ctx.scopes = scope :: outer)
    (resolved : AllResolved ledger ctx stmts) (clean : (ofStmts ctx stmts).errors = []) :
    Undeclared scope (declaredAll stmts) := by
  induction stmts generalizing ctx scope with
  | nil => exact ⟨nodup_nil, nofun⟩
  | cons stmt stmts ih =>
    rw [ofStmts, Findings.errors_append] at clean
    have fresh := redeclares_nothing stmt clean.1
    have after := after_of_resolved stmt resolved.1
    rw [declaredAll, flatMap_cons]
    rcases stmt.declared_cases with undeclared | ⟨name, one⟩
    · rw [undeclared] at after ⊢
      exact ih (by rw [after, foldl_nil, inside]) resolved.2 clean.2
    · rw [one] at after fresh ⊢
      refine .cons (Context.absent_of_clean inside (fresh name (mem_singleton_self name)))
        (ih ?_ resolved.2 clean.2)
      rw [after]
      exact Context.scopes_define inside name

theorem declared_of_after (stmt : Stmt) (inside : ctx.scopes = scope :: outer)
    (resolved : stmt.Resolved ledger ctx) (unchanged : ctx.after stmt = ctx) :
    stmt.declared = [] := by
  rcases stmt.declared_cases with undeclared | ⟨name, one⟩
  · exact undeclared
  · rw [after_of_resolved stmt resolved, one] at unchanged
    have scopes := congrArg Context.scopes unchanged
    rw [foldl_cons, foldl_nil, Context.scopes_define inside, inside] at scopes
    have lengths := congrArg length (cons.inj scopes).1
    rw [length_cons] at lengths
    omega

/-- Declared names are among the uses. -/
theorem declared_subset_uses (distances : Distances) (frames : List (List Token)) (stmt : Stmt) :
    stmt.declared ⊆ (stmt.uses distances frames).map NameUse.token := by
  cases stmt with
  | varDecl name initial => simp [declared, uses, NameUse.declared]
  | funDecl decl =>
    cases decl
    simp [declared, uses, FunctionDecl.uses, FunctionDecl.name, NameUse.plain]
  | classDecl name superclass methods => simp [declared, uses, NameUse.plain]
  | _ => simp [declared]

theorem declaredAll_subset_uses (distances : Distances) (frames : List (List Token))
    (stmts : List Stmt) :
    declaredAll stmts ⊆ (usesAll distances frames stmts).map NameUse.token := by
  induction stmts with
  | nil => simp [declaredAll]
  | cons stmt stmts ih =>
    rw [declaredAll, flatMap_cons, usesAll, map_append]
    exact append_subset.mpr
      ⟨subset_append_of_subset_left _ (stmt.declared_subset_uses distances frames),
        subset_append_of_subset_right _ ih⟩

end Stmt

/-! ## Scopes that are entered -/

section

variable {names : List Token}

/-- An empty scope fits names that are all different. -/
theorem Scoping.Undeclared.frame (undeclared : Undeclared [] names)
    {uses : List NameUse} (held : names ⊆ uses.map NameUse.token)
    (respelled : ∀ use ∈ uses, use.Respelled spelling) : spelling.Frame names [] where
  declared := nofun
  single := fun _ mem _ others same => inj_on_of_nodup_map undeclared.1 mem others same
  target := by
    intro token mem targeted
    rcases mem_map.mp (held mem) with ⟨use, among, rfl⟩
    exact ((respelled use among).target targeted).2
  fresh := by
    intro token mem
    rcases mem_map.mp (held mem) with ⟨use, among, rfl⟩
    exact (respelled use among).fresh

theorem Respelling.frame_receiver : spelling.Frame [] [("this", true)] where
  declared := by
    intro name found
    rw [lookup_cons] at found
    split at found
    · next same => exact .inl (beq_iff_eq.mp same)
    · cases found
  single := nofun
  target := nofun
  fresh := nofun

/-- The names of the innermost local scope include some names. -/
def Respelling.Inside (frames : List (List Token)) (names : List Token) :
    Prop :=
  ∀ innermost ∈ frames.head?, names ⊆ innermost

namespace Respelling

theorem Inside.mono {others : List Token} (inside : Inside frames names)
    (fewer : others ⊆ names) : Inside frames others :=
  fun innermost head => List.Subset.trans fewer (inside innermost head)

section

variable (fits : spelling.Fits frames ctx)

include fits

theorem Fits.mark {name : Token} (inside : Inside frames [name]) (readable : Bool) :
    spelling.Fits frames (ctx.mark name.lexeme readable) := by
  rcases ctx with ⟨scopes, inFunction, inClass⟩
  cases fits with
  | nil => exact .nil
  | @cons names scope frames scopes frame fits =>
    have mem : name ∈ names :=
      inside names rfl (mem_singleton_self name)
    refine .cons ⟨?_, frame.single, frame.target, frame.fresh⟩ fits
    intro other found
    rw [lookup_cons] at found
    split at found
    · next same => exact .inr ⟨name, mem, (beq_iff_eq.mp same).symm⟩
    · exact frame.declared other found

theorem Fits.foldl_define {params : List Token} (inside : Inside frames params) :
    spelling.Fits frames (params.foldl Context.define ctx) := by
  induction params generalizing ctx with
  | nil => exact fits
  | cons parameter params ih =>
    exact ih (fits.mark (inside.mono (by simp)) true) (inside.mono (subset_cons_self _ _))

/-- A branch or a loop body stands in the scope of its statement. -/
theorem Fits.inside_of_after (stmt : Stmt) (resolved : stmt.Resolved ledger ctx)
    (unchanged : ctx.after stmt = ctx) : Inside frames stmt.declared := by
  cases here : ctx.scopes with
  | nil =>
    rw [Fits, here] at fits
    cases fits
    exact nofun
  | cons scope outer =>
    rw [stmt.declared_of_after here resolved unchanged]
    exact fun _ _ => nil_subset _

end

end Respelling

end

/-! ## Declared names -/

section

/-- A variable is respelled as its scope says. -/
theorem NameUse.Respelled.spell_declared
    (respelled : (NameUse.declared frames name).Respelled spelling)
    (fits : spelling.Fits frames ctx) (inside : Respelling.Inside frames [name]) :
    spelling.spell name = Renaming.innermost (spelling.chain frames) name.lexeme := by
  rcases ctx with ⟨scopes, inFunction, inClass⟩
  have marked := respelled.marked
  cases fits with
  | nil =>
    rw [spell, show spelling.marked name = false from marked]
    rfl
  | @cons names scope frames scopes frame fits =>
    have mem := inside names rfl (mem_singleton_self name)
    have same : spelling.marked name = spelling.target name := marked
    rw [spell, same]
    exact (frame.apply_frame mem).symm

/-- A function or class keeps its name. -/
theorem NameUse.Respelled.innermost_plain (respelled : (NameUse.plain name).Respelled spelling)
    (fits : spelling.Fits frames ctx) (inside : Respelling.Inside frames [name]) :
    Renaming.innermost (spelling.chain frames) name.lexeme = name.lexeme := by
  rcases ctx with ⟨scopes, inFunction, inClass⟩
  cases fits with
  | nil => rfl
  | @cons names scope frames scopes frame fits =>
    have mem := inside names rfl (mem_singleton_self name)
    refine (frame.apply_frame mem).trans (if_neg ?_)
    intro targeted
    cases (respelled.target targeted).1

end

section

variable {chain : List Renaming}

/-- The name is renamed as the innermost local scope. -/
def Scoping.Context.Follows (chain : List Renaming) (change : Relabelling) (name : Token) : Prop :=
  (change name).lexeme = Renaming.innermost chain name.lexeme

namespace Scoping.Context.Follows

theorem define (follows : Follows chain change name) :
    (ctx.rename chain).define (change name) = (ctx.define name).rename chain := by
  rw [Context.define, Context.define, rename_mark, follows]

theorem declare (follows : Follows chain change name) :
    (ctx.rename chain).declare (change name) = (ctx.declare name).rename chain := by
  rw [Context.declare, Context.declare, rename_mark, follows]

theorem foldl_define (ctx : Context) {names : List Token}
    (follows : ∀ name ∈ names, Follows chain change name) :
    (names.map change).foldl Context.define (ctx.rename chain) =
      (names.foldl Context.define ctx).rename chain := by
  induction names generalizing ctx with
  | nil => rfl
  | cons name names ih =>
    rw [forall_mem_cons] at follows
    rw [map_cons, foldl_cons, foldl_cons, define follows.1, ih _ follows.2]

theorem declaresInnermost (follows : Follows chain change name)
    (nested : chain.length = ctx.scopes.length) :
    (ctx.rename chain).declaresInnermost (change name).lexeme =
      ctx.declaresInnermost name.lexeme := by
  rcases ctx with ⟨scopes, inFunction, inClass⟩
  cases scopes with
  | nil => cases chain <;> rfl
  | cons scope outer =>
    cases chain with
    | nil => cases nested
    | cons rename chain =>
      have renamed : (change name).lexeme = rename name.lexeme := follows
      rw [renamed]
      simp [Context.declaresInnermost, Context.rename, lookup_renameScope]

end Scoping.Context.Follows

open Scoping.Context

/-- A renamed declaration is no redeclaration either. -/
theorem Scoping.kept_redeclaration (follows : Follows chain change name)
    (nested : chain.length = ctx.scopes.length)
    (clean : (Findings.redeclaration ctx name).errors = []) :
    (Findings.redeclaration ctx name).Kept (.redeclaration (ctx.rename chain) (change name)) :=
  Findings.kept_errorIf (follows.declaresInnermost nested) clean

theorem Scoping.kept_ofParameters {params : List Token}
    (follows : ∀ name ∈ params, Follows chain change name)
    (nested : chain.length = ctx.scopes.length)
    (clean : (ofParameters ctx params).errors = []) :
    (ofParameters ctx params).Kept (ofParameters (ctx.rename chain) (params.map change)) := by
  induction params generalizing ctx with
  | nil => exact Findings.kept_none
  | cons name names ih =>
    rw [forall_mem_cons] at follows
    rw [ofParameters, Findings.errors_append] at clean
    rw [map_cons, ofParameters, ofParameters, follows.1.define]
    refine (kept_redeclaration follows.1 nested clean.1).append (ih follows.2 ?_ clean.2)
    rw [nested, Context.define, length_scopes_mark]

end

/-! ## Statements -/

theorem Scoping.ofParameters_inFunction (ctx : Context) (inside : Bool) (params : List Token) :
    ofParameters { ctx with inFunction := inside } params = ofParameters ctx params := by
  induction params generalizing ctx with
  | nil => rfl
  | cons parameter params ih =>
    have same : Context.define { ctx with inFunction := inside } parameter =
        { ctx.define parameter with inFunction := inside } := by
      rcases ctx with ⟨scopes, inFunction, inClass⟩
      cases scopes <;> rfl
    rw [ofParameters, ofParameters, same, ih]
    rfl

section

variable {same : Token → Token → Prop} {change' : Relabelling}
  (between : spelling.Between same change change')

include between

/-- A class that does not extend itself does not do so afterwards. -/
theorem Scoping.kept_inheritsItself (fits : spelling.Fits frames ctx)
    (declared : (NameUse.plain name).Respelled spelling) (superclass : Option Expr)
    (uses : ∀ use ∈ Expr.usesOption ledger.distances frames superclass, use.Respelled spelling)
    (clean : (inheritsItself name superclass).errors = []) :
    (inheritsItself name superclass).Kept
      (inheritsItself (change' name) (superclass.map (Expr.relabel change' 0))) := by
  cases superclass with
  | none => rfl
  | some value =>
    cases value with
    | name id token =>
      have different := Findings.errors_errorIf clean
      refine Findings.kept_errorIf ?_ clean
      have respelled := uses _ (mem_singleton_self _)
      rw [different, between.spells, between.spells, declared.spell_plain, beq_eq_false_iff_ne]
      rcases respelled.spelled fits with unchanged | ⟨_, changed⟩
      · rw [unchanged]
        exact beq_eq_false_iff_ne.mp different
      · rw [changed]
        exact declared.fresh.symm
    | _ => rfl

theorem Respelling.Between.declares
    (follows : Context.Follows (spelling.chain frames) change' name) :
    Renaming.Declares (spelling.chain frames) (change name).lexeme (change' name).lexeme := by
  constructor
  · cases frames with
    | nil => rfl
    | cons names frames => exact spelling.spare_frame names
  · rw [between.keeps]
    exact follows

set_option linter.unusedSectionVars false in
mutual

theorem FunctionDecl.respelled
    {frames : List (List Token)} {ctx : Context} (fits : spelling.Fits frames ctx) :
    ∀ decl : FunctionDecl, decl.Resolved ledger ctx →
      (∀ use ∈ decl.uses ledger.distances frames, use.Respelled spelling) →
      (ofFunction ctx decl).errors = [] →
        FunctionDecl.Alike same ledger.occurrences (spelling.chain frames)
            (decl.relabel change 0) (decl.relabel change' 0) ∧
          (ofFunction ctx decl).Kept
            (ofFunction (ctx.rename (spelling.chain frames)) (decl.relabel change' 0))
  | .mk name params body, resolved, uses, clean => by
    rw [FunctionDecl.uses, forall_mem_cons] at uses
    rw [ofFunction, Findings.errors_append, ← ofParameters_inFunction _ true] at clean
    have undeclared : Undeclared [] (params ++ Stmt.declaredAll body) :=
      undeclared_parameters rfl clean.1 fun declared here =>
        Stmt.undeclared_declaredAll body here resolved clean.2
    have frame : spelling.Frame (params ++ Stmt.declaredAll body) [] :=
      undeclared.frame
        (by
          rw [map_append, map_map,
            show NameUse.token ∘ NameUse.declared _ = id from rfl, map_id]
          exact append_subset.mpr ⟨subset_append_left _ _,
            subset_append_of_subset_right _ (Stmt.declaredAll_subset_uses _ _ body)⟩)
        uses.2
    rw [forall_mem_append] at uses
    -- Parameters are declared in a scope that the names of the body share.
    have entered : spelling.Fits ((params ++ Stmt.declaredAll body) :: frames)
        { ctx.enter [] with inFunction := true } := .cons frame fits
    have inside : Respelling.Inside ((params ++ Stmt.declaredAll body) :: frames)
        (params ++ Stmt.declaredAll body) := by
      intro innermost head
      cases head
      exact List.Subset.refl _
    have listed := inside.mono (subset_append_left params _)
    have follows : ∀ parameter ∈ params, Context.Follows
        (spelling.chain ((params ++ Stmt.declaredAll body) :: frames))
        change' parameter := by
      intro parameter mem
      rw [Context.Follows, between.spells]
      exact (uses.2.1 _ (mem_map_of_mem mem)).spell_declared entered
        (listed.mono (cons_subset.mpr ⟨mem, nil_subset _⟩))
    have body_respelled := Stmt.allRespelled (entered.foldl_define listed) body
      (inside.mono (subset_append_right params _)) resolved uses.2.2 clean.2
    constructor
    · refine .mk (spelling.frame (params ++ Stmt.declaredAll body)) (spelling.spare_frame _)
        ?_ ?_ body_respelled.1
      · exact (uses.1.fixed between).lexeme
      · rw [forall₂_map_left_iff, forall₂_map_right_iff, forall₂_same]
        intro parameter mem
        rw [between.keeps]
        exact follows parameter mem
    · have parameters_kept := kept_ofParameters follows
        (by rw [chain, length_map, entered.length_eq])
        clean.1
      have renamed : (ctx.rename (spelling.chain frames)).inBody (params.map change') =
            (ctx.inBody params).rename (spelling.chain
              ((params ++ Stmt.declaredAll body) :: frames)) :=
        Context.Follows.foldl_define { ctx.enter [] with inFunction := true } follows
      rw [FunctionDecl.relabel, ofFunction, ofFunction, renamed,
        ← ofParameters_inFunction (ctx.enter []) true, ← ofParameters_inFunction
          ((ctx.rename (spelling.chain frames)).enter []) true]
      exact parameters_kept.append body_respelled.2

theorem FunctionDecl.allRespelled
    {frames : List (List Token)} {ctx : Context} (fits : spelling.Fits frames ctx) :
    ∀ decls : List FunctionDecl, FunctionDecl.AllResolved ledger ctx decls →
      (∀ use ∈ FunctionDecl.usesAll ledger.distances frames decls, use.Respelled spelling) →
      (ofMethods ctx decls).errors = [] →
        FunctionDecl.AllAlike same ledger.occurrences (spelling.chain frames)
            (FunctionDecl.relabelAll change 0 decls)
            (FunctionDecl.relabelAll change' 0 decls) ∧ (ofMethods ctx decls).Kept
            (ofMethods (ctx.rename (spelling.chain frames))
              (FunctionDecl.relabelAll change' 0 decls))
  | [], _, _, _ => ⟨.nil, Findings.kept_none⟩
  | decl :: decls, resolved, uses, clean => by
    rw [FunctionDecl.usesAll, forall_mem_append] at uses
    rw [ofMethods, Findings.errors_append] at clean
    have head := FunctionDecl.respelled fits decl resolved.1 uses.1 clean.1
    have tail := FunctionDecl.allRespelled fits decls resolved.2 uses.2 clean.2
    exact ⟨.cons head.1 tail.1, head.2.append tail.2⟩

/-- A respelled statement is accepted, and alike. -/
theorem Stmt.respelled
    {frames : List (List Token)} {ctx : Context}
    (fits : spelling.Fits frames ctx) : ∀ stmt : Stmt,
      Respelling.Inside frames stmt.declared → stmt.Resolved ledger ctx →
      (∀ use ∈ stmt.uses ledger.distances frames, use.Respelled spelling) →
      (ofStmt ctx stmt).errors = [] → Stmt.Alike same ledger.occurrences (spelling.chain frames)
            (stmt.relabel change 0) (stmt.relabel change' 0) ∧
          (ofStmt ctx stmt).Kept
            (ofStmt (ctx.rename (spelling.chain frames)) (stmt.relabel change' 0)) ∧
          (ctx.rename (spelling.chain frames)).after (stmt.relabel change' 0) =
            (ctx.after stmt).rename (spelling.chain frames)
  | .expression value, _, resolved, uses, clean =>
    have inner := value.respelled between fits resolved uses clean
    ⟨.expression inner.1, inner.2, rfl⟩
  | .print value, _, resolved, uses, clean =>
    have inner := value.respelled between fits resolved uses clean
    ⟨.print inner.1, inner.2, rfl⟩
  | .varDecl name initial, inside, resolved, uses, clean => by
    rw [Stmt.uses, forall_mem_cons] at uses
    rw [ofStmt, Findings.errors_append] at clean
    have follows : Context.Follows (spelling.chain frames) change' name := by
      rw [Context.Follows, between.spells]
      exact uses.1.spell_declared fits inside
    have declared : spelling.Fits frames (ctx.declare name) :=
      fits.mark inside false
    have declares := between.declares follows
    have outside := kept_redeclaration follows
      (by rw [chain, length_map, fits.length_eq]) clean.1
    cases initial with
    | none => exact ⟨.varPlain declares, outside.append Findings.kept_none, follows.define⟩
    | some value =>
      have inner := value.respelled between declared resolved uses.2 clean.2
      rw [← follows.declare] at inner
      exact ⟨.varInitial declares inner.1, outside.append inner.2, follows.define⟩
  | .block body, _, resolved, uses, clean => by
    have frame : spelling.Frame (Stmt.declaredAll body) [] :=
      (Stmt.undeclared_declaredAll body rfl resolved clean).frame
        (Stmt.declaredAll_subset_uses _ _ body) uses
    have entered : spelling.Fits (Stmt.declaredAll body :: frames)
        (ctx.enter []) := .cons frame fits
    have inside : Respelling.Inside (Stmt.declaredAll body :: frames)
        (Stmt.declaredAll body) := by
      intro innermost head
      cases head
      exact List.Subset.refl _
    have inner := Stmt.allRespelled entered body inside resolved uses clean
    exact ⟨.block (spelling.frame (Stmt.declaredAll body)) (spelling.spare_frame _) inner.1,
      inner.2, rfl⟩
  | .ifElse cond yes none, _, resolved, uses, clean => by
    rw [Stmt.uses, forall_mem_append] at uses
    rw [ofStmt, Findings.errors_append] at clean
    have chosen := Stmt.respelled fits yes
      (fits.inside_of_after yes resolved.2.1 resolved.2.2) resolved.2.1 uses.2 clean.2
    have tested := cond.respelled between fits resolved.1 uses.1 clean.1
    exact ⟨.ifThen tested.1 chosen.1, tested.2.append chosen.2.1, chosen.2.2⟩
  | .ifElse cond yes (some no), _, resolved, uses, clean => by
    rw [Stmt.uses, forall_mem_append, forall_mem_append] at uses
    have unchanged := resolved.2.2.1
    rw [ofStmt, Findings.errors_append, Findings.errors_append, unchanged] at clean
    have chosen := Stmt.respelled fits yes
      (fits.inside_of_after yes resolved.2.1 unchanged) resolved.2.1 uses.1.2 clean.1.2
    have otherwise := Stmt.respelled fits no
      (fits.inside_of_after no resolved.2.2.2.1 resolved.2.2.2.2) resolved.2.2.2.1 uses.2 clean.2
    have after := chosen.2.2.trans (by rw [unchanged])
    have tested := cond.respelled between fits resolved.1 uses.1.1 clean.1.1
    refine ⟨.ifElse tested.1 chosen.1 otherwise.1, ?_, ?_⟩
    · rw [Stmt.relabel, ofStmt, ofStmt, after, unchanged]
      exact (tested.2.append chosen.2.1).append otherwise.2.1
    · rw [Stmt.relabel, Context.after, Context.after, after, unchanged]
      exact otherwise.2.2
  | .whileLoop cond body, _, resolved, uses, clean => by
    rw [Stmt.uses, forall_mem_append] at uses
    rw [ofStmt, Findings.errors_append] at clean
    have repeated := Stmt.respelled fits body
      (fits.inside_of_after body resolved.2.1 resolved.2.2) resolved.2.1 uses.2 clean.2
    have tested := cond.respelled between fits resolved.1 uses.1 clean.1
    exact ⟨.whileLoop tested.1 repeated.1, tested.2.append repeated.2.1, repeated.2.2⟩
  | .funDecl decl, inside, resolved, uses, clean => by
    rw [ofStmt, Findings.errors_append] at clean
    have named : (NameUse.plain decl.name).Respelled spelling := by
      cases decl
      exact uses _ mem_cons_self
    have innermost := named.innermost_plain fits inside
    have follows : Context.Follows (spelling.chain frames) change' decl.name := by
      rw [Context.Follows, between.spells, named.spell_plain, innermost]
    have defined : spelling.Fits frames (ctx.define decl.name) := fits.mark inside true
    have inner := FunctionDecl.respelled defined decl resolved uses clean.2
    refine ⟨.funDecl ?_ inner.1, ?_, ?_⟩
    · rw [FunctionDecl.name_relabel, FunctionDecl.name_relabel]
      exact between.declares follows
    · rw [Stmt.relabel, ofStmt, ofStmt, FunctionDecl.name_relabel, follows.define]
      exact (kept_redeclaration follows
        (by rw [chain, length_map, fits.length_eq])
        clean.1).append inner.2
    · rw [Stmt.relabel, Context.after, Context.after, FunctionDecl.name_relabel, follows.define]
  | .returnValue keyword value, _, resolved, uses, clean => by
    rw [Stmt.uses, forall_mem_cons] at uses
    rw [ofStmt, Findings.errors_append] at clean
    cases value with
    | none =>
      exact ⟨.returnPlain _ _,
        (Findings.kept_errorIf rfl clean.1).append Findings.kept_none, rfl⟩
    | some value =>
      have inner := value.respelled between fits resolved.2 uses.2 clean.2
      exact ⟨.returnValue _ _ inner.1,
        (Findings.kept_errorIf rfl clean.1).append inner.2, rfl⟩
  | .classDecl name superclass methods, inside, resolved, uses, clean => by
    rw [Stmt.uses, forall_mem_cons, forall_mem_append] at uses
    simp only [ofStmt, Findings.errors_append] at clean
    have innermost := uses.1.innermost_plain fits inside
    have follows : Context.Follows (spelling.chain frames) change' name := by
      rw [Context.Follows, between.spells, uses.1.spell_plain, innermost]
    have named : spelling.Fits frames (ctx.named name) :=
      fits.mark inside true
    have entered : spelling.Fits ([] :: frames) ((ctx.named name).enter [("this", true)]) :=
      .cons frame_receiver named
    have inner := FunctionDecl.allRespelled entered methods resolved.2.2 uses.2.2 clean.2
    have fixed := uses.1.fixed between
    have declares := between.declares follows
    have named_kept : Context.named (ctx.rename (spelling.chain frames)) (change' name) =
        (ctx.named name).rename (spelling.chain frames) := by
      rw [Context.named, follows.define]
      rfl
    have outside := kept_redeclaration follows
      (by rw [chain, length_map, fits.length_eq]) clean.1.1.1
    have own := kept_inheritsItself between fits uses.1 superclass uses.2.1 clean.1.1.2
    have methods_kept := inner.2
    rw [chain, map_cons, Context.rename_enter,
      ← chain, ← named_kept] at methods_kept
    cases superclass with
    | none =>
      exact ⟨.classPlain fixed declares inner.1,
        ((outside.append own).append Findings.kept_none).append methods_kept, follows.define⟩
    | some value =>
      have extended := value.respelled between named resolved.2.1 uses.2.1 clean.1.2
      rw [← named_kept] at extended
      exact ⟨.classExtending fixed declares extended.1 inner.1,
        ((outside.append own).append extended.2).append methods_kept, follows.define⟩

theorem Stmt.allRespelled
    {frames : List (List Token)} {ctx : Context}
    (fits : spelling.Fits frames ctx) : ∀ stmts : List Stmt,
      Respelling.Inside frames (Stmt.declaredAll stmts) →
      Stmt.AllResolved ledger ctx stmts →
      (∀ use ∈ Stmt.usesAll ledger.distances frames stmts, use.Respelled spelling) →
      (ofStmts ctx stmts).errors = [] →
        Stmt.AllAlike same ledger.occurrences (spelling.chain frames)
            (Stmt.relabelAll change 0 stmts) (Stmt.relabelAll change' 0 stmts) ∧
          (ofStmts ctx stmts).Kept (ofStmts (ctx.rename (spelling.chain frames))
              (Stmt.relabelAll change' 0 stmts))
  | [], _, _, _, _ => ⟨.nil, Findings.kept_none⟩
  | stmt :: stmts, inside, resolved, uses, clean => by
    rw [Stmt.declaredAll, flatMap_cons] at inside
    rw [Stmt.usesAll, forall_mem_append] at uses
    rw [ofStmts, Findings.errors_append] at clean
    have here := inside.mono (subset_append_left _ _)
    have head := Stmt.respelled fits stmt here resolved.1 uses.1 clean.1
    have after : spelling.Fits frames (ctx.after stmt) := by
      rw [stmt.after_of_resolved resolved.1]
      exact fits.foldl_define here
    have tail := Stmt.allRespelled after stmts
      (inside.mono (subset_append_right _ _)) resolved.2 uses.2 clean.2
    refine ⟨.cons head.1 tail.1, ?_⟩
    rw [Stmt.relabelAll, ofStmts, ofStmts, head.2.2]
    exact head.2.1.append tail.2

end

/-- An accepted program is respelled to one that is alike and accepted. -/
theorem Respelling.Between.program {prog : Program}
    (resolved : Stmt.AllResolved ledger .outermost prog)
    (uses : ∀ use ∈ Stmt.usesAll ledger.distances [] prog, use.Respelled spelling)
    (clean : (analyse prog).errors = []) :
    Stmt.AllAlike same ledger.occurrences [] (Stmt.relabelAll change 0 prog)
        (Stmt.relabelAll change' 0 prog) ∧
      analyse (Stmt.relabelAll change' 0 prog) = analyse prog := by
  have fits : spelling.Fits [] Context.outermost := List.Forall₂.nil
  have inside : Respelling.Inside [] (Stmt.declaredAll prog) := by
    intro innermost head
    cases head
  have respelled := Stmt.allRespelled between fits prog inside resolved uses clean
  have kept : analyse (Stmt.relabelAll change' 0 prog) =
      ⟨(analyse prog).distances, []⟩ := respelled.2
  refine ⟨respelled.1, kept.trans ?_⟩
  rw [← clean]

end

end Treewalk
