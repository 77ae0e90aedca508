import Mathlib.Data.List.Forall2
import Treewalk.Proofs.Analysis

/-!
# Recorded distances are the lexical ones

The outline of a program keeps what it says about scopes, in the order of its
text: declarations, occurrences of names, and local scopes with what they hold.
The distance of an occurrence is the number of scopes between it and the
nearest one that declares its name before it.

This is what the analysis records, also in programs that break the scope rules.
Its stack of scopes holds, for each local scope around the current place, the
names that the items to the left declare.
-/

namespace Treewalk

open Scoping List

/-! ## Outlines -/

/-- What a program says about scopes. -/
inductive Outline where
  | declares (name : String)
  | occurs (id : ExprId) (name : String)
  | scope (inner : List Outline)

namespace Expr

variable (inClass : Bool)

mutual

/-- The occurrences in an expression; a receiver counts inside a class only. -/
def outline : Expr → List Outline
  | literal _ => []
  | grouping inner => outline inner
  | unary _ operand => outline operand
  | binary left _ right => outline left ++ outline right
  | logical left _ right => outline left ++ outline right
  | name id token => [.occurs id token.lexeme]
  | assign id target value => outline value ++ [.occurs id target.lexeme]
  | receiver id keyword =>
    if inClass then [.occurs id keyword.lexeme] else []
  | call callee _ arguments => outline callee ++ outlineAll arguments
  | get object _ => outline object
  | set object _ value => outline object ++ outline value

def outlineAll : List Expr → List Outline
  | [] => []
  | value :: values => outline value ++ outlineAll values

end

def outlineOption : Option Expr → List Outline
  | none => []
  | some value => value.outline inClass

end Expr

/-- Parameters are declared in the scope of the body. -/
def Outline.parameters (names : List Token) : List Outline :=
  names.map fun name => .declares name.lexeme

mutual

/-- A function is one scope, with its parameters first. -/
def FunctionDecl.outline (inClass : Bool) : FunctionDecl → Outline
  | .mk _ parameters body =>
    .scope (Outline.parameters parameters ++ Stmt.outlineAll inClass body)

/-- The scopes of methods. -/
def FunctionDecl.outlineAll (inClass : Bool) :
    List FunctionDecl → List Outline
  | [] => []
  | method :: methods =>
    method.outline inClass :: FunctionDecl.outlineAll inClass methods

/--
The outline of a statement.  A variable is declared before its initializer, a
function or class before its body; a class has a scope for its receiver.
-/
def Stmt.outline (inClass : Bool) : Stmt → List Outline
  | .expression value => value.outline inClass
  | .print value => value.outline inClass
  | .varDecl name initial =>
    .declares name.lexeme :: Expr.outlineOption inClass initial
  | .block body => [.scope (Stmt.outlineAll inClass body)]
  | .ifElse condition yes none =>
    condition.outline inClass ++ yes.outline inClass
  | .ifElse condition yes (some no) =>
    condition.outline inClass ++ yes.outline inClass ++ no.outline inClass
  | .whileLoop condition body =>
    condition.outline inClass ++ body.outline inClass
  | .funDecl declaration =>
    [.declares declaration.name.lexeme, declaration.outline inClass]
  | .returnValue _ value => Expr.outlineOption inClass value
  | .classDecl name superclass methods =>
    .declares name.lexeme :: Expr.outlineOption true superclass ++
      [.scope (.declares "this" :: FunctionDecl.outlineAll true methods)]

def Stmt.outlineAll (inClass : Bool) : List Stmt → List Outline
  | [] => []
  | statement :: statements =>
    statement.outline inClass ++ Stmt.outlineAll inClass statements

end

/-- The outline of a program. -/
def Program.outline (program : Program) : List Outline :=
  Stmt.outlineAll false program

variable {name : String} {items : List Outline}

namespace Outline

mutual

/-- The ids of the occurrences of an item. -/
def ids : Outline → List ExprId
  | declares _ => []
  | occurs id _ => [id]
  | scope inner => idsAll inner

/-- The ids of the occurrences of items, in their order. -/
def idsAll : List Outline → List ExprId
  | [] => []
  | item :: items => ids item ++ idsAll items

end

/--
What stands to the left of a place: among the items of the innermost scope
first, then among those of the scopes around it.  The last entry is about the
outermost level of the program, which is no local scope.
-/
abbrev Trail := List (List Outline)

/-- An item stands among items or inside one of them, with what is left of it. -/
inductive Reaches : Trail → List Outline → Trail → Outline → Prop where
  | here {outer before item after} :
      Reaches outer (before ++ item :: after) (before :: outer) item
  | inside {outer before inner after trail item}
      (deeper : Reaches (before :: outer) inner trail item) :
      Reaches outer (before ++ scope inner :: after) trail item

/-- A local scope, counted outwards from zero, declares a name to the left. -/
def DeclaredAt (trail : Trail) (name : String) (distance : Nat) : Prop :=
  ∃ before, trail.dropLast[distance]? = some before ∧ declares name ∈ before

/-- The nearest local scope that declares a name to the left. -/
structure Nearest (trail : Trail) (name : String) (distance : Nat) : Prop where
  declared : DeclaredAt trail name distance
  nearest : ∀ closer < distance, ¬ DeclaredAt trail name closer

/-! ## Looking up names along a trail -/

/-- The item declares the name. -/
def isDeclaration (name : String) : Outline → Bool
  | declares other => other == name
  | _ => false

/-- The number of local scopes up to one that declares a name to the left. -/
def distance? (trail : Trail) (name : String) : Option Nat :=
  trail.dropLast.findIdx? fun before => before.any (isDeclaration name)

theorem any_isDeclaration : items.any (isDeclaration name) = true ↔ declares name ∈ items := by
  rw [any_eq_true]
  constructor
  · rintro ⟨item, mem, declared⟩
    cases item with
    | declares other =>
      rw [isDeclaration, beq_iff_eq] at declared
      rw [← declared]
      exact mem
    | occurs id other | scope inner => cases declared
  · intro mem
    exact ⟨declares name, mem, beq_self_eq_true name⟩

/-- The nearest declaration gives the distance. -/
theorem Nearest.distance? {trail : Trail} {name : String} {dist : Nat}
    (nearest : Nearest trail name dist) : distance? trail name = some dist := by
  rcases nearest.declared with ⟨before, found, declared⟩
  rcases List.getElem?_eq_some_iff.mp found with ⟨bounded, rfl⟩
  refine List.findIdx?_eq_some_iff_getElem.mpr ⟨bounded, ?_, ?_⟩
  · exact any_isDeclaration.mpr declared
  · intro closer below declaresCloser
    refine nearest.nearest closer below ⟨_, ?_, any_isDeclaration.mp declaresCloser⟩
    exact getElem?_eq_getElem _

theorem declaredAt_of_distance? {trail : Trail} {dist : Nat}
    (found : distance? trail name = some dist) : DeclaredAt trail name dist := by
  rcases List.findIdx?_eq_some_iff_getElem.mp found with ⟨bounded, declared, _⟩
  exact ⟨_, getElem?_eq_getElem bounded, any_isDeclaration.mp declared⟩

/-! ## Walking along an outline -/

mutual

/-- The distances of the occurrences of an item. -/
def walk (outer : Trail) (before : List Outline) :
    Outline → List (ExprId × Nat)
  | declares _ => []
  | occurs id name =>
    match distance? (before :: outer) name with
    | some distance => [(id, distance)]
    | none => []
  | scope inner => walkAll (before :: outer) [] inner

/-- The distances of the occurrences of items, in their order. -/
def walkAll (outer : Trail) (before : List Outline) :
    List Outline → List (ExprId × Nat)
  | [] => []
  | item :: items =>
    walk outer before item ++ walkAll outer (before ++ [item]) items

end

/-- Items are walked with those before them to the left. -/
theorem walkAll_append (outer : Trail) (before items others : List Outline) :
    walkAll outer before (items ++ others) = walkAll outer before items ++
        walkAll outer (before ++ items) others := by
  induction items generalizing before with
  | nil => rw [nil_append, append_nil, walkAll, nil_append]
  | cons item items ih =>
    rw [cons_append, walkAll, walkAll, ih,
      append_assoc, append_assoc, singleton_append]

theorem walkAll_singleton (outer : Trail) (before : List Outline)
    (item : Outline) : walkAll outer before [item] = walk outer before item := by
  rw [walkAll, walkAll, append_nil]

theorem idsAll_append (items others : List Outline) :
    idsAll (items ++ others) = idsAll items ++ idsAll others := by
  induction items with
  | nil => rfl
  | cons item items ih => rw [cons_append, idsAll, idsAll, ih, append_assoc]

mutual

/-- What is found in an item is found for its occurrences. -/
theorem id_mem_of_walk (outer : Trail) (before : List Outline) :
    ∀ (item : Outline), ∀ entry ∈ walk outer before item, entry.1 ∈ item.ids
  | declares _, entry, mem => by cases mem
  | occurs id name, entry, mem => by
    rw [walk] at mem
    split at mem
    · rw [mem_singleton.mp mem]
      exact mem_singleton_self id
    · cases mem
  | scope inner, entry, mem => id_mem_of_walkAll (before :: outer) [] inner entry mem

theorem id_mem_of_walkAll (outer : Trail) (before : List Outline) :
    ∀ (items : List Outline), ∀ entry ∈ walkAll outer before items, entry.1 ∈ idsAll items
  | [], entry, mem => by cases mem
  | item :: items, entry, mem => by
    rw [walkAll] at mem
    rw [idsAll]
    rcases mem_append.mp mem with first | rest
    · exact mem_append_left _ (id_mem_of_walk outer before item entry first)
    · exact mem_append_right _ (id_mem_of_walkAll outer (before ++ [item]) items entry rest)

end

mutual

/-- What is found in an item is the distance of an occurrence. -/
theorem reaches_of_walk (outer : Trail) (before : List Outline) :
    ∀ (item : Outline) (after : List Outline) (id : ExprId) (dist : Nat),
      (id, dist) ∈ walk outer before item → ∃ trail name,
          Reaches outer (before ++ item :: after) trail (occurs id name) ∧
            DeclaredAt trail name dist
  | declares _, _, _, _, mem => by cases mem
  | occurs other name, after, id, dist, mem => by
    rw [walk] at mem
    split at mem
    · next found =>
      cases mem_singleton.mp mem
      exact ⟨_, name, .here, declaredAt_of_distance? found⟩
    · cases mem
  | scope inner, after, id, dist, mem => by
    rcases reaches_of_walkAll (before :: outer) [] inner id dist mem
      with ⟨trail, name, reaches, declared⟩
    exact ⟨trail, name, .inside reaches, declared⟩

/-- Whatever is recorded is reached in the outline. -/
theorem reaches_of_walkAll (outer : Trail) (before : List Outline) :
    ∀ (items : List Outline) (id : ExprId) (dist : Nat),
      (id, dist) ∈ walkAll outer before items → ∃ trail name,
          Reaches outer (before ++ items) trail (occurs id name) ∧ DeclaredAt trail name dist
  | [], _, _, mem => by cases mem
  | item :: items, id, dist, mem => by
    rw [walkAll] at mem
    rcases mem_append.mp mem with first | rest
    · exact reaches_of_walk outer before item items id dist first
    · have found := reaches_of_walkAll outer (before ++ [item]) items id dist rest
      rw [append_assoc, singleton_append] at found
      exact found

end

/--
An occurrence is walked over once: what is found to the left of it and to the
right of it is found for other occurrences.
-/
theorem Reaches.walkAll_eq {outer : Trail} {trail : Trail} {id : ExprId}
    (reaches : Reaches outer items trail (occurs id name)) :
    ∃ left right found later, idsAll items = left ++ id :: right ∧ walkAll outer [] items =
        found ++ ((distance? trail name).toList.map (id, ·) ++ later) ∧
      (∀ entry ∈ found, entry.1 ∈ left) ∧ ∀ entry ∈ later, entry.1 ∈ right := by
  generalize target : occurs id name = item at reaches
  induction reaches with
  | @here outer before item after =>
    subst target
    refine ⟨idsAll before, idsAll after, walkAll outer [] before,
      walkAll outer (before ++ [occurs id name]) after, ?_, ?_,
      id_mem_of_walkAll _ _ _, id_mem_of_walkAll _ _ _⟩
    · rw [idsAll_append]
      rfl
    · rw [walkAll_append, nil_append, walkAll, walk]
      cases distance? (before :: outer) name <;> rfl
  | @inside outer before inner after trail item deeper ih =>
    rcases ih target with ⟨left, right, found, later, ids, walked, leftwards, rightwards⟩
    refine ⟨idsAll before ++ left, right ++ idsAll after, walkAll outer [] before ++ found,
      later ++ walkAll outer (before ++ [scope inner]) after, ?_, ?_, ?_, ?_⟩
    · rw [idsAll_append, idsAll, Outline.ids, ids]
      simp
    · rw [walkAll_append, nil_append, walkAll, walk, walked]
      simp
    · intro entry mem
      rcases mem_append.mp mem with first | second
      · exact mem_append_left _ (id_mem_of_walkAll _ _ _ entry first)
      · exact mem_append_right _ (leftwards entry second)
    · intro entry mem
      rcases mem_append.mp mem with first | second
      · exact mem_append_left _ (rightwards entry first)
      · exact mem_append_right _ (id_mem_of_walkAll _ _ _ entry second)

end Outline

variable {before : List Outline}

/-! ## What the analysis knows of a place -/

section

open Outline

/-- Expressions declare nothing. -/
def Outline.DeclareNothing (items : List Outline) : Prop :=
  ∀ name, items.any (isDeclaration name) = false

theorem Outline.DeclareNothing.append {others : List Outline} (nothing : DeclareNothing items)
    (further : DeclareNothing others) : DeclareNothing (items ++ others) := by
  intro name
  rw [any_append, nothing name, further name]
  rfl

mutual

/-- Expressions declare nothing. -/
theorem Expr.outline_declareNothing (inClass : Bool) : ∀ value : Expr,
    DeclareNothing (value.outline inClass)
  | .literal _ | .name _ _ => fun _ => rfl
  | .grouping inner | .unary _ inner | .get inner _ => inner.outline_declareNothing inClass
  | .binary left _ right | .logical left _ right | .set left _ right =>
    (left.outline_declareNothing inClass).append (right.outline_declareNothing inClass)
  | .assign _ _ value => (value.outline_declareNothing inClass).append fun _ => rfl
  | .receiver _ _ => by
    intro name
    rw [Expr.outline]
    split <;> rfl
  | .call callee _ args =>
    (callee.outline_declareNothing inClass).append (Expr.outlineAll_declareNothing inClass args)

theorem Expr.outlineAll_declareNothing (inClass : Bool) :
    ∀ values : List Expr, DeclareNothing (Expr.outlineAll inClass values)
  | [] => fun _ => rfl
  | value :: values =>
    (value.outline_declareNothing inClass).append (Expr.outlineAll_declareNothing inClass values)

end

theorem Expr.outlineOption_declareNothing (inClass : Bool) (value : Option Expr) :
    DeclareNothing (Expr.outlineOption inClass value) := by
  cases value with
  | none => exact fun _ => rfl
  | some value => exact value.outline_declareNothing inClass

/-- Each local scope holds the names that are declared to the left. -/
def Scoping.Context.Mirrors (context : Context) (trail : Trail) : Prop :=
  List.Forall₂
    (fun scope before => ∀ name : String,
      (lookup name scope).isSome = before.any (isDeclaration name))
    context.scopes trail.dropLast

namespace Scoping.Context.Mirrors

variable {ctx : Context} {outer : Trail}

theorem distance? {trail : Trail} (mirrors : ctx.Mirrors trail) (name : String) :
    ctx.distance? name = Outline.distance? trail name := by
  unfold Context.distance? Outline.distance?
  unfold Mirrors at mirrors
  generalize trail.dropLast = frames at mirrors
  generalize ctx.scopes = scopes at mirrors
  induction mirrors with
  | nil => rfl
  | cons same rest ih => rw [findIdx?_cons, findIdx?_cons, same name, ih]

/-- Items that declare nothing keep the mirror. -/
theorem extend (mirrors : ctx.Mirrors (before :: outer)) (nothing : DeclareNothing items) :
    ctx.Mirrors ((before ++ items) :: outer) := by
  unfold Mirrors at mirrors ⊢
  cases outer with
  | nil => exact mirrors
  | cons next outer =>
    rw [dropLast_cons_cons] at mirrors ⊢
    generalize ctx.scopes = scopes at mirrors ⊢
    cases mirrors with
    | cons same rest =>
      refine .cons ?_ rest
      intro name
      rw [any_append, nothing name, Bool.or_false]
      exact same name

/-- Marking a name is declaring it. -/
theorem mark (mirrors : ctx.Mirrors (before :: outer)) (name : String) (readable : Bool) :
    (ctx.mark name readable).Mirrors ((before ++ [.declares name]) :: outer) := by
  rcases ctx with ⟨scopes, inFunction, inClass⟩
  unfold Mirrors at mirrors ⊢
  cases outer with
  | nil =>
    cases mirrors
    exact .nil
  | cons next outer =>
    rw [dropLast_cons_cons] at mirrors ⊢
    cases mirrors with
    | cons same rest =>
      refine .cons ?_ rest
      intro other
      rw [any_append, ← same other, lookup_cons]
      by_cases equal : other = name
      · subst equal
        simp [isDeclaration]
      · have different : (other == name) = false :=
          beq_eq_false_iff_ne.mpr equal
        have different' : (name == other) = false :=
          beq_eq_false_iff_ne.mpr (Ne.symm equal)
        simp [isDeclaration, different, different']

section

variable (mirrors : ctx.Mirrors (before :: outer))

include mirrors

/-- Nothing is declared in a scope that has just been entered. -/
theorem enter : (ctx.enter []).Mirrors ([] :: before :: outer) :=
  .cons (fun _ => rfl) mirrors

theorem enter_receiver :
    (ctx.enter [("this", true)]).Mirrors ([.declares "this"] :: before :: outer) :=
  mirrors.enter.mark "this" true

theorem foldl_define (params : List Token) :
    (params.foldl Context.define ctx).Mirrors ((before ++ Outline.parameters params) :: outer) := by
  induction params generalizing ctx before with
  | nil =>
    rw [Outline.parameters, map_nil, append_nil]
    exact mirrors
  | cons parameter params ih =>
    have rest := ih (mirrors.mark parameter.lexeme true)
    rw [append_assoc] at rest
    exact rest

/-- The body of a function stands to the right of its parameters. -/
theorem inBody (params : List Token) :
    (ctx.inBody params).Mirrors (Outline.parameters params :: before :: outer) :=
  have entered : Mirrors { ctx.enter [] with inFunction := true }
      ([] :: before :: outer) := mirrors.enter
  entered.foldl_define params

end

/-- After a statement, its items are to the left. -/
theorem after (inClass : Bool) : ∀ (stmt : Stmt) {ctx : Context}
    {before : List Outline}, ctx.Mirrors (before :: outer) → (ctx.after stmt).Mirrors
        ((before ++ stmt.outline inClass) :: outer)
  | .expression value, _, _, mirrors | .print value, _, _, mirrors =>
    mirrors.extend (value.outline_declareNothing inClass)
  | .varDecl name initial, _, _, mirrors => by
    have declared := (mirrors.mark name.lexeme true).extend
      (Expr.outlineOption_declareNothing inClass initial)
    rw [append_assoc] at declared
    exact declared
  | .block body, _, _, mirrors => mirrors.extend fun _ => rfl
  | .ifElse cond yes none, _, _, mirrors => by
    have chosen := after inClass yes (mirrors.extend (cond.outline_declareNothing inClass))
    rw [append_assoc] at chosen
    exact chosen
  | .ifElse cond yes (some no), _, _, mirrors => by
    have chosen := after inClass no (after inClass yes
      (mirrors.extend (cond.outline_declareNothing inClass)))
    rw [append_assoc, append_assoc,
      ← append_assoc (cond.outline inClass)] at chosen
    exact chosen
  | .whileLoop cond body, _, _, mirrors => by
    have repeated := after inClass body (mirrors.extend (cond.outline_declareNothing inClass))
    rw [append_assoc] at repeated
    exact repeated
  | .funDecl decl, _, _, mirrors => by
    have nothing : DeclareNothing [decl.outline inClass] := by
      intro name
      cases decl
      rfl
    have declared := (mirrors.mark decl.name.lexeme true).extend nothing
    rw [append_assoc] at declared
    exact declared
  | .returnValue _ value, _, _, mirrors =>
    mirrors.extend (Expr.outlineOption_declareNothing inClass value)
  | .classDecl name superclass methods, _, _, mirrors => by
    have methods_nothing : DeclareNothing [.scope (.declares "this" ::
        FunctionDecl.outlineAll true methods)] := fun _ => rfl
    have declared := (mirrors.mark name.lexeme true).extend
      ((Expr.outlineOption_declareNothing true superclass).append methods_nothing)
    rw [append_assoc] at declared
    exact declared

end Scoping.Context.Mirrors

/-! ## What the analysis finds -/

namespace Scoping

theorem Context.inClass_mark (ctx : Context) (name : String) (readable : Bool) :
    (ctx.mark name readable).inClass = ctx.inClass := by
  unfold Context.mark
  split <;> rfl

theorem Context.inClass_foldl_define (ctx : Context) (params : List Token) :
    (params.foldl Context.define ctx).inClass = ctx.inClass := by
  induction params generalizing ctx with
  | nil => rfl
  | cons parameter params ih =>
    rw [foldl_cons, ih]
    exact ctx.inClass_mark _ _

theorem Context.inClass_after (ctx : Context) (stmt : Stmt) :
    (ctx.after stmt).inClass = ctx.inClass := by
  refine Context.after_of_define (fun other => other.inClass = ctx.inClass) rfl ?_ stmt
  intro other name same
  exact (other.inClass_mark name.lexeme true).trans same

variable {ctx : Context} {outer : Trail}

theorem distances_errorIf (cond : Bool) (fault : ScopingFault) (token : Token) :
    (Findings.errorIf cond fault token).distances = [] := by
  cases cond <;> rfl

theorem distances_append (findings others : Findings) :
    (findings ++ others).distances = findings.distances ++ others.distances :=
  rfl

/-- An occurrence records its distance in the outline. -/
theorem distances_occurrence (mirrors : ctx.Mirrors (before :: outer))
    (id : ExprId) (name : String) :
    (Findings.occurrence ctx id name).distances = walkAll outer before [.occurs id name] := by
  rw [walkAll_singleton, walk, Findings.occurrence, mirrors.distance?]
  cases Outline.distance? (before :: outer) name <;> rfl

theorem distances_ofParameters (ctx : Context) (params : List Token) :
    (ofParameters ctx params).distances = [] := by
  induction params generalizing ctx with
  | nil => rfl
  | cons parameter params ih =>
    rw [ofParameters, distances_append, ih, Findings.redeclaration, distances_errorIf]
    rfl

mutual

/-- In an expression, the analysis finds what a walk along it finds. -/
theorem distances_ofExpr : ∀ (value : Expr) {ctx : Context}
    {before : List Outline}, ctx.Mirrors (before :: outer) → (ofExpr ctx value).distances =
        walkAll outer before (value.outline ctx.inClass)
  | .literal _, _, _, _ => rfl
  | .grouping inner, _, _, mirrors | .unary _ inner, _, _, mirrors | .get inner _, _, _, mirrors =>
    distances_ofExpr inner mirrors
  | .binary left _ right, ctx, _, mirrors | .logical left _ right, ctx, _, mirrors
  | .set left _ right, ctx, _, mirrors => by
    rw [ofExpr, Expr.outline, distances_append, walkAll_append,
      distances_ofExpr left mirrors, distances_ofExpr right
        (mirrors.extend (left.outline_declareNothing ctx.inClass))]
  | .name id token, _, _, mirrors => by
    rw [ofExpr, Expr.outline, distances_append, distances_errorIf,
      distances_occurrence mirrors, nil_append]
  | .assign id target value, ctx, _, mirrors => by
    rw [ofExpr, Expr.outline, distances_append, walkAll_append,
      distances_ofExpr value mirrors, distances_occurrence
        (mirrors.extend (value.outline_declareNothing ctx.inClass))]
  | .receiver id keyword, _, _, mirrors => by
    rw [ofExpr, Expr.outline]
    split
    · exact distances_occurrence mirrors id keyword.lexeme
    · rfl
  | .call callee _ args, ctx, _, mirrors => by
    rw [ofExpr, Expr.outline, distances_append, walkAll_append,
      distances_ofExpr callee mirrors, distances_ofExprs args
        (mirrors.extend (callee.outline_declareNothing ctx.inClass))]

theorem distances_ofExprs : ∀ (values : List Expr) {ctx : Context}
    {before : List Outline}, ctx.Mirrors (before :: outer) → (ofExprs ctx values).distances =
        walkAll outer before (Expr.outlineAll ctx.inClass values)
  | [], _, _, _ => rfl
  | value :: values, ctx, _, mirrors => by
    rw [ofExprs, Expr.outlineAll, distances_append, walkAll_append,
      distances_ofExpr value mirrors, distances_ofExprs values
        (mirrors.extend (value.outline_declareNothing ctx.inClass))]

end

theorem distances_ofOption (value : Option Expr) (mirrors : ctx.Mirrors (before :: outer)) :
    (ofOption ctx value).distances =
      walkAll outer before (Expr.outlineOption ctx.inClass value) := by
  cases value with
  | none => rfl
  | some value => exact distances_ofExpr value mirrors

theorem walkAll_parameters (outer : Trail) (before : List Outline) (params : List Token) :
    walkAll outer before (Outline.parameters params) = [] := by
  induction params generalizing before with
  | nil => rfl
  | cons parameter params ih => exact ih _

mutual

theorem distances_ofFunction : ∀ (decl : FunctionDecl)
    {outer : Trail} {ctx : Context} {before : List Outline}, ctx.Mirrors (before :: outer) →
        (ofFunction ctx decl).distances = walk outer before (decl.outline ctx.inClass)
  | .mk _ params body, outer, ctx, before, mirrors => by
    have inClass : (ctx.inBody params).inClass = ctx.inClass :=
      Context.inClass_foldl_define _ params
    rw [ofFunction, FunctionDecl.outline, walk, distances_append,
      distances_ofParameters, nil_append, walkAll_append,
      walkAll_parameters, nil_append, nil_append,
      distances_ofStmts body (mirrors.inBody params), inClass]

theorem distances_ofMethods : ∀ (methods : List FunctionDecl)
    {outer : Trail} {ctx : Context} {before : List Outline}, ctx.Mirrors (before :: outer) →
        (ofMethods ctx methods).distances = walkAll outer before
            (FunctionDecl.outlineAll ctx.inClass methods)
  | [], _, _, _, _ => rfl
  | method :: methods, outer, ctx, before, mirrors => by
    have nothing : DeclareNothing [method.outline ctx.inClass] := by
      intro name
      cases method
      rfl
    rw [ofMethods, FunctionDecl.outlineAll, walkAll, distances_append,
      distances_ofFunction method mirrors, distances_ofMethods methods (mirrors.extend nothing)]

/-- In a statement, the analysis finds what a walk along it finds. -/
theorem distances_ofStmt : ∀ (stmt : Stmt) {outer : Trail}
    {ctx : Context} {before : List Outline}, ctx.Mirrors (before :: outer) →
        (ofStmt ctx stmt).distances = walkAll outer before (stmt.outline ctx.inClass)
  | .expression value, _, _, _, mirrors | .print value, _, _, _, mirrors =>
    distances_ofExpr value mirrors
  | .varDecl name initial, outer, ctx, before, mirrors => by
    have declared := distances_ofOption initial (mirrors.mark name.lexeme false)
    rw [Context.inClass_mark] at declared
    rw [ofStmt, Stmt.outline, distances_append, Findings.redeclaration,
      distances_errorIf, nil_append, walkAll, walk, nil_append]
    exact declared
  | .block body, _, _, _, mirrors => by
    rw [ofStmt, Stmt.outline, walkAll_singleton, walk]
    exact distances_ofStmts body mirrors.enter
  | .ifElse cond yes none, _, ctx, _, mirrors | .whileLoop cond yes, _, ctx, _, mirrors => by
    rw [ofStmt, Stmt.outline, distances_append, walkAll_append,
      distances_ofExpr cond mirrors, distances_ofStmt yes
        (mirrors.extend (cond.outline_declareNothing ctx.inClass))]
  | .ifElse cond yes (some no), _, ctx, _, mirrors => by
    have extended :=
      mirrors.extend (cond.outline_declareNothing ctx.inClass)
    have otherwise := distances_ofStmt no (extended.after ctx.inClass yes)
    rw [Context.inClass_after, append_assoc] at otherwise
    rw [ofStmt, Stmt.outline, distances_append, distances_append,
      walkAll_append, walkAll_append, distances_ofExpr cond mirrors,
      distances_ofStmt yes extended, otherwise]
  | .funDecl decl, _, ctx, _, mirrors => by
    have declared := distances_ofFunction decl (mirrors.mark decl.name.lexeme true)
    rw [Context.inClass_mark] at declared
    rw [ofStmt, Stmt.outline, distances_append, Findings.redeclaration,
      distances_errorIf, nil_append, walkAll, walk, nil_append, walkAll_singleton]
    exact declared
  | .returnValue keyword value, _, _, _, mirrors => by
    rw [ofStmt, Stmt.outline, distances_append, distances_errorIf,
      nil_append, distances_ofOption value mirrors]
  | .classDecl name superclass methods, outer, ctx, before, mirrors => by
    have named : Context.Mirrors { ctx.define name with inClass := true }
        ((before ++ [.declares name.lexeme]) :: outer) :=
      mirrors.mark name.lexeme true
    have extended := named.extend (Expr.outlineOption_declareNothing true superclass)
    have inherits : (inheritsItself name superclass).distances = [] := by
      unfold inheritsItself
      split
      · exact distances_errorIf _ _ _
      · rfl
    have receiver := distances_ofMethods methods extended.enter_receiver
    rw [ofStmt, Stmt.outline]
    simp only [distances_append, Findings.redeclaration, distances_errorIf,
      inherits, nil_append, cons_append, walkAll, walk,
      walkAll_append, distances_ofOption superclass named, append_nil]
    exact congrArg _ receiver

/-- Statements record what walking their outline does. -/
theorem distances_ofStmts : ∀ (stmts : List Stmt) {outer : Trail}
    {ctx : Context} {before : List Outline}, ctx.Mirrors (before :: outer) →
        (ofStmts ctx stmts).distances = walkAll outer before (Stmt.outlineAll ctx.inClass stmts)
  | [], _, _, _, _ => rfl
  | stmt :: stmts, outer, ctx, before, mirrors => by
    have rest := distances_ofStmts stmts (mirrors.after ctx.inClass stmt)
    rw [Context.inClass_after] at rest
    rw [ofStmts, Stmt.outlineAll, distances_append, walkAll_append,
      distances_ofStmt stmt mirrors, rest]

end

/-- The analysis of a program finds what a walk along its outline finds. -/
theorem distances_analyse (prog : Program) :
    (analyse prog).distances = walkAll [] [] (Program.outline prog) :=
  distances_ofStmts prog List.Forall₂.nil

end Scoping

end

/-! ## Recording twice -/

theorem Distances.find?_recordAll_of_exists {distances others : Distances}
    {id : ExprId} {found : List (ExprId × Nat)} (present : ∃ dist, (id, dist) ∈ found) :
    (distances.recordAll found).find? id = (others.recordAll found).find? id := by
  induction found generalizing distances others with
  | nil =>
    rcases present with ⟨dist, mem⟩
    cases mem
  | cons entry found ih =>
    show ((distances.record entry.1 entry.2).recordAll found).find? id =
      ((others.record entry.1 entry.2).recordAll found).find? id
    by_cases again : ∃ dist, (id, dist) ∈ found
    · exact ih again
    · have absent : ∀ dist, (id, dist) ∉ found :=
        fun dist mem => again ⟨dist, mem⟩
      rcases present with ⟨dist, mem⟩
      rcases mem_cons.mp mem with rfl | mem
      · rw [find?_recordAll_of_absent absent,
          find?_recordAll_of_absent absent, find?_record, find?_record, if_pos rfl, if_pos rfl]
      · exact absurd mem (absent dist)

/-- Recording the same distances again changes nothing. -/
theorem Distances.find?_recordAll_twice (distances : Distances)
    (found : List (ExprId × Nat)) (id : ExprId) :
    ((distances.recordAll found).recordAll found).find? id =
      (distances.recordAll found).find? id := by
  by_cases present : ∃ dist, (id, dist) ∈ found
  · exact find?_recordAll_of_exists present
  · exact find?_recordAll_of_absent (fun dist mem => present ⟨dist, mem⟩)

/--
Recorded distances are the lexical ones.  In a program whose occurrences have
ids of their own, also if it breaks the scope rules, an occurrence gets the
distance of the nearest local scope that declares its name to the left of it.
Where no local scope does, nothing is recorded.  Analysing the program again on
the same machine finds the same errors and leaves all distances as they are.
-/
theorem recorded_distance_is_lexical {program : Program}
    (distinct : (Outline.idsAll (Program.outline program)).Nodup) (machine : Machine) :
    let analysed := (machine.analyse program).2
    (∀ trail id name distance,
      Outline.Reaches [] (Program.outline program) trail (.occurs id name) →
      Outline.Nearest trail name distance → analysed.distances.find? id = some distance) ∧
    (∀ id,
      (∀ trail name distance, Outline.Reaches [] (Program.outline program) trail (.occurs id name) →
          ¬ Outline.DeclaredAt trail name distance) →
        analysed.distances.find? id = machine.distances.find? id) ∧
    (analysed.analyse program).1 = (machine.analyse program).1 ∧
    ∀ id, (analysed.analyse program).2.distances.find? id =
      analysed.distances.find? id := by
  intro analysed
  have recorded : analysed.distances =
      machine.distances.recordAll (analyse program).distances := rfl
  rw [distances_analyse] at recorded
  refine ⟨?_, ?_, rfl, ?_⟩
  · intro trail id name distance reaches nearest
    rcases reaches.walkAll_eq with
      ⟨left, right, found, later, ids, walked, leftwards, rightwards⟩
    rw [nearest.distance?] at walked
    rw [ids, nodup_append, nodup_cons] at distinct
    have left_free : id ∉ left := fun member =>
      distinct.2.2 id member id mem_cons_self rfl
    -- All that is found for the id is found at the occurrence.
    have only : ∀ other, (id, other) ∈ Outline.walkAll [] []
        (Program.outline program) → other = distance := by
      intro other member
      rw [walked] at member
      rcases mem_append.mp member with first | member
      · exact absurd (leftwards _ first) left_free
      · rcases mem_append.mp member with here | last
        · exact congrArg Prod.snd (mem_singleton.mp here)
        · exact absurd (rightwards _ last) distinct.2.1.1
    rw [recorded]
    refine Distances.find?_recordAll_of_mem ?_ ?_
    · intro one other first second
      rw [only one first, only other second]
    · rw [walked]
      exact mem_append_right _ (mem_append_left _ (mem_singleton_self _))
  · intro id undeclared
    rw [recorded]
    refine Distances.find?_recordAll_of_absent ?_
    intro distance member
    rcases Outline.reaches_of_walkAll [] [] _ id distance member with
      ⟨trail, name, reaches, declared⟩
    exact undeclared trail name distance reaches declared
  · intro id
    exact Distances.find?_recordAll_twice machine.distances _ id

/--
An inner block reads a variable before it declares one of the same name, whose
initializer assigns it; the receiver is outside of all classes.
-/
theorem shadowed_later_reads_outer_scope :
    let token (lexeme : String) : Token := ⟨.identifier, lexeme, 1⟩
    let program : Program := [.block [.varDecl (token "a") none,
      .block [.print (.name 0 (token "a")),
        .varDecl (token "a") (some (.assign 2 (token "a") (.receiver 1 (token "this"))))]]]
    let machine := Machine.initial (fun _ => 0) .unlimited
    (Outline.idsAll (Program.outline program)).Nodup ∧ (machine.analyse program).1 ≠ [] ∧
      (machine.analyse program).2.distances.find? 0 = some 1 ∧
      (machine.analyse program).2.distances.find? 2 = some 0 := by
  intro token program machine
  have distinct : (Outline.idsAll (Program.outline program)).Nodup := by
    decide
  have lexical := (recorded_distance_is_lexical distinct machine).1
  refine ⟨distinct, by decide, ?_, ?_⟩
  · refine lexical [[], [.declares "a"], []] 0 "a" 1 ?_ ?_
    · show Outline.Reaches [] ([] ++ .scope ([.declares "a"] ++ .scope
        ([] ++ .occurs 0 "a" :: [.declares "a", .occurs 2 "a"]) :: []) :: [])
        _ _
      exact .inside (.inside .here)
    · refine ⟨⟨[.declares "a"], rfl, mem_singleton_self _⟩, ?_⟩
      rintro closer below ⟨before, found, declared⟩
      rcases Nat.lt_one_iff.mp below with rfl
      cases found
      cases declared
  · refine lexical [[.occurs 0 "a", .declares "a"], [.declares "a"], []] 2 "a" 0 ?_ ?_
    · show Outline.Reaches [] ([] ++ .scope ([.declares "a"] ++ .scope
        ([.occurs 0 "a", .declares "a"] ++ .occurs 2 "a" :: []) :: []) :: [])
        _ _
      exact .inside (.inside .here)
    · refine ⟨⟨_, rfl, mem_cons_of_mem _ (mem_singleton_self _)⟩, ?_⟩
      intro closer below
      exact absurd below (Nat.not_lt_zero closer)

end Treewalk
