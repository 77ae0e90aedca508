import Treewalk.Proofs.LexicalDistances

/-!
# The scope rules

The sketch of a program keeps what its scope rules speak of, in the order of
its text: declarations, reads, receivers, returns, superclasses, and regions
with what they hold.  A spot is an item of the sketch that is no region, with
the regions around it and what stands to the left of it in the innermost one.
Whether it breaks a scope rule is a matter of these surroundings alone; the
analysis finds it out on its way from marks on names and from flags.
-/

namespace Treewalk

open Scoping Context List

/-! ## Sketches -/

/-- The parts of a program that hold others. -/
inductive Region where
  | block
  | function
  | classDecl
  | initializer (name : Token)

/-- Declarations in the region are local to it. -/
def Region.isScope : Region → Bool
  | initializer _ => false
  | _ => true

/-- What a program says that its scope rules speak of. -/
inductive Sketch where
  | declares (name : Token)
  | reads (name : Token)
  | receives (keyword : Token)
  | returns (keyword : Token)
  | inherits (name superclass : Token)
  | within (region : Region) (inner : List Sketch)

namespace Expr

mutual

/-- The reads and receivers of an expression; to assign is not to read. -/
def sketch : Expr → List Sketch
  | literal _ => []
  | grouping inner => sketch inner
  | unary _ operand => sketch operand
  | binary left _ right => sketch left ++ sketch right
  | logical left _ right => sketch left ++ sketch right
  | name _ token => [.reads token]
  | assign _ _ value => sketch value
  | receiver _ keyword => [.receives keyword]
  | call callee _ arguments => sketch callee ++ sketchAll arguments
  | get object _ => sketch object
  | set object _ value => sketch object ++ sketch value

def sketchAll : List Expr → List Sketch
  | [] => []
  | value :: values => sketch value ++ sketchAll values

end

def sketchOption : Option Expr → List Sketch
  | none => []
  | some value => value.sketch

end Expr

/-- A class inherits from the class that its superclass names. -/
def Sketch.inheritance (name : Token) : Option Expr → List Sketch
  | some (.name _ superclass) => [.inherits name superclass]
  | _ => []

mutual

/-- A function is one region, with its parameters first. -/
def FunctionDecl.sketch : FunctionDecl → Sketch
  | .mk _ parameters body =>
    .within .function (parameters.map .declares ++ Stmt.sketchAll body)

/-- The regions of methods. -/
def FunctionDecl.sketchAll : List FunctionDecl → List Sketch
  | [] => []
  | method :: methods => method.sketch :: FunctionDecl.sketchAll methods

/--
The sketch of a statement.  A variable is declared before its initializer, a
function or class before what it holds.  The superclass stands with the methods;
where a program is read from a text it is a name, so no receiver is in it.
-/
def Stmt.sketch : Stmt → List Sketch
  | .expression value => value.sketch
  | .print value => value.sketch
  | .varDecl name initial =>
    [.declares name, .within (.initializer name) (Expr.sketchOption initial)]
  | .block body => [.within .block (Stmt.sketchAll body)]
  | .ifElse condition yes none => condition.sketch ++ yes.sketch
  | .ifElse condition yes (some no) =>
    condition.sketch ++ yes.sketch ++ no.sketch
  | .whileLoop condition body => condition.sketch ++ body.sketch
  | .funDecl declaration => [.declares declaration.name, declaration.sketch]
  | .returnValue keyword value => .returns keyword :: Expr.sketchOption value
  | .classDecl name superclass methods =>
    [.declares name,
      .within .classDecl (Sketch.inheritance name superclass ++
        Expr.sketchOption superclass ++ FunctionDecl.sketchAll methods)]

def Stmt.sketchAll : List Stmt → List Sketch
  | [] => []
  | statement :: statements =>
    statement.sketch ++ Stmt.sketchAll statements

end

/-! ## Spots and the rules for them -/

/-- An item of a program and what surrounds it. -/
structure Spot where
  /-- The regions around the item, innermost first. -/
  regions : List Region
  /-- What stands to the left of the item in the innermost region. -/
  before : List Sketch
  item : Sketch

namespace Sketch

mutual

/-- The spots in an item. -/
def spots (regions : List Region) (before : List Sketch) :
    Sketch → List Spot
  | within region inner => spotsAll (region :: regions) [] inner
  | item => [⟨regions, before, item⟩]

/-- The spots in items, in their order. -/
def spotsAll (regions : List Region) (before : List Sketch) :
    List Sketch → List Spot
  | [] => []
  | item :: items =>
    spots regions before item ++ spotsAll regions (before ++ [item]) items

end

theorem spotsAll_append (regions : List Region) (before items others : List Sketch) :
    spotsAll regions before (items ++ others) = spotsAll regions before items ++
        spotsAll regions (before ++ items) others := by
  induction items generalizing before with
  | nil => rw [nil_append, append_nil, spotsAll, nil_append]
  | cons item items ih =>
    rw [cons_append, spotsAll, spotsAll, ih,
      append_assoc, append_assoc, singleton_append]

theorem spotsAll_singleton (regions : List Region) (before : List Sketch) (item : Sketch) :
    spotsAll regions before [item] = spots regions before item := by
  rw [spotsAll, spotsAll, append_nil]

end Sketch

/-- The spots of a program, in the order of its text. -/
def Program.spots (program : Program) : List Spot :=
  Sketch.spotsAll [] [] (Stmt.sketchAll program)

/-- The scope rules: which spots break one, and which rule it is. -/
inductive Spot.Breaks : Spot → ScopingError → Prop where
  /-- A local scope declares a name that it has declared before. -/
  | redeclared {scope regions before name earlier} (inScope : scope.isScope = true)
      (declared : Sketch.declares earlier ∈ before) (same : earlier.lexeme = name.lexeme) :
      Breaks ⟨scope :: regions, before, .declares name⟩ ⟨.redeclared, name⟩
  /-- A local variable is read in its own initializer. -/
  | ownInitializer {regions outer before name declared scope}
      (inside : Region.initializer declared :: outer <:+ regions)
      (same : declared.lexeme = name.lexeme)
      (around : scope ∈ outer) (isScope : scope.isScope = true) :
      Breaks ⟨regions, before, .reads name⟩ ⟨.ownInitializer, name⟩
  /-- A value is returned outside every function and method. -/
  | returnOutsideFunction {regions before keyword} (outside : Region.function ∉ regions) :
      Breaks ⟨regions, before, .returns keyword⟩ ⟨.returnOutsideFunction, keyword⟩
  /-- The receiver is used outside every class. -/
  | receiverOutsideClass {regions before keyword} (outside : Region.classDecl ∉ regions) :
      Breaks ⟨regions, before, .receives keyword⟩ ⟨.receiverOutsideClass, keyword⟩
  /-- A class names itself as its superclass. -/
  | ownSuperclass {regions before name superclass} (same : superclass.lexeme = name.lexeme) :
      Breaks ⟨regions, before, .inherits name superclass⟩ ⟨.ownSuperclass, superclass⟩

/-- A spot breaks one rule at most. -/
theorem Spot.Breaks.unique {spot : Spot} {error other : ScopingError}
    (breaks : spot.Breaks error) (again : spot.Breaks other) : error = other := by
  cases breaks <;> cases again <;> rfl

/-- The rules that are broken, spot by spot, and nothing else. -/
inductive Broken : List Spot → List ScopingError → Prop where
  | nil : Broken [] []
  | breaks {spot spots error errors} (breaks : spot.Breaks error) (rest : Broken spots errors) :
      Broken (spot :: spots) (error :: errors)
  | keeps {spot spots errors} (keeps : ∀ error, ¬spot.Breaks error)
      (rest : Broken spots errors) : Broken (spot :: spots) errors

namespace Broken

section

variable {spots : List Spot} {errors : List ScopingError} (broken : Broken spots errors)

include broken

theorem append {others : List Spot} {further : List ScopingError} (rest : Broken others further) :
    Broken (spots ++ others) (errors ++ further) := by
  induction broken with
  | nil => exact rest
  | breaks broken _ ih => exact .breaks broken ih
  | keeps kept _ ih => exact .keeps kept ih

theorem unique {others : List ScopingError} (again : Broken spots others) : errors = others := by
  induction broken generalizing others with
  | nil =>
    cases again
    rfl
  | breaks broken _ ih =>
    cases again with
    | breaks broken' rest => rw [broken.unique broken', ih rest]
    | keeps kept _ => exact absurd broken (kept _)
  | keeps kept _ ih =>
    cases again with
    | breaks broken _ => exact absurd broken (kept _)
    | keeps _ rest => exact ih rest

/-- Nothing is listed exactly if no spot breaks a rule. -/
theorem eq_nil_iff : errors = [] ↔ ∀ spot ∈ spots, ∀ error, ¬spot.Breaks error := by
  induction broken with
  | nil => simp
  | @breaks spot spots error errors breaks _ _ =>
    refine ⟨fun impossible => absurd impossible (cons_ne_nil _ _), fun unbroken => ?_⟩
    exact absurd breaks (unbroken spot mem_cons_self error)
  | keeps kept _ ih =>
    rw [ih, forall_mem_cons]
    exact ⟨fun others => ⟨kept, others⟩, And.right⟩

end

theorem errorIf {spot : Spot} {fault : ScopingFault} {token : Token} {cond : Bool}
    (breaks : cond = true → spot.Breaks ⟨fault, token⟩)
    (holds : ∀ error, spot.Breaks error → cond = true) :
    Broken [spot] (Findings.errorIf cond fault token).errors := by
  cases cond with
  | true => exact .breaks (breaks rfl) .nil
  | false =>
    refine .keeps (fun error breaks => ?_) .nil
    exact absurd (holds error breaks) Bool.false_ne_true

/-- The rule is to stand inside something, as a flag says. -/
theorem errorUnless {spot : Spot} {fault : ScopingFault} {token : Token}
    {flag : Bool} {inside : Prop} (flagged : flag = true ↔ inside)
    (breaks : ¬inside → spot.Breaks ⟨fault, token⟩) (holds : ∀ error, spot.Breaks error → ¬inside) :
    Broken [spot] (Findings.errorIf (!flag) fault token).errors := by
  have outside : (!flag) = true ↔ ¬inside := by
    rw [Bool.not_eq_true', ← Bool.not_eq_true, flagged]
  exact errorIf (fun unflagged => breaks (outside.mp unflagged))
    (fun error broken => outside.mpr (holds error broken))

end Broken

theorem Scoping.errors_append (findings others : Findings) :
    (findings ++ others).errors = findings.errors ++ others.errors :=
  rfl

theorem Scoping.errors_occurrence (ctx : Context) (id : ExprId)
    (name : String) : (Findings.occurrence ctx id name).errors = [] := by
  unfold Findings.occurrence
  split <;> rfl

variable {ctx : Context} {regions : List Region}

namespace Scoping.Context

/-! ## Expressions -/

/-- What the context of an expression has of the regions around it. -/
structure Sees (context : Context) (regions : List Region) : Prop where
  awaits : ∀ name, context.awaits name = true ↔
    ∃ declared outer, .initializer declared :: outer <:+ regions ∧
      declared.lexeme = name ∧ ∃ scope ∈ outer, scope.isScope = true
  inClass : context.inClass = true ↔ .classDecl ∈ regions

/-- A read is refused in its own initial value only. -/
theorem Sees.broken_reads (sees : ctx.Sees regions) (before : List Sketch) (name : Token) :
    Broken [⟨regions, before, .reads name⟩]
      (Findings.errorIf (ctx.awaits name.lexeme) .ownInitializer name).errors := by
  refine .errorIf (fun awaited => ?_) ?_
  · rcases (sees.awaits name.lexeme).mp awaited with
      ⟨declared, outer, inside, same, scope, around, isScope⟩
    exact .ownInitializer inside same around isScope
  · rintro _ (_ | ⟨inside, same, around, isScope⟩)
    exact (sees.awaits name.lexeme).mpr ⟨_, _, inside, same, _, around, isScope⟩

theorem Sees.broken_receives (sees : ctx.Sees regions) (before : List Sketch) (keyword : Token) :
    Broken [⟨regions, before, .receives keyword⟩]
      (Findings.errorIf (!ctx.inClass) .receiverOutsideClass keyword).errors := by
  refine .errorUnless sees.inClass .receiverOutsideClass ?_
  rintro _ ⟨⟩
  next outside => exact outside

end Scoping.Context

namespace Scoping

open Sketch

mutual

/-- In an expression, the analysis finds the reads and receivers at fault. -/
theorem broken_ofExpr : ∀ (value : Expr) {ctx : Context}
    {regions : List Region}, ctx.Sees regions → ∀ before,
      Broken (spotsAll regions before value.sketch) (ofExpr ctx value).errors
  | .literal _, _, _, _, _ => .nil
  | .grouping inner, _, _, sees, before | .unary _ inner, _, _, sees, before
  | .get inner _, _, _, sees, before => broken_ofExpr inner sees before
  | .binary left _ right, _, _, sees, before | .logical left _ right, _, _, sees, before
  | .set left _ right, _, _, sees, before => by
    rw [ofExpr, Expr.sketch, spotsAll_append]
    exact (broken_ofExpr left sees before).append (broken_ofExpr right sees _)
  | .name id token, _, _, sees, before => by
    rw [ofExpr, errors_append, errors_occurrence, append_nil]
    exact sees.broken_reads before token
  | .assign id target value, _, _, sees, before => by
    rw [ofExpr, errors_append, errors_occurrence, append_nil]
    exact broken_ofExpr value sees before
  | .receiver id keyword, ctx, _, sees, before => by
    have broken := sees.broken_receives before keyword
    rw [ofExpr]
    cases inClass : ctx.inClass with
    | true =>
      rw [inClass] at broken
      rw [if_pos rfl, errors_occurrence]
      exact broken
    | false =>
      rw [inClass] at broken
      exact broken
  | .call callee _ args, _, _, sees, before => by
    rw [ofExpr, Expr.sketch, spotsAll_append]
    exact (broken_ofExpr callee sees before).append (broken_ofExprs args sees _)

theorem broken_ofExprs : ∀ (values : List Expr) {ctx : Context}
    {regions : List Region}, ctx.Sees regions → ∀ before,
      Broken (spotsAll regions before (Expr.sketchAll values)) (ofExprs ctx values).errors
  | [], _, _, _, _ => .nil
  | value :: values, _, _, sees, before => by
    rw [ofExprs, Expr.sketchAll, spotsAll_append]
    exact (broken_ofExpr value sees before).append (broken_ofExprs values sees _)

end

theorem broken_ofOption (value : Option Expr) (sees : ctx.Sees regions) (before : List Sketch) :
    Broken (spotsAll regions before (Expr.sketchOption value)) (ofOption ctx value).errors := by
  cases value with
  | none => exact .nil
  | some value => exact broken_ofExpr value sees before

theorem broken_inheritsItself (regions : List Region) (before : List Sketch)
    (name : Token) (superclass : Option Expr) :
    Broken (spotsAll regions before (inheritance name superclass))
      (inheritsItself name superclass).errors := by
  rcases superclass with _ | value
  · exact .nil
  cases value with
  | name id superName =>
    refine .errorIf (fun same => .ownSuperclass (by simpa using same)) ?_
    rintro _ ⟨⟩
    next same => simpa using same
  | _ => exact .nil

end Scoping

variable {before : List Sketch}

/-! ## Local scopes -/

namespace Scoping.Context

/-- Every region around a statement is a local scope of its context. -/
structure Nested (context : Context) (regions : List Region) : Prop where
  isScope : ∀ region ∈ regions, region.isScope = true
  depth : context.scopes.length = regions.length

/-- The context of a statement agrees with the regions around it. -/
structure Agrees (context : Context) (regions : List Region) : Prop
    extends context.Nested regions where
  settled : context.Settled
  inFunction : context.inFunction = true ↔ .function ∈ regions
  inClass : context.inClass = true ↔ .classDecl ∈ regions

/-- The innermost local scope, if any, declares the names to the left. -/
def Knows (context : Context) (before : List Sketch) : Prop :=
  context.scopes ≠ [] → ∀ name, context.declaresInnermost name = true ↔
    ∃ earlier, .declares earlier ∈ before ∧ earlier.lexeme = name

section

variable (nested : ctx.Nested regions)

include nested

theorem Nested.scopes_eq_nil_iff : ctx.scopes = [] ↔ regions = [] := by
  rw [← length_eq_zero_iff, nested.depth, length_eq_zero_iff]

/-- No statement stands in an initializer. -/
theorem Nested.not_in_initializer {name : Token} {outer : List Region} :
    ¬.initializer name :: outer <:+ regions := by
  intro inside
  have isScope := nested.isScope _ (inside.subset mem_cons_self)
  exact absurd isScope Bool.false_ne_true

theorem Nested.mark (name : String) (readable : Bool) : (ctx.mark name readable).Nested regions :=
  ⟨nested.isScope, (ctx.length_scopes_mark name readable).trans nested.depth⟩

theorem Nested.enter (region : Region) (isScope : region.isScope = true) (scope : LocalScope) :
    (ctx.enter scope).Nested (region :: regions) where
  isScope := forall_mem_cons.mpr ⟨isScope, nested.isScope⟩
  depth := congrArg Nat.succ nested.depth

end

/-- An expression outside all initializers reads no awaited name. -/
theorem Agrees.sees (agrees : ctx.Agrees regions) : ctx.Sees regions where
  awaits name := by
    rw [agrees.settled.awaits name]
    refine ⟨fun impossible => absurd impossible Bool.false_ne_true, ?_⟩
    rintro ⟨declared, outer, inside, _⟩
    exact absurd inside agrees.not_in_initializer
  inClass := agrees.inClass

theorem awaits_declare (settled : ctx.Settled) (name : Token) (other : String) :
    (ctx.declare name).awaits other = true ↔ name.lexeme = other ∧ ctx.scopes ≠ [] := by
  have others := settled.awaits other
  rcases ctx with ⟨scopes, inFunction, inClass⟩
  cases scopes with
  | nil => simp [declare, Context.mark, awaits]
  | cons scope outer =>
    simp only [awaits] at others
    by_cases same : other = name.lexeme
    · simp [declare, Context.mark, awaits, same]
    · have differs : (other == name.lexeme) = false := by simpa using same
      simp only [declare, Context.mark, awaits, lookup_cons, differs, others]
      simp [Ne.symm same]

theorem Agrees.sees_initializer (agrees : ctx.Agrees regions) (name : Token) :
    (ctx.declare name).Sees (.initializer name :: regions) where
  awaits other := by
    rw [awaits_declare agrees.settled, Ne, agrees.scopes_eq_nil_iff]
    constructor
    · rintro ⟨same, isLocal⟩
      rcases exists_mem_of_ne_nil regions isLocal with ⟨scope, around⟩
      exact ⟨name, regions, suffix_refl _, same, scope, around, agrees.isScope scope around⟩
    · rintro ⟨declared, outer, inside, same, scope, around, _⟩
      -- A variable is a statement, so no other initializer is around.
      rcases suffix_cons_iff.mp inside with own | further
      · cases own
        exact ⟨same, ne_nil_of_mem around⟩
      · exact absurd further agrees.not_in_initializer
  inClass := by
    rw [declare, Context.inClass_mark, agrees.inClass]
    simp

/-- A declaration is refused if its scope has the name. -/
theorem broken_declares (nested : ctx.Nested regions) (knows : ctx.Knows before) (name : Token) :
    Broken [⟨regions, before, .declares name⟩] (Findings.redeclaration ctx name).errors := by
  refine .errorIf (fun declares => ?_) ?_
  · have inScope : ctx.scopes ≠ [] := by
      intro outermost
      simp [declaresInnermost, outermost] at declares
    rcases (knows inScope name.lexeme).mp declares with ⟨earlier, declared, same⟩
    rw [Ne, nested.scopes_eq_nil_iff] at inScope
    rcases exists_cons_of_ne_nil inScope with ⟨scope, outer, rfl⟩
    exact .redeclared (nested.isScope scope mem_cons_self) declared same
  · rintro _ ⟨⟩
    next scope outer earlier _ declared same =>
    have inScope : ctx.scopes ≠ [] := by
      rw [Ne, nested.scopes_eq_nil_iff]
      exact cons_ne_nil scope outer
    exact (knows inScope name.lexeme).mpr ⟨earlier, declared, same⟩

end Scoping.Context

/-- None of the items is a declaration. -/
def Sketch.DeclareNothing (items : List Sketch) : Prop :=
  ∀ name, .declares name ∉ items

section

open Sketch

theorem Sketch.DeclareNothing.append {items others : List Sketch}
    (nothing : DeclareNothing items) (further : DeclareNothing others) :
    DeclareNothing (items ++ others) := by
  intro name mem
  rcases mem_append.mp mem with first | second
  · exact nothing name first
  · exact further name second

theorem Sketch.declareNothing_nil : DeclareNothing [] :=
  fun _ => not_mem_nil

mutual

theorem Expr.sketch_declareNothing : ∀ value : Expr, DeclareNothing value.sketch
  | .literal _ => declareNothing_nil
  | .grouping inner | .unary _ inner | .assign _ _ inner | .get inner _ =>
    inner.sketch_declareNothing
  | .binary left _ right | .logical left _ right | .set left _ right =>
    left.sketch_declareNothing.append right.sketch_declareNothing
  | .name _ _ | .receiver _ _ => by simp [DeclareNothing, Expr.sketch]
  | .call callee _ args => callee.sketch_declareNothing.append (Expr.sketchAll_declareNothing args)

theorem Expr.sketchAll_declareNothing : ∀ values : List Expr, DeclareNothing (Expr.sketchAll values)
  | [] => declareNothing_nil
  | value :: values => value.sketch_declareNothing.append (Expr.sketchAll_declareNothing values)

end

theorem Expr.sketchOption_declareNothing (value : Option Expr) :
    DeclareNothing (Expr.sketchOption value) := by
  cases value with
  | none => exact declareNothing_nil
  | some value => exact value.sketch_declareNothing

theorem Sketch.declareNothing_within (region : Region)
    (inner : List Sketch) : DeclareNothing [within region inner] := by
  simp [DeclareNothing]

theorem FunctionDecl.sketch_declareNothing (decl : FunctionDecl) :
    DeclareNothing [decl.sketch] := by
  cases decl
  exact declareNothing_within _ _

end

namespace Scoping.Context

open Sketch

theorem Knows.extend (knows : ctx.Knows before) {items : List Sketch}
    (nothing : DeclareNothing items) : ctx.Knows (before ++ items) := by
  intro inScope name
  rw [knows inScope name]
  constructor
  · rintro ⟨earlier, declared, same⟩
    exact ⟨earlier, mem_append_left _ declared, same⟩
  · rintro ⟨earlier, declared, same⟩
    rcases mem_append.mp declared with left | right
    · exact ⟨earlier, left, same⟩
    · exact absurd right (nothing earlier)

/-- Marking a name makes it known. -/
theorem Knows.mark (knows : ctx.Knows before) (name : Token) (readable : Bool) :
    (ctx.mark name.lexeme readable).Knows (before ++ [.declares name]) := by
  rcases ctx with ⟨scopes, inFunction, inClass⟩
  cases scopes with
  | nil => exact fun outermost => absurd rfl outermost
  | cons scope outer =>
    intro _ other
    have known := knows (cons_ne_nil _ _) other
    simp only [declaresInnermost] at known
    simp only [Context.mark, declaresInnermost, lookup_cons,
      mem_append, mem_singleton, or_and_right, exists_or,
      Sketch.declares.injEq, exists_eq_left]
    rw [← known]
    by_cases same : other = name.lexeme
    · simp [same]
    · have differs : (other == name.lexeme) = false := by simpa using same
      simp [differs, Ne.symm same]

theorem knows_enter (ctx : Context) : (ctx.enter []).Knows [] := by
  intro _ name
  simp [enter, declaresInnermost]

theorem Knows.foldl_define (knows : ctx.Knows before) (params : List Token) :
    (params.foldl Context.define ctx).Knows (before ++ params.map .declares) := by
  induction params generalizing ctx before with
  | nil => rwa [map_nil, append_nil]
  | cons parameter params ih =>
    have rest := ih (knows.mark parameter true)
    rwa [append_assoc] at rest

/-- After a statement, the names that it declares stand to the left. -/
theorem Knows.after : ∀ (stmt : Stmt) {ctx : Context} {before : List Sketch}, ctx.Knows before →
      (ctx.after stmt).Knows (before ++ stmt.sketch)
  | .expression value, _, _, knows | .print value, _, _, knows =>
    knows.extend value.sketch_declareNothing
  | .varDecl name initial, _, _, knows => by
    have declared := (knows.mark name true).extend
      (declareNothing_within (.initializer name) (Expr.sketchOption initial))
    rwa [append_assoc] at declared
  | .block body, _, _, knows => knows.extend (declareNothing_within _ _)
  | .ifElse cond yes none, _, _, knows => by
    have chosen := after yes (knows.extend cond.sketch_declareNothing)
    rwa [append_assoc] at chosen
  | .ifElse cond yes (some no), _, _, knows => by
    have chosen := after no (after yes (knows.extend cond.sketch_declareNothing))
    rwa [append_assoc, append_assoc, ← append_assoc cond.sketch] at chosen
  | .whileLoop cond body, _, _, knows => by
    have repeated := after body (knows.extend cond.sketch_declareNothing)
    rwa [append_assoc] at repeated
  | .funDecl decl, _, _, knows => by
    have declared := (knows.mark decl.name true).extend decl.sketch_declareNothing
    rwa [append_assoc] at declared
  | .returnValue keyword value, _, _, knows => by
    have returned : DeclareNothing [.returns keyword] := by
      simp [DeclareNothing]
    exact knows.extend (returned.append (Expr.sketchOption_declareNothing value))
  | .classDecl name superclass methods, _, _, knows => by
    have declared := (knows.mark name true).extend
      (declareNothing_within .classDecl (inheritance name superclass ++
        Expr.sketchOption superclass ++ FunctionDecl.sketchAll methods))
    rwa [append_assoc] at declared

section

variable (agrees : ctx.Agrees regions)

include agrees

theorem Agrees.define (name : Token) : (ctx.define name).Agrees regions where
  toNested := agrees.toNested.mark name.lexeme true
  settled := agrees.settled.define name
  inFunction := by
    rw [← agrees.inFunction, Context.define, Context.mark]
    split <;> rfl
  inClass := by
    rw [← agrees.inClass, Context.define, Context.inClass_mark]

theorem Agrees.after (stmt : Stmt) : (ctx.after stmt).Agrees regions :=
  after_of_define (Agrees · regions) agrees (fun _ name agrees => agrees.define name) stmt

theorem Agrees.enter : (ctx.enter []).Agrees (.block :: regions) where
  toNested := agrees.toNested.enter .block rfl []
  settled := agrees.settled.enter
  inFunction := by simpa [Context.enter] using agrees.inFunction
  inClass := by simpa [Context.enter] using agrees.inClass

theorem Agrees.inBody (params : List Token) :
    (ctx.inBody params).Agrees (.function :: regions) := by
  have nested := agrees.toNested.enter .function rfl []
  have entered : Agrees { ctx.enter [] with inFunction := true } (.function :: regions) :=
    { toNested := ⟨nested.isScope, nested.depth⟩
      settled := agrees.settled.enter
      inFunction := by simp
      inClass := by simpa [Context.enter] using agrees.inClass }
  unfold Context.inBody
  generalize ({ ctx.enter [] with inFunction := true } : Context) = inner at entered
  induction params generalizing inner with
  | nil => exact entered
  | cons name names ih => exact ih (inner.define name) (entered.define name)

theorem Agrees.sees_superclass (name : Token) : (ctx.named name).Sees (.classDecl :: regions) where
  awaits other := by
    rw [(agrees.settled.named name).awaits other]
    refine ⟨fun impossible => absurd impossible Bool.false_ne_true, ?_⟩
    rintro ⟨declared, outer, inside, _⟩
    rcases suffix_cons_iff.mp inside with differs | further
    · cases differs
    · exact absurd further agrees.not_in_initializer
  inClass := by simp [Context.named]

theorem Agrees.enter_receiver (name : Token) :
    ((ctx.named name).enter [("this", true)]).Agrees (.classDecl :: regions) := by
  have defined := agrees.define name
  have nested := defined.toNested.enter .classDecl rfl [("this", true)]
  exact {
    toNested := ⟨nested.isScope, nested.depth⟩
    settled := (agrees.settled.named name).enter_receiver
    inFunction := by
      simpa [Context.named, Context.enter] using defined.inFunction
    inClass := by simp [Context.named, Context.enter] }

end

end Scoping.Context

/-! ## Statements -/

namespace Scoping

open Sketch

theorem broken_ofParameters (nested : ctx.Nested regions)
    (knows : ctx.Knows before) (params : List Token) :
    Broken (spotsAll regions before (params.map .declares)) (ofParameters ctx params).errors := by
  induction params generalizing ctx before with
  | nil => exact .nil
  | cons name names ih =>
    exact (broken_declares nested knows name).append
      (ih (nested.mark name.lexeme true) (knows.mark name true))

/-- A return is refused outside functions. -/
theorem broken_returns (agrees : ctx.Agrees regions) (before : List Sketch) (keyword : Token) :
    Broken [⟨regions, before, .returns keyword⟩]
      (Findings.errorIf (!ctx.inFunction) .returnOutsideFunction keyword).errors := by
  refine .errorUnless agrees.inFunction .returnOutsideFunction ?_
  rintro _ ⟨⟩
  next outside => exact outside

mutual

theorem broken_ofFunction : ∀ (decl : FunctionDecl)
    {ctx : Context} {regions : List Region}, ctx.Agrees regions →
      ∀ before, Broken (spots regions before decl.sketch) (ofFunction ctx decl).errors
  | .mk _ params body, ctx, regions, agrees, before => by
    have declared := broken_ofParameters
      (agrees.toNested.enter .function rfl []) ctx.knows_enter params
    have entered : Context.Knows { ctx.enter [] with inFunction := true } [] :=
      ctx.knows_enter
    rw [ofFunction, FunctionDecl.sketch, spots, spotsAll_append]
    exact declared.append (broken_ofStmts body (agrees.inBody params)
      (entered.foldl_define params))

theorem broken_ofMethods : ∀ (methods : List FunctionDecl)
    {ctx : Context} {regions : List Region}, ctx.Agrees regions → ∀ before, Broken
        (spotsAll regions before (FunctionDecl.sketchAll methods))
        (ofMethods ctx methods).errors
  | [], _, _, _, _ => .nil
  | method :: methods, _, _, agrees, before => by
    rw [ofMethods, FunctionDecl.sketchAll, spotsAll]
    exact (broken_ofFunction method agrees before).append (broken_ofMethods methods agrees _)

/-- In a statement, the analysis finds the spots that break a rule. -/
theorem broken_ofStmt : ∀ (stmt : Stmt) {ctx : Context}
    {regions : List Region} {before : List Sketch}, ctx.Agrees regions → ctx.Knows before →
        Broken (spotsAll regions before stmt.sketch) (ofStmt ctx stmt).errors
  | .expression value, _, _, before, agrees, _ | .print value, _, _, before, agrees, _ =>
    broken_ofExpr value agrees.sees before
  | .varDecl name initial, _, _, _, agrees, knows => by
    have initialized := broken_ofOption initial (agrees.sees_initializer name) []
    rw [ofStmt, Stmt.sketch, spotsAll, spotsAll_singleton, spots]
    exact (broken_declares agrees.toNested knows name).append initialized
  | .block body, ctx, _, _, agrees, _ => by
    rw [ofStmt, Stmt.sketch, spotsAll_singleton, spots]
    exact broken_ofStmts body agrees.enter ctx.knows_enter
  | .ifElse cond yes none, _, _, before, agrees, knows
  | .whileLoop cond yes, _, _, before, agrees, knows => by
    rw [ofStmt, Stmt.sketch, spotsAll_append]
    exact (broken_ofExpr cond agrees.sees before).append
      (broken_ofStmt yes agrees (knows.extend cond.sketch_declareNothing))
  | .ifElse cond yes (some no), _, _, before, agrees, knows => by
    have tested := knows.extend cond.sketch_declareNothing
    have otherwise := broken_ofStmt no (agrees.after yes) (tested.after yes)
    rw [append_assoc] at otherwise
    rw [ofStmt, Stmt.sketch, spotsAll_append, spotsAll_append]
    exact ((broken_ofExpr cond agrees.sees before).append
      (broken_ofStmt yes agrees tested)).append otherwise
  | .funDecl decl, _, _, _, agrees, knows => by
    rw [ofStmt, Stmt.sketch, spotsAll, spotsAll_singleton]
    exact (broken_declares agrees.toNested knows
      decl.name).append (broken_ofFunction decl (agrees.define decl.name) _)
  | .returnValue keyword value, _, _, before, agrees, _ => by
    rw [ofStmt, Stmt.sketch, spotsAll]
    exact (broken_returns agrees before keyword).append (broken_ofOption value agrees.sees _)
  | .classDecl name superclass methods, ctx, regions, before, agrees, knows => by
    have declared := broken_declares agrees.toNested knows name
    have inherited := broken_inheritsItself (.classDecl :: regions) [] name superclass
    have read := broken_ofOption superclass (agrees.sees_superclass name)
      (inheritance name superclass)
    have held := broken_ofMethods methods (agrees.enter_receiver name)
      (inheritance name superclass ++ Expr.sketchOption superclass)
    rw [ofStmt, Stmt.sketch, spotsAll, spotsAll_singleton, spots,
      spotsAll_append, spotsAll_append]
    simp only [errors_append, append_assoc, nil_append]
    exact declared.append (inherited.append (read.append held))

/-- Statements report the broken spots of their sketch. -/
theorem broken_ofStmts : ∀ (stmts : List Stmt) {ctx : Context}
    {regions : List Region} {before : List Sketch}, ctx.Agrees regions → ctx.Knows before →
        Broken (spotsAll regions before (Stmt.sketchAll stmts)) (ofStmts ctx stmts).errors
  | [], _, _, _, _, _ => .nil
  | stmt :: stmts, _, _, _, agrees, knows => by
    rw [ofStmts, Stmt.sketchAll, spotsAll_append]
    exact (broken_ofStmt stmt agrees knows).append
      (broken_ofStmts stmts (agrees.after stmt) (knows.after stmt))

end

theorem Context.agrees_outermost : outermost.Agrees [] where
  isScope _ inside := absurd inside not_mem_nil
  depth := rfl
  settled := settled_outermost
  inFunction := by simp [outermost]
  inClass := by simp [outermost]

end Scoping

/--
The scoping errors of a program are exactly the scope rules that its spots
break, in the order of its text.  So none is reported if and only if every
spot keeps the rules.
-/
theorem scoping_errors_are_the_broken_rules (program : Program) (machine : Machine) :
    let found := (machine.analyse program).1
    (∀ errors, Broken (Program.spots program) errors ↔ errors = found) ∧
      (found = [] ↔ ∀ spot ∈ Program.spots program, ∀ error, ¬spot.Breaks error) := by
  intro found
  have broken : Broken (Program.spots program) found :=
    broken_ofStmts program agrees_outermost (absurd rfl)
  refine ⟨fun errors => ⟨fun listed => listed.unique broken, ?_⟩, broken.eq_nil_iff⟩
  rintro rfl
  exact broken

end Treewalk
