import Mathlib.Data.List.Forall2
import Treewalk.Proofs.Coverage
import Treewalk.Proofs.Relabelling
import Treewalk.Proofs.Resolution

/-!
# Programs and machines that are alike

Two programs are alike if they differ only in the spelling of local variables,
in the ids of occurrences, and in what a given relation between tokens leaves
open, such as lines.  Every local scope has a renaming of its own.

The second program may also have loops with a counter, marked as such, where
the first one has plain loops.  A step after the body then makes the body a
block, in whose scope nothing is declared: the scope is spare.  Going outwards
in the second program skips spare scopes.

Two machines are alike if their scopes correspond one to one but for the spare
ones, each with its renaming, and hold values that are alike.  A world lists,
for all scopes in the order they were made, the scope that corresponds, and the
renamings of the scope and of the local scopes around it.
-/

namespace Treewalk

/-- A renaming of the names of one scope, which leaves the receiver alone. -/
structure Renaming where
  apply : String → String
  injective : Function.Injective apply
  receiver : apply "this" = "this"
  /-- Only the first one of two programs makes the scope, and it stays empty. -/
  spare : Bool := false

namespace Renaming

instance : CoeFun Renaming fun _ => String → String :=
  ⟨apply⟩

/-- No name is changed. -/
def identity : Renaming :=
  ⟨id, Function.injective_id, rfl, false⟩

/-- The renaming of a spare scope. -/
def unshared : Renaming :=
  { identity with spare := true }

@[simp]
theorem identity_apply (name : String) : identity name = name := rfl

/-- The renaming of the innermost local scope; global names do not change. -/
def innermost (chain : List Renaming) : Renaming :=
  chain.headD identity

/-- The innermost scope is in both programs, and one name there becomes another. -/
def Declares (chain : List Renaming) (name name' : String) : Prop :=
  (innermost chain).spare = false ∧ name' = innermost chain name

/-- How many of the scopes up to a distance are in both programs. -/
def shared (chain : List Renaming) (distance : Nat) : Nat :=
  distance - (chain.take distance).countP spare

theorem shared_cons (layer : Renaming) (chain : List Renaming) (dist : Nat) :
    shared (layer :: chain) (dist + 1) =
      if layer.spare then shared chain dist else shared chain dist + 1 := by
  have bounded : (chain.take dist).countP spare ≤ dist :=
    Nat.le_trans List.countP_le_length (List.length_take_le _ _)
  simp only [shared, List.take_succ_cons, List.countP_cons]
  split <;> omega

/-- Without spare scopes distances are the same. -/
theorem map_shared {chain : List Renaming} (plain : ∀ layer ∈ chain, layer.spare = false)
    (place : Option Nat) : place.map (shared chain) = place := by
  have none_spare (dist : Nat) : (chain.take dist).countP spare = 0 := by
    rw [List.countP_eq_zero]
    intro layer mem
    simp [plain layer (List.mem_of_mem_take mem)]
  cases place with
  | none => rfl
  | some dist => simp [shared, none_spare]

end Renaming

/-- A token that is no variable keeps its kind and its lexeme. -/
structure Token.Fixed (same : Token → Token → Prop) (token token' : Token) :
    Prop where
  same : same token token'
  kind : token'.kind = token.kind
  lexeme : token'.lexeme = token.lexeme

/-! ## Occurrences -/

/--
Which occurrences of two programs correspond, with the distances of both, and
which operators mark a loop with a counter in the second program.
-/
structure Pairing where
  Pairs : ExprId → ExprId → Option Nat → Option Nat → Prop
  marks : Token → Bool

namespace Pairing

/-- Occurrences still correspond after their ids have been shifted. -/
structure Shifts (pairing later : Pairing) (shift shift' : Nat) : Prop where
  pairs : ∀ id id' place place', pairing.Pairs id id' place place' →
    later.Pairs (id + shift) (id' + shift') place place'
  marks : later.marks = pairing.marks

/-- Occurrences that correspond still do so later. -/
def Extends (pairing later : Pairing) : Prop :=
  pairing.Shifts later 0 0

theorem Extends.refl (pairing : Pairing) : pairing.Extends pairing :=
  ⟨fun _ _ _ _ paired => paired, rfl⟩

/-- The distances that two machines have to record. -/
def Recorded (pairing : Pairing) (distances distances' : Distances) : Prop :=
  ∀ id id' place place', pairing.Pairs id id' place place' →
    distances.find? id = place ∧ distances'.find? id' = place'

end Pairing

/-- Occurrences correspond if they are in use; no loop is marked. -/
def Ledger.pairing (ledger ledger' : Ledger) : Pairing where
  Pairs id id' place place' := (id < ledger.bound ∧ ledger.distances.find? id = place) ∧
    id' < ledger'.bound ∧ ledger'.distances.find? id' = place'
  marks _ := false

theorem Ledger.recorded_pairing (ledger ledger' : Ledger) :
    (ledger.pairing ledger').Recorded ledger.distances ledger'.distances :=
  fun _ _ _ _ paired => ⟨paired.1.2, paired.2.2⟩

theorem Ledger.Extends.pairing {ledger ledger' later later' : Ledger}
    (extended : ledger.Extends later) (extended' : ledger'.Extends later') :
    (ledger.pairing ledger').Extends (later.pairing later') := by
  refine ⟨?_, rfl⟩
  rintro id id' place place' ⟨⟨known, recorded⟩, known', recorded'⟩
  exact ⟨⟨Nat.lt_of_lt_of_le known extended.bound_le, (extended.same id known).trans recorded⟩,
    Nat.lt_of_lt_of_le known' extended'.bound_le, (extended'.same id' known').trans recorded'⟩

/-- Occurrences of one ledger. -/
abbrev Ledger.occurrences (ledger : Ledger) : Pairing :=
  ledger.pairing ledger

theorem Ledger.Places.occurrences {ledger : Ledger} {ctx : Scoping.Context}
    {id : ExprId} {name : String} (places : ledger.Places ctx id name) :
    ledger.occurrences.Pairs id id (ctx.distance? name) (ctx.distance? name) :=
  ⟨places, places⟩

/-- Occurrences that correspond are renamed as the scope that they refer to. -/
structure Token.Refers (same : Token → Token → Prop) (pairing : Pairing)
    (chain : List Renaming) (id id' : ExprId) (token token' : Token) :
    Prop where
  same : same token token'
  placed : ∃ place, pairing.Pairs id id' place (place.map (Renaming.shared chain)) ∧
    match place with
    | some distance => ∃ rename, chain[distance]? = some rename ∧ rename.spare = false ∧
        token'.lexeme = rename token.lexeme
    | none => token'.lexeme = token.lexeme

/-- Shifting ids keeps what tokens refer to. -/
theorem Token.Refers.shift {same : Token → Token → Prop}
    {pairing later : Pairing} {shift shift' : Nat}
    (shifts : pairing.Shifts later shift shift') {chain : List Renaming}
    {id id' : ExprId} {token token' : Token}
    (refers : Token.Refers same pairing chain id id' token token') :
    Token.Refers same later chain (id + shift) (id' + shift') token token' := by
  rcases refers with ⟨same, place, paired, renamed⟩
  exact ⟨same, place, shifts.pairs _ _ _ _ paired, renamed⟩

/-! ## Trees -/

namespace Expr

variable (same : Token → Token → Prop) (pairing : Pairing) (chain : List Renaming)

mutual

/-- Expressions that differ in the spelling of variables. -/
inductive Alike : Expr → Expr → Prop where
  | literal (value : Literal) : Alike (.literal value) (.literal value)
  | unary {operator operator' operand operand'} (fixed : Token.Fixed same operator operator')
      (unmarked : pairing.marks operator' = false) (inner : Alike operand operand') :
      Alike (.unary operator operand) (.unary operator' operand')
  | binary {left left' operator operator' right right'} (first : Alike left left')
      (fixed : Token.Fixed same operator operator') (second : Alike right right') :
      Alike (.binary left operator right) (.binary left' operator' right')
  | grouping {operand operand'} (inner : Alike operand operand') :
      Alike (.grouping operand) (.grouping operand')
  | name {id id' token token'} (refers : Token.Refers same pairing chain id id' token token') :
      Alike (.name id token) (.name id' token')
  | assign {id id' target target' value value'} (inner : Alike value value')
      (refers : Token.Refers same pairing chain id id' target target') :
      Alike (.assign id target value) (.assign id' target' value')
  | logical {left left' operator operator' right right'} (first : Alike left left')
      (fixed : Token.Fixed same operator operator') (second : Alike right right') :
      Alike (.logical left operator right) (.logical left' operator' right')
  | call {callee callee' closing closing' arguments arguments'} (called : Alike callee callee')
      (fixed : Token.Fixed same closing closing') (given : AllAlike arguments arguments') :
      Alike (.call callee closing arguments) (.call callee' closing' arguments')
  | get {object object' property property'} (owner : Alike object object')
      (fixed : Token.Fixed same property property') :
      Alike (.get object property) (.get object' property')
  | set {object object' property property' value value'} (owner : Alike object object')
      (fixed : Token.Fixed same property property') (inner : Alike value value') :
      Alike (.set object property value) (.set object' property' value')
  | receiver {id id' keyword keyword'}
      (refers : Token.Refers same pairing chain id id' keyword keyword') :
      Alike (.receiver id keyword) (.receiver id' keyword')

/-- Lists of expressions that are alike one by one. -/
inductive AllAlike : List Expr → List Expr → Prop where
  | nil : AllAlike [] []
  | cons {value value' values values'} (head : Alike value value')
      (tail : AllAlike values values') :
      AllAlike (value :: values) (value' :: values')

end

variable {same} {pairing} {chain} {later : Pairing} {shift shift' : Nat}

section

variable (shifts : pairing.Shifts later shift shift')

include shifts

set_option linter.unusedSectionVars false in
mutual

/-- Expressions stay alike when their ids are shifted. -/
theorem Alike.shift :
    ∀ {value value' : Expr}, value.Alike same pairing chain value' →
      (value.relabel .identity shift).Alike same later chain (value'.relabel .identity shift')
  | _, _, .literal value => .literal value
  | _, _, .unary fixed unmarked inner =>
    .unary fixed (by rw [shifts.marks]; exact unmarked) inner.shift
  | _, _, .binary first fixed second => .binary first.shift fixed second.shift
  | _, _, .grouping inner => .grouping inner.shift
  | _, _, .name refers => .name (refers.shift shifts)
  | _, _, .assign inner refers => .assign inner.shift (refers.shift shifts)
  | _, _, .logical first fixed second => .logical first.shift fixed second.shift
  | _, _, .call called fixed given => .call called.shift fixed given.shift
  | _, _, .get owner fixed => .get owner.shift fixed
  | _, _, .set owner fixed inner => .set owner.shift fixed inner.shift
  | _, _, .receiver refers => .receiver (refers.shift shifts)

theorem AllAlike.shift :
    ∀ {values values' : List Expr}, AllAlike same pairing chain values values' →
      AllAlike same later chain (relabelAll .identity shift values)
        (relabelAll .identity shift' values')
  | _, _, .nil => .nil
  | _, _, .cons head tail => .cons head.shift tail.shift

end

end

end Expr

section

variable (same : Token → Token → Prop) (pairing : Pairing)

mutual

/-- Functions whose parameters and bodies differ in the spelling of variables. -/
inductive FunctionDecl.Alike :
    List Renaming → FunctionDecl → FunctionDecl → Prop where
  | mk {chain name name' parameters parameters' body body'} (rename : Renaming)
      (kept : rename.spare = false) (named : name'.lexeme = name.lexeme)
      (listed : List.Forall₂
        (fun parameter parameter' =>
          parameter'.lexeme = rename parameter.lexeme)
        parameters parameters')
      (executed : Stmt.AllAlike (rename :: chain) body body') :
      FunctionDecl.Alike chain (.mk name parameters body) (.mk name' parameters' body')

/-- Lists of functions that are alike one by one. -/
inductive FunctionDecl.AllAlike :
    List Renaming → List FunctionDecl → List FunctionDecl → Prop where
  | nil {chain} : FunctionDecl.AllAlike chain [] []
  | cons {chain method method' methods methods'} (head : FunctionDecl.Alike chain method method')
      (tail : FunctionDecl.AllAlike chain methods methods') :
      FunctionDecl.AllAlike chain (method :: methods) (method' :: methods')

/-- Statements that differ in the spelling of variables. -/
inductive Stmt.Alike : List Renaming → Stmt → Stmt → Prop where
  | expression {chain value value'} (inner : Expr.Alike same pairing chain value value') :
      Stmt.Alike chain (.expression value) (.expression value')
  | print {chain value value'} (inner : Expr.Alike same pairing chain value value') :
      Stmt.Alike chain (.print value) (.print value')
  | varPlain {chain name name'} (declared : Renaming.Declares chain name.lexeme name'.lexeme) :
      Stmt.Alike chain (.varDecl name none) (.varDecl name' none)
  | varInitial {chain name name' initial initial'}
      (declared : Renaming.Declares chain name.lexeme name'.lexeme)
      (inner : Expr.Alike same pairing chain initial initial') :
      Stmt.Alike chain (.varDecl name (some initial)) (.varDecl name' (some initial'))
  | block {chain body body'} (rename : Renaming) (kept : rename.spare = false)
      (inner : Stmt.AllAlike (rename :: chain) body body') :
      Stmt.Alike chain (.block body) (.block body')
  | ifThen {chain condition condition' yes yes'}
      (tested : Expr.Alike same pairing chain condition condition')
      (chosen : Stmt.Alike chain yes yes') :
      Stmt.Alike chain (.ifElse condition yes none) (.ifElse condition' yes' none)
  | ifElse {chain condition condition' yes yes' no no'}
      (tested : Expr.Alike same pairing chain condition condition')
      (chosen : Stmt.Alike chain yes yes') (otherwise : Stmt.Alike chain no no') :
      Stmt.Alike chain (.ifElse condition yes (some no)) (.ifElse condition' yes' (some no'))
  | whileLoop {chain condition condition' body body'}
      (tested : Expr.Alike same pairing chain condition condition')
      (repeated : Stmt.Alike chain body body') :
      Stmt.Alike chain (.whileLoop condition body) (.whileLoop condition' body')
  | countedLoop {chain operator condition condition' body body'}
      (marked : pairing.marks operator = true)
      (tested : Expr.Alike same pairing chain condition condition')
      (repeated : Stmt.Alike chain body body') :
      Stmt.Alike chain (.whileLoop condition body) (.ifElse (.unary operator condition') body' none)
  | steppedLoop {chain operator condition condition' body body' step step'}
      (marked : pairing.marks operator = true)
      (tested : Expr.Alike same pairing chain condition condition')
      (repeated : Stmt.AllAlike (.unshared :: chain) [body, step] [body', step']) :
      Stmt.Alike chain (.whileLoop condition (.block [body, step]))
        (.ifElse (.unary operator condition') body' (some step'))
  | funDecl {chain declaration declaration'}
      (declared : Renaming.Declares chain declaration.name.lexeme declaration'.name.lexeme)
      (inner : FunctionDecl.Alike chain declaration declaration') :
      Stmt.Alike chain (.funDecl declaration) (.funDecl declaration')
  | returnPlain {chain} (keyword keyword' : Token) :
      Stmt.Alike chain (.returnValue keyword none) (.returnValue keyword' none)
  | returnValue {chain value value'} (keyword keyword' : Token)
      (inner : Expr.Alike same pairing chain value value') :
      Stmt.Alike chain (.returnValue keyword (some value)) (.returnValue keyword' (some value'))
  | classPlain {chain name name' methods methods'} (fixed : Token.Fixed same name name')
      (declared : Renaming.Declares chain name.lexeme name'.lexeme)
      (inner : FunctionDecl.AllAlike (.identity :: chain) methods methods') :
      Stmt.Alike chain (.classDecl name none methods) (.classDecl name' none methods')
  | classExtending {chain name name' superclass superclass' methods methods'}
      (fixed : Token.Fixed same name name')
      (declared : Renaming.Declares chain name.lexeme name'.lexeme)
      (extended : Expr.Alike same pairing chain superclass superclass')
      (inner : FunctionDecl.AllAlike (.identity :: chain) methods methods') :
      Stmt.Alike chain (.classDecl name (some superclass) methods)
        (.classDecl name' (some superclass') methods')

/-- Lists of statements that are alike one by one. -/
inductive Stmt.AllAlike : List Renaming → List Stmt → List Stmt → Prop where
  | nil {chain} : Stmt.AllAlike chain [] []
  | cons {chain statement statement' statements statements'}
      (head : Stmt.Alike chain statement statement')
      (tail : Stmt.AllAlike chain statements statements') :
      Stmt.AllAlike chain (statement :: statements) (statement' :: statements')

end

variable {same} {pairing} {later : Pairing} {shift shift' : Nat}

section

variable (shifts : pairing.Shifts later shift shift')

include shifts

set_option linter.unusedSectionVars false in
mutual

theorem FunctionDecl.Alike.shift :
    ∀ {chain : List Renaming} {decl decl' : FunctionDecl},
      FunctionDecl.Alike same pairing chain decl decl' →
        FunctionDecl.Alike same later chain (decl.relabel .identity shift)
          (decl'.relabel .identity shift')
  | _, _, _, .mk rename kept named listed executed => by
    rw [FunctionDecl.relabel, FunctionDecl.relabel,
      Relabelling.map_identity, Relabelling.map_identity]
    exact .mk rename kept named listed executed.shift

theorem FunctionDecl.AllAlike.shift :
    ∀ {chain : List Renaming} {methods methods' : List FunctionDecl},
      FunctionDecl.AllAlike same pairing chain methods methods' →
        FunctionDecl.AllAlike same later chain (FunctionDecl.relabelAll .identity shift methods)
          (FunctionDecl.relabelAll .identity shift' methods')
  | _, _, _, .nil => .nil
  | _, _, _, .cons head tail => .cons head.shift tail.shift

/-- Statements stay alike when their ids are shifted. -/
theorem Stmt.Alike.shift :
    ∀ {chain : List Renaming} {stmt stmt' : Stmt}, Stmt.Alike same pairing chain stmt stmt' →
        Stmt.Alike same later chain (stmt.relabel .identity shift) (stmt'.relabel .identity shift')
  | _, _, _, .expression inner => .expression (inner.shift shifts)
  | _, _, _, .print inner => .print (inner.shift shifts)
  | _, _, _, .varPlain declared => .varPlain declared
  | _, _, _, .varInitial declared inner => .varInitial declared (inner.shift shifts)
  | _, _, _, .block rename kept inner => .block rename kept inner.shift
  | _, _, _, .ifThen tested chosen => .ifThen (tested.shift shifts) chosen.shift
  | _, _, _, .ifElse tested chosen otherwise =>
    .ifElse (tested.shift shifts) chosen.shift otherwise.shift
  | _, _, _, .whileLoop tested repeated => .whileLoop (tested.shift shifts) repeated.shift
  | _, _, _, .countedLoop marked tested repeated =>
    .countedLoop (by rw [shifts.marks]; exact marked) (tested.shift shifts) repeated.shift
  | _, _, _, .steppedLoop marked tested repeated =>
    .steppedLoop (by rw [shifts.marks]; exact marked) (tested.shift shifts) repeated.shift
  | _, _, _, .funDecl declared inner => by
    refine .funDecl ?_ inner.shift
    rw [FunctionDecl.name_relabel, FunctionDecl.name_relabel]
    exact declared
  | _, _, _, .returnPlain keyword keyword' => .returnPlain keyword keyword'
  | _, _, _, .returnValue keyword keyword' inner =>
    .returnValue keyword keyword' (inner.shift shifts)
  | _, _, _, .classPlain fixed declared inner => .classPlain fixed declared inner.shift
  | _, _, _, .classExtending fixed declared superclass inner =>
    .classExtending fixed declared (superclass.shift shifts) inner.shift

theorem Stmt.AllAlike.shift :
    ∀ {chain : List Renaming} {stmts stmts' : List Stmt},
      Stmt.AllAlike same pairing chain stmts stmts' → Stmt.AllAlike same later chain
          (Stmt.relabelAll .identity shift stmts)
          (Stmt.relabelAll .identity shift' stmts')
  | _, _, _, .nil => .nil
  | _, _, _, .cons head tail => .cons head.shift tail.shift

end

end

/-- Functions that are alike are so with further occurrences in use. -/
theorem FunctionDecl.Alike.extend (extended : pairing.Extends later)
    {chain : List Renaming} {decl decl' : FunctionDecl}
    (alike : FunctionDecl.Alike same pairing chain decl decl') :
    FunctionDecl.Alike same later chain decl decl' := by
  have shifted := alike.shift extended
  rw [FunctionDecl.relabel_identity, FunctionDecl.relabel_identity] at shifted
  exact shifted

end

end Treewalk
