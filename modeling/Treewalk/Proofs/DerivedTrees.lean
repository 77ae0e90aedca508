import Treewalk.Proofs.Derivation

/-!
# Trees that the grammar derives

Every occurrence of a name in a derived tree has an id of its own, out of the
range that its derivation hands out.  Ranges of neighbouring parts do not
overlap; an id that was handed out and then dropped leaves a gap.
-/

namespace Treewalk

/-! ## The ids of a tree -/

namespace Expr

mutual

/-- The ids of the occurrences in an expression. -/
def ids : Expr → List ExprId
  | literal _ => []
  | unary _ operand => ids operand
  | binary left _ right => ids left ++ ids right
  | grouping inner => ids inner
  | name id _ => [id]
  | assign id _ value => ids value ++ [id]
  | logical left _ right => ids left ++ ids right
  | call callee _ arguments => ids callee ++ idsAll arguments
  | get object _ => ids object
  | set object _ value => ids object ++ ids value
  | receiver id _ => [id]

def idsAll : List Expr → List ExprId
  | [] => []
  | value :: values => ids value ++ idsAll values

end

def idsOption : Option Expr → List ExprId
  | none => []
  | some value => value.ids

theorem ids_join (level : Grammar.Level) (left : Expr) (op : Token) (right : Expr) :
    (level.join left op right).ids = left.ids ++ right.ids := by
  cases level <;> rfl

end Expr

mutual

/-- The ids of the occurrences in the body of a function. -/
def FunctionDecl.ids : FunctionDecl → List ExprId
  | .mk _ _ body => Stmt.idsAll body

def FunctionDecl.idsAll : List FunctionDecl → List ExprId
  | [] => []
  | declaration :: declarations =>
    declaration.ids ++ FunctionDecl.idsAll declarations

/-- The ids of the occurrences in a statement. -/
def Stmt.ids : Stmt → List ExprId
  | .expression value => value.ids
  | .print value => value.ids
  | .varDecl _ initial => Expr.idsOption initial
  | .block body => Stmt.idsAll body
  | .ifElse condition yes none => condition.ids ++ yes.ids
  | .ifElse condition yes (some no) => condition.ids ++ yes.ids ++ no.ids
  | .whileLoop condition body => condition.ids ++ body.ids
  | .funDecl declaration => declaration.ids
  | .returnValue _ value => Expr.idsOption value
  | .classDecl _ superclass methods =>
    Expr.idsOption superclass ++ FunctionDecl.idsAll methods

def Stmt.idsAll : List Stmt → List ExprId
  | [] => []
  | statement :: statements => statement.ids ++ Stmt.idsAll statements

end

def Stmt.idsOption : Option Stmt → List ExprId
  | none => []
  | some statement => statement.ids

/-- The ids of all occurrences in a program. -/
def Program.ids (program : Program) : List ExprId :=
  Stmt.idsAll program

namespace Grammar

/-- The ids of the occurrences in the tree of a nonterminal. -/
def Nonterminal.ids : (goal : Nonterminal) → goal.Tree → List ExprId
  | declarations => Stmt.idsAll
  | declaration => Stmt.ids
  | superclass => Expr.idsOption
  | methods => FunctionDecl.idsAll
  | function => FunctionDecl.ids
  | parameters => fun _ => []
  | parameterList => fun _ => []
  | varDeclaration => Stmt.ids
  | initialValue => Expr.idsOption
  | statement => Stmt.ids
  | expressionStatement => Stmt.ids
  | forInitial => Stmt.idsOption
  | block => Stmt.idsAll
  | optionalExpression => Expr.idsOption
  | expression => Expr.ids
  | level _ => Expr.ids
  | operand _ => Expr.ids
  | unary => Expr.ids
  | call => Expr.ids
  | arguments => Expr.idsAll
  | argumentList => Expr.idsAll
  | primary => Expr.ids

/-- A loop with a counter keeps the ids of its clauses and of its body. -/
theorem ids_unfoldedLoop (initial : Option Stmt) (cond step : Option Expr) (body : Stmt) :
    (unfoldedLoop initial cond step body).ids =
      Stmt.idsOption initial ++ Expr.idsOption cond ++ (body.ids ++ Expr.idsOption step) := by
  cases initial <;> cases cond <;> cases step <;>
    simp [unfoldedLoop, Stmt.ids, Stmt.idsAll, Stmt.idsOption, Expr.idsOption, Expr.ids]

end Grammar

/-! ## Ids out of a range -/

/-- The ids are pairwise distinct and lie in a range. -/
structure Minted (first next : ExprId) (ids : List ExprId) : Prop where
  distinct : ids.Nodup
  within : ∀ id ∈ ids, first ≤ id ∧ id < next

variable {first next : ExprId} {token : Token}

namespace Minted

variable {middle : ExprId} {ids others : List ExprId}

theorem nil (first next : ExprId) : Minted first next [] :=
  ⟨List.nodup_nil, nofun⟩

theorem single (id : ExprId) : Minted id (id + 1) [id] :=
  ⟨by simp, by simp⟩

/-- Two parts whose ranges follow each other. -/
theorem append (left : Minted first middle ids)
    (right : Minted middle next others) (ordered : first ≤ middle)
    (increasing : middle ≤ next) : Minted first next (ids ++ others) := by
  constructor
  · refine List.nodup_append.mpr ⟨left.distinct, right.distinct, ?_⟩
    rintro id mem other again rfl
    exact Nat.not_lt_of_le (right.within id again).1 (left.within id mem).2
  · intro id mem
    rcases List.mem_append.mp mem with mem | mem
    · have range := left.within id mem
      exact ⟨range.1, Nat.lt_of_lt_of_le range.2 increasing⟩
    · have range := right.within id mem
      exact ⟨Nat.le_trans ordered range.1, range.2⟩

/-- The order of the ids does not matter. -/
theorem perm (minted : Minted first next ids) (same : ids.Perm others) : Minted first next others :=
  ⟨same.nodup_iff.mp minted.distinct, fun id mem => minted.within id (same.mem_iff.mpr mem)⟩

/-- Ids that were handed out and dropped only widen the range. -/
theorem widen {low : ExprId} (minted : Minted first next ids)
    (lower : low ≤ first) : Minted low next ids :=
  ⟨minted.distinct, fun id mem =>
    ⟨Nat.le_trans lower (minted.within id mem).1, (minted.within id mem).2⟩⟩

end Minted

namespace Grammar

/-- The ids of a derived tree are those that were handed out for it. -/
theorem Derives.minted {goal : Nonterminal} {input rest : List Token}
    {tree : goal.Tree} (derivation : Derives .nearest goal input first tree rest next) :
    Minted first next (goal.ids tree) := by
  induction derivation with
  | noDeclaration | noSuperclass | noMethod | noParameter | someParameters | lastParameter
  | moreParameters | noInitialValue | noForInitial | noExpression | noArgument | constant =>
    exact .nil _ _
  | moreDeclarations declared further head tail
  | classDeclaration _ _ declared _ further _ head tail | moreMethods declared further head tail
  | ifThen _ _ declared _ further _ head tail | whileStatement _ _ declared _ further head tail
  | assignProperty declared _ _ _ further head tail
  | callArguments declared _ further _ head tail | moreArguments declared _ further head tail =>
    exact head.append tail declared.first_le further.first_le
  | funDeclaration _ _ body => exact body
  | declareVariable _ declared | plainStatement _ declared | varDeclaration _ _ _ _ declared
  | someInitialValue _ _ declared | expressionStatement _ _ declared | stateExpression _ declared
  | forVariable _ declared | forExpression _ declared | printStatement _ _ _ declared
  | returnStatement _ _ _ declared | blockStatement _ declared | block _ _ _ declared
  | someExpression _ declared | unassigned _ declared | singleOperand _ declared
  | tighter _ _ declared | tightest _ _ declared | negated _ _ declared | unnegated _ declared
  | uncalled _ declared | callProperty _ _ _ declared | someArguments _ _ declared
  | grouping _ _ _ declared => exact declared
  | superclassName => exact .single _
  | function _ _ listed _ _ _ body => exact body.widen listed.first_le
  | forStatement _ _ initially conditional _ stepwise _ repeated initial cond step body =>
    have head := initial.append cond initially.first_le conditional.first_le
    have tail := step.append body stepwise.first_le repeated.first_le
    have whole := head.append tail (Nat.le_trans initially.first_le conditional.first_le)
      (Nat.le_trans stepwise.first_le repeated.first_le)
    -- The step is handed its ids before the body and stands behind it.
    rw [Nonterminal.ids, ids_unfoldedLoop]
    exact whole.perm (List.perm_append_comm.append_left _)
  | ifElse _ _ conditional _ chosen _ otherwise cond yes no =>
    exact (cond.append yes conditional.first_le chosen.first_le).append
      no (Nat.le_trans conditional.first_le chosen.first_le) otherwise.first_le
  | assignName _ _ valued value =>
    have kept := value.append (.single _) valued.first_le (Nat.le_succ _)
    exact kept.widen (Nat.le_succ _)
  | operation joined _ valued left right =>
    rw [Nonterminal.ids, Expr.ids_join]
    exact left.append right joined.first_le valued.first_le
  | lastArgument _ value =>
    rw [Nonterminal.ids, Expr.idsAll, Expr.idsAll, List.append_nil]
    exact value
  | receiver => exact .single _
  | name => exact .single _

end Grammar

end Treewalk
