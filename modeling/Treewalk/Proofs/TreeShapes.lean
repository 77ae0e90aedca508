import Treewalk.Proofs.Derivation
import Treewalk.Proofs.LongestMatch

/-!
# The nodes of a tree

A node of a tree is an expression, a function or a statement.  The nodes of a
derived tree are grown from the tokens that it is derived from: operators stand
where they belong, constants come from tokens, what is declared, assigned to or
looked up is named by an identifier, and branches and bodies of loops declare
nothing.  The shape of a node is the part of this that does not depend on the
tokens.
-/

namespace Treewalk

open List

/-- The expressions that an expression consists of. -/
def Expr.parts : Expr → List Expr
  | literal _ => []
  | grouping inner => [inner]
  | unary _ operand => [operand]
  | binary left _ right => [left, right]
  | logical left _ right => [left, right]
  | name _ _ => []
  | receiver _ _ => []
  | assign _ _ value => [value]
  | call callee _ arguments => callee :: arguments
  | get object _ => [object]
  | set object _ value => [object, value]

namespace Stmt

/-- The expressions that a statement evaluates itself. -/
def operands : Stmt → List Expr
  | expression value => [value]
  | print value => [value]
  | varDecl _ initial => initial.toList
  | block _ => []
  | ifElse condition _ _ => [condition]
  | whileLoop condition _ => [condition]
  | funDecl _ => []
  | returnValue _ value => value.toList
  | classDecl _ superclass _ => superclass.toList

/-- The statements that a statement executes in the scope it stands in. -/
def branches : Stmt → List Stmt
  | ifElse _ yes no => yes :: no.toList
  | whileLoop _ body => [body]
  | _ => []

/-- The statements that a statement consists of. -/
def inner : Stmt → List Stmt
  | block body => body
  | statement => statement.branches

/-- The functions that a statement declares. -/
def functions : Stmt → List FunctionDecl
  | funDecl declaration => [declaration]
  | classDecl _ _ methods => methods
  | _ => []

/--
The name that a statement declares in the scope it stands in.  Branches and
bodies of loops are no declarations.
-/
def declared : Stmt → List Token
  | varDecl name _ => [name]
  | funDecl declaration => [declaration.name]
  | classDecl name _ _ => [name]
  | _ => []

end Stmt

/-- A node of a tree, with all that is below it. -/
inductive Node where
  | expr (value : Expr)
  | function (declaration : FunctionDecl)
  | stmt (statement : Stmt)

namespace Node

/-- The nodes right below a node. -/
def children : Node → List Node
  | expr value => value.parts.map expr
  | function declaration => declaration.body.map stmt
  | stmt statement =>
    statement.operands.map expr ++ (statement.inner.map stmt ++ statement.functions.map function)

section

variable {statement : Stmt}

theorem operand_mem {value : Expr} (mem : value ∈ statement.operands) :
    expr value ∈ (stmt statement).children :=
  mem_append_left _ (mem_map_of_mem mem)

theorem inner_mem {part : Stmt} (mem : part ∈ statement.inner) :
    stmt part ∈ (stmt statement).children :=
  mem_append_right _ (mem_append_left _ (mem_map_of_mem mem))

theorem function_mem {declaration : FunctionDecl} (mem : declaration ∈ statement.functions) :
    function declaration ∈ (stmt statement).children :=
  mem_append_right _ (mem_append_right _ (mem_map_of_mem mem))

end

/-- A node is another one, or somewhere below it. -/
inductive Occurs (node : Node) : Node → Prop where
  | here : Occurs node node
  | inside {child root : Node} : child ∈ root.children → Occurs node child → Occurs node root

theorem Occurs.child {node child root : Node} (occurs : node.Occurs root)
    (mem : child ∈ node.children) : child.Occurs root := by
  induction occurs with
  | here => exact .inside mem .here
  | inside below _ ih => exact .inside below ih

/-- A property of all nodes of a list, and of the nodes below them. -/
def Everywhere (property : Node → Prop) (nodes : List Node) : Prop :=
  ∀ node ∈ nodes, ∀ inner : Node, inner.Occurs node → property inner

namespace Everywhere

variable {property : Node → Prop} {root : Node} {nodes others : List Node}

theorem nil : Everywhere property [] :=
  forall_mem_nil _

theorem append (first : Everywhere property nodes) (second : Everywhere property others) :
    Everywhere property (nodes ++ others) :=
  forall_mem_append.mpr ⟨first, second⟩

/-- A node has the property, and so have all nodes below it. -/
theorem node (holds : property root) (inner : Everywhere property root.children) :
    Everywhere property [root] := by
  refine forall_mem_singleton.mpr ?_
  intro node occurs
  cases occurs with
  | here => exact holds
  | inside child occurs => exact inner _ child node occurs

theorem of_subset (everywhere : Everywhere property nodes) (subset : others ⊆ nodes) :
    Everywhere property others :=
  fun node mem => everywhere node (subset mem)

section

variable (everywhere : Everywhere property (root :: nodes))

include everywhere

theorem head : Everywhere property [root] :=
  forall_mem_singleton.mpr (everywhere root (.head _))

theorem tail : Everywhere property nodes :=
  everywhere.of_subset (subset_cons_self _ _)

theorem here : property root :=
  everywhere root (.head _) root .here

theorem below : Everywhere property root.children :=
  fun _ mem _ occurs => everywhere root (.head _) _ (.inside mem occurs)

end

section

variable {statement : Stmt} (everywhere : Everywhere property (.stmt statement :: nodes))

include everywhere

theorem operands : Everywhere property (statement.operands.map .expr) :=
  everywhere.below.of_subset (subset_append_left _ _)

theorem inner : Everywhere property (statement.inner.map .stmt) :=
  everywhere.below.of_subset fun _ mem => mem_append_right _ (mem_append_left _ mem)

theorem functions : Everywhere property (statement.functions.map .function) :=
  everywhere.below.of_subset fun _ mem => mem_append_right _ (mem_append_right _ mem)

end

end Everywhere

end Node

/-! ## Nodes grown from tokens -/

/-- The operators that join the values of two operands. -/
def Grammar.binaryMarks : List Punctuator :=
  [.bangEqual, .equalEqual, .greater, .greaterEqual, .less, .lessEqual, .minus, .plus, .star,
    .slash]

/-- The tokens and lists that a node holds itself are as its kind demands. -/
def Node.Shaped : Node → Prop
  | expr (.unary operator _) => Grammar.isAnyMark [.bang, .minus] operator
  | expr (.binary _ operator _) => Grammar.isAnyMark Grammar.binaryMarks operator
  | expr (.logical _ operator _) => operator.isWord .orWord ∨ operator.isWord .andWord
  | expr (.call _ closing arguments) => closing.isMark .rightParen ∧ arguments.length ≤ 255
  | function declaration => declaration.parameters.length ≤ 255
  | stmt (.classDecl _ superclass _) =>
    ∀ value ∈ superclass.toList, ∃ id token, value = .name id token
  | _ => True

variable {property : Token → Prop}

/-- An identifier with a given property. -/
structure Token.Names (property : Token → Prop) (token : Token) : Prop where
  holds : property token
  kind : token.kind = .identifier

/-- A node is grown from tokens with a given property. -/
def Node.Grown (property : Token → Prop) : Node → Prop
  | expr (.literal value) =>
    value = .boolean true ∨ ∃ token, property token ∧ Grammar.constant? token = some value
  | expr (.grouping _) => True
  | expr (.unary operator _) =>
    property operator ∧ Grammar.isAnyMark [.bang, .minus] operator
  | expr (.binary _ operator _) =>
    property operator ∧ Grammar.isAnyMark Grammar.binaryMarks operator
  | expr (.logical _ operator _) =>
    property operator ∧ (operator.isWord .orWord ∨ operator.isWord .andWord)
  | expr (.name _ token) => token.Names property
  | expr (.assign _ target _) => target.Names property
  | expr (.get _ name) => name.Names property
  | expr (.set _ name _) => name.Names property
  | expr (.receiver _ keyword) => property keyword ∧ keyword.isWord .thisWord
  | expr (.call _ closing arguments) =>
    property closing ∧ closing.isMark .rightParen ∧ arguments.length ≤ Rule.maxArity
  | function declaration =>
    declaration.name.Names property ∧ (∀ name ∈ declaration.parameters, name.Names property) ∧
      declaration.parameters.length ≤ Rule.maxArity
  | stmt (.varDecl name _) => name.Names property
  | stmt (.returnValue keyword _) => property keyword ∧ keyword.isWord .returnWord
  | stmt (.classDecl name superclass _) => name.Names property ∧
      ∀ value ∈ superclass.toList, ∃ id token, value = .name id token
  | stmt statement => ∀ branch ∈ statement.branches, branch.declared = []

/-- Grown nodes have a shape. -/
theorem Node.Grown.shaped {node : Node} (grown : node.Grown property) : node.Shaped := by
  cases node with
  | expr value =>
    cases value with
    | unary op operand | binary left op right | logical left op right | call callee closing args =>
      exact grown.2
    | _ => trivial
  | function decl => exact grown.2.2
  | stmt stmt =>
    cases stmt with
    | classDecl name superclass methods => exact grown.2
    | _ => trivial

namespace Grammar

/-- All tokens of a list have a property. -/
def Given (property : Token → Prop) (tokens : List Token) : Prop :=
  ∀ token ∈ tokens, property token

namespace Given

variable {token : Token} {tokens : List Token}

section

variable (given : Given property (token :: tokens))

include given

theorem head : property token :=
  given token (.head _)

theorem tail : Given property tokens :=
  fun other mem => given other (.tail _ mem)

theorem names (named : token.kind = .identifier) : token.Names property :=
  ⟨given.head, named⟩

end

theorem rest {policy : Policy} {goal : Nonterminal} {input rest : List Token}
    {first next : ExprId} {tree : goal.Tree} (given : Given property input)
    (derivation : Derives policy goal input first tree rest next) : Given property rest :=
  fun token mem => given token (derivation.subset mem)

end Given

/-- The nodes that the tree of a nonterminal consists of. -/
def Nonterminal.nodes : (goal : Nonterminal) → goal.Tree → List Node
  | declarations, tree => tree.map .stmt
  | declaration, tree => [.stmt tree]
  | superclass, tree => tree.toList.map .expr
  | methods, tree => tree.map .function
  | function, tree => [.function tree]
  | parameters, _ => []
  | parameterList, _ => []
  | varDeclaration, tree => [.stmt tree]
  | initialValue, tree => tree.toList.map .expr
  | statement, tree => [.stmt tree]
  | expressionStatement, tree => [.stmt tree]
  | forInitial, tree => tree.toList.map .stmt
  | block, tree => tree.map .stmt
  | optionalExpression, tree => tree.toList.map .expr
  | expression, tree => [.expr tree]
  | level _, tree => [.expr tree]
  | operand _, tree => [.expr tree]
  | unary, tree => [.expr tree]
  | call, tree => [.expr tree]
  | arguments, tree => tree.map .expr
  | argumentList, tree => tree.map .expr
  | primary, tree => [.expr tree]

/-- What the node around a tree demands of it. -/
def Nonterminal.Suits (property : Token → Prop) : (goal : Nonterminal) → goal.Tree → Prop
  | superclass, tree => ∀ value ∈ tree.toList, ∃ id token, value = .name id token
  | parameters, names => ∀ name ∈ names, name.Names property
  | parameterList, names =>
    (∀ name ∈ names, name.Names property) ∧ names.length ≤ Rule.maxArity
  | argumentList, values => values.length ≤ Rule.maxArity
  | statement, tree => tree.declared = []
  | expressionStatement, tree => tree.declared = []
  | _, _ => True

/-- The nodes of a tree are grown, and the tree suits the node around it. -/
abbrev Nonterminal.Grown (property : Token → Prop) (goal : Nonterminal) (tree : goal.Tree) : Prop :=
  Node.Everywhere (Node.Grown property) (goal.nodes tree) ∧ goal.Suits property tree

/-- A lowered loop is grown from its parts. -/
theorem grown_unfoldedLoop {initial : Option Stmt} {cond step : Option Expr} {body : Stmt}
    (initially : Nonterminal.forInitial.Grown property initial)
    (tested : Nonterminal.optionalExpression.Grown property cond)
    (stepped : Nonterminal.optionalExpression.Grown property step)
    (repeated : Nonterminal.statement.Grown property body) :
    Nonterminal.statement.Grown property (unfoldedLoop initial cond step body) := by
  have lasting : Nonterminal.expression.Grown property (cond.getD (.literal (.boolean true))) := by
    cases cond with
    | none => exact ⟨.node (.inl rfl) .nil, trivial⟩
    | some cond => exact tested
  have looped : Nonterminal.statement.Grown property (unfoldedLoop none cond step body) := by
    cases step with
    | none =>
      exact ⟨.node (forall_mem_singleton.mpr repeated.2) (lasting.1.append repeated.1), rfl⟩
    | some step =>
      have whole : Node.Everywhere (Node.Grown property)
          [.stmt (.block [body, .expression step])] :=
        .node (forall_mem_nil _)
          (repeated.1.append (.node (forall_mem_nil _) stepped.1))
      exact ⟨.node (forall_mem_singleton.mpr rfl) (lasting.1.append whole), rfl⟩
  cases initial with
  | none => exact looped
  | some initial =>
    have whole := initially.1.append looped.1
    cases step <;> exact ⟨.node (forall_mem_nil _) whole, rfl⟩

theorem isAnyMark_mono {marks others : List Punctuator} {op : Token} (subset : marks ⊆ others)
    (test : isAnyMark marks op) : isAnyMark others op := by
  unfold isAnyMark at *
  split at test
  · simpa using subset (by simpa using test)
  · cases test

theorem grown_join {level : Level} {left right : Expr} {op : Token} (holds : property op)
    (operates : level.operates op) :
    Node.Grown property (.expr (level.join left op right)) := by
  cases level with
  | disjunction => exact ⟨holds, .inl operates⟩
  | conjunction => exact ⟨holds, .inr operates⟩
  | _ => exact ⟨holds, isAnyMark_mono (by decide) operates⟩

theorem children_join (level : Level) (left : Expr) (op : Token) (right : Expr) :
    (Node.expr (level.join left op right)).children = [.expr left, .expr right] := by
  cases level <;> rfl

/-- The nodes of a derived tree are grown from the tokens it is derived from. -/
theorem Derives.grown {goal : Nonterminal}
    {input rest : List Token} {first next : ExprId} {tree : goal.Tree}
    (derivation : Derives .nearest goal input first tree rest next) (given : Given property input) :
    goal.Grown property tree := by
  induction derivation with
  | noDeclaration | noMethod | noInitialValue | noForInitial | noExpression => exact ⟨.nil, trivial⟩
  | moreDeclarations head _ stmt stmts | moreMethods head _ stmt stmts =>
    exact ⟨(stmt given).1.append (stmts (given.rest head)).1, trivial⟩
  | classDeclaration _ named extended _ _ _ parent methods =>
    have inherited := parent given.tail.tail
    have body := methods (given.tail.tail.rest extended).tail
    exact ⟨.node ⟨given.tail.names named, inherited.2⟩ (inherited.1.append body.1), trivial⟩
  | funDeclaration _ _ function =>
    exact ⟨.node (forall_mem_nil _) (function given.tail).1, trivial⟩
  | declareVariable _ stmt | stateExpression _ stmt | forVariable _ stmt | someExpression _ stmt
  | unassigned _ stmt | singleOperand _ stmt | tighter _ _ stmt | tightest _ _ stmt
  | unnegated _ stmt | uncalled _ stmt | lastArgument _ stmt => exact stmt given
  | plainStatement _ stmt => exact ⟨(stmt given).1, trivial⟩
  | noSuperclass => exact ⟨.nil, forall_mem_nil _⟩
  | superclassName _ named =>
    exact ⟨.node (given.tail.names named) .nil, forall_mem_singleton.mpr ⟨_, _, rfl⟩⟩
  | function named _ listed _ _ params body =>
    exact ⟨.node ⟨given.names named, (params given.tail.tail).2⟩
      (body (given.tail.tail.rest listed).tail).1, trivial⟩
  | noParameter => exact ⟨.nil, forall_mem_nil _, Nat.zero_le _⟩
  | someParameters _ bounded params => exact ⟨.nil, (params given).2, bounded⟩
  | lastParameter named => exact ⟨.nil, forall_mem_singleton.mpr (given.names named)⟩
  | moreParameters named _ _ params =>
    exact ⟨.nil, forall_mem_cons.mpr ⟨given.names named, (params given.tail.tail).2⟩⟩
  | varDeclaration _ named _ _ initial =>
    exact ⟨.node (given.tail.names named) ((initial given.tail.tail).1.append .nil), trivial⟩
  | someInitialValue _ _ value => exact value given.tail
  | expressionStatement _ _ value =>
    exact ⟨.node (forall_mem_nil _) (value given).1, rfl⟩
  | forStatement _ _ initially conditional _ stepwise _ _ initial cond step body =>
    have afterInitial := given.tail.tail.rest initially
    have afterTest := (afterInitial.rest conditional).tail
    have afterStep := (afterTest.rest stepwise).tail
    exact grown_unfoldedLoop (initial given.tail.tail) (cond afterInitial) (step afterTest)
      (body afterStep)
  | forExpression _ stmt => exact ⟨(stmt given).1, trivial⟩
  | ifThen _ _ conditional _ _ _ cond yes =>
    have chosen := yes (given.tail.tail.rest conditional).tail
    exact ⟨.node (forall_mem_singleton.mpr chosen.2)
      ((cond given.tail.tail).1.append chosen.1), rfl⟩
  | ifElse _ _ conditional _ reached _ _ cond yes no =>
    have afterCondition := (given.tail.tail.rest conditional).tail
    have chosen := yes afterCondition
    have otherwise := no (afterCondition.rest reached).tail
    exact ⟨.node (forall_mem_cons.mpr ⟨chosen.2, forall_mem_singleton.mpr otherwise.2⟩)
      ((cond given.tail.tail).1.append (chosen.1.append otherwise.1)), rfl⟩
  | printStatement _ _ _ value =>
    exact ⟨.node (forall_mem_nil _) (value given.tail).1, rfl⟩
  | returnStatement isReturn _ _ value =>
    exact ⟨.node ⟨given.head, isReturn⟩ ((value given.tail).1.append .nil), rfl⟩
  | whileStatement _ _ conditional _ _ cond body =>
    have repeated := body (given.tail.tail.rest conditional).tail
    exact ⟨.node (forall_mem_singleton.mpr repeated.2)
      ((cond given.tail.tail).1.append repeated.1), rfl⟩
  | blockStatement _ body =>
    exact ⟨.node (forall_mem_nil _) ((body given).1.append .nil), rfl⟩
  | block _ _ _ body => exact body given.tail
  | assignName named _ _ value =>
    exact ⟨.node (given.names named) (value given.tail.tail).1, trivial⟩
  | assignProperty owned _ named _ _ object value =>
    have afterDot := (given.rest owned).tail
    exact ⟨.node (afterDot.names named)
      ((object given).1.append (value afterDot.tail.tail).1), trivial⟩
  | operation joined operates _ left right =>
    have joining := given.rest joined
    refine ⟨.node (grown_join joining.head operates) ?_, trivial⟩
    rw [children_join]
    exact (left given).1.append (right joining.tail).1
  | negated negates _ value =>
    exact ⟨.node ⟨given.head, negates⟩ (value given.tail).1, trivial⟩
  | callArguments called _ listed closes callee args =>
    have afterCallee := (given.rest called).tail
    have values := args afterCallee
    exact ⟨.node ⟨(afterCallee.rest listed).head, closes, values.2⟩
      ((callee given).1.append values.1), trivial⟩
  | callProperty owned _ named object =>
    exact ⟨.node ((given.rest owned).tail.names named) (object given).1, trivial⟩
  | noArgument => exact ⟨.nil, Nat.zero_le _⟩
  | someArguments _ bounded values => exact ⟨(values given).1, bounded⟩
  | moreArguments valued _ _ value values =>
    exact ⟨(value given).1.append (values (given.rest valued).tail).1, trivial⟩
  | constant stands => exact ⟨.node (.inr ⟨_, given.head, stands⟩) .nil, trivial⟩
  | receiver isThis => exact ⟨.node ⟨given.head, isThis⟩ .nil, trivial⟩
  | name named => exact ⟨.node (given.names named) .nil, trivial⟩
  | grouping _ _ _ value => exact ⟨.node trivial (value given.tail).1, trivial⟩

end Grammar

/-! ## Nodes grown from tokens that are spelled as their kinds say -/

/-- All nodes are grown from tokens that are spelled as their kinds say. -/
abbrev Node.Formed (nodes : List Node) : Prop :=
  Everywhere (Grown Token.Spelled) nodes

/-- An identifier is spelled unlike the receiver. -/
theorem Token.Names.lexeme {token : Token} (names : token.Names Token.Spelled) :
    token.lexeme ≠ "this" := by
  intro receiver
  have unreserved := names.holds.identifier names.kind
  rw [receiver] at unreserved
  revert unreserved
  decide

end Treewalk
