import Treewalk.Json
import Treewalk.Tree.Basic

/-!
# Trees as JSON documents

A node with parts becomes a record with one field, named for the kind of the
node; a node without parts is just that name.  Inside, the parts stand under
their own names.  A missing part is `null` and an id is its number, so nothing
of the tree is lost.
-/

namespace Treewalk

/-- A node of a given kind. -/
def Json.node (kind : String) (contents : Json) : Json :=
  .object [(kind, contents)]

namespace TokenKind

/-- The document of a kind: its name, around its contents if it has any. -/
def document : TokenKind → Json
  | string text => .node "STRING" (.string text)
  | number value => .node "NUMBER" (.number value)
  | kind => .string kind.name

end TokenKind

/-- The document of a token. -/
def Token.document (token : Token) : Json :=
  .object
    [("token_type", token.kind.document), ("lexeme", .string token.lexeme),
      ("line", .natural token.line)]

/-- The document of a constant. -/
def Literal.document : Literal → Json
  | .number value => .node "Number" (.number value)
  | .string text => .node "Str" (.string text)
  | .boolean true => .string "True"
  | .boolean false => .string "False"
  | .nil => .string "Nil"

namespace Expr

mutual

/-- The document of an expression. -/
def document : Expr → Json
  | literal value => .node "Literal" value.document
  | unary operator operand =>
    .node "Unary"
      (.object [("operator", operator.document), ("right", document operand)])
  | binary left operator right =>
    .node "Binary"
      (.object
        [("left", document left), ("operator", operator.document), ("right", document right)])
  | grouping inner => .node "Grouping" (document inner)
  | name id token =>
    .node "Variable" (.object [("id", .natural id), ("name", token.document)])
  | assign id target value =>
    .node "Assign"
      (.object
        [("id", .natural id), ("name", target.document), ("value", document value)])
  | logical left operator right =>
    .node "Logical"
      (.object
        [("left", document left), ("operator", operator.document), ("right", document right)])
  | call callee closing arguments =>
    .node "Call"
      (.object
        [("callee", document callee), ("paren", closing.document),
          ("arguments", .array (documents arguments))])
  | get object property =>
    .node "Get"
      (.object [("object", document object), ("name", property.document)])
  | set object property value =>
    .node "Set"
      (.object
        [("object", document object), ("name", property.document), ("value", document value)])
  | receiver id keyword =>
    .node "This" (.object [("id", .natural id), ("keyword", keyword.document)])

/-- The documents of a list of expressions. -/
def documents : List Expr → List Json
  | [] => []
  | value :: values => document value :: documents values

end

/-- The document of an expression that may be missing. -/
def optionDocument : Option Expr → Json
  | none => .null
  | some value => value.document

end Expr

mutual

/-- The document of a function or method. -/
def FunctionDecl.document : FunctionDecl → Json
  | .mk name parameters body =>
    .object
      [("name", name.document), ("params", .array (parameters.map Token.document)),
        ("body", .array (Stmt.documents body))]

/-- The documents of a list of methods. -/
def FunctionDecl.documents : List FunctionDecl → List Json
  | [] => []
  | method :: methods => method.document :: FunctionDecl.documents methods

/-- The document of a statement. -/
def Stmt.document : Stmt → Json
  | .expression value => .node "Expression" value.document
  | .print value => .node "Print" value.document
  | .varDecl name initial =>
    .node "Var"
      (.object
        [("name", name.document), ("initializer", Expr.optionDocument initial)])
  | .block body => .node "Block" (.array (Stmt.documents body))
  | .ifElse condition yes none =>
    .node "If"
      (.object
        [("condition", condition.document), ("then_branch", yes.document), ("else_branch", .null)])
  | .ifElse condition yes (some no) =>
    .node "If"
      (.object
        [("condition", condition.document), ("then_branch", yes.document),
          ("else_branch", no.document)])
  | .whileLoop condition body =>
    .node "While"
      (.object [("condition", condition.document), ("body", body.document)])
  | .funDecl declaration => .node "Function" declaration.document
  | .returnValue keyword value =>
    .node "Return"
      (.object
        [("keyword", keyword.document), ("value", Expr.optionDocument value)])
  | .classDecl name superclass methods =>
    .node "Class"
      (.object
        [("name", name.document), ("superclass", Expr.optionDocument superclass),
          ("methods", .array (FunctionDecl.documents methods))])

/-- The documents of a list of statements. -/
def Stmt.documents : List Stmt → List Json
  | [] => []
  | statement :: statements => statement.document :: Stmt.documents statements

end

/-- The JSON text of a program. -/
def Program.documentText (program : Program) : String :=
  (Json.array (Stmt.documents program)).text .indented

end Treewalk
