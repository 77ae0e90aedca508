import Treewalk.Tree.Basic

/-!
# The operator-first form of a tree

A form is a word or a parenthesised list of forms.  Every node of a tree is
one form that starts with the operator or the kind of statement, so the shape
of a tree can be read without knowing any precedence:
`1 + (2)` is `(+ 1.0 (group 2.0))`.
-/

namespace Treewalk

/-- A word or a list in parentheses. -/
inductive Form where
  | word (text : String)
  | list (forms : List Form)
deriving Repr

namespace Form

mutual

/--
The characters of a form in front of others: lists stand in parentheses, with
single spaces inside.
-/
def write : Form → List Char → List Char
  | word text, rest => text.toList ++ rest
  | list forms, rest => '(' :: writeInner forms (')' :: rest)

/-- The forms of a list, separated by single spaces, in front of others. -/
def writeInner : List Form → List Char → List Char
  | [], rest => rest
  | [form], rest => write form rest
  | form :: others, rest => write form (' ' :: writeInner others rest)

end

/-- The text of a form. -/
def text (form : Form) : String :=
  String.ofList (form.write [])

end Form

namespace Literal

/-- Numbers in trees: whole ones in full with a fraction digit. -/
def numberText (value : Float) : String :=
  match Numeral.parts value with
  | .finite negative magnitude =>
    if magnitude.integral then
      Numeral.signed negative (Nat.repr magnitude.whole ++ ".0")
    else
      Numeral.plain.text value
  | _ => Numeral.plain.text value

/-- The word for a constant. -/
def text : Literal → String
  | number value => numberText value
  | string text => text
  | boolean true => "true"
  | boolean false => "false"
  | nil => "nil"

end Literal

/-- The word for a token: the text it was read from. -/
def Token.form (token : Token) : Form :=
  .word token.lexeme

namespace Expr

mutual

/-- The form of an expression. -/
def form : Expr → Form
  | literal value => .word value.text
  | unary operator operand => .list [operator.form, form operand]
  | binary left operator right => .list [operator.form, form left, form right]
  | grouping inner => .list [.word "group", form inner]
  | name _ token => token.form
  | assign _ target value => .list [.word "=", target.form, form value]
  | logical left operator right =>
    .list [operator.form, form left, form right]
  | call callee _ arguments =>
    .list (.word "call" :: form callee :: forms arguments)
  | get object property => .list [.word ".", form object, property.form]
  | set object property value =>
    .list [.word "=", .list [.word ".", form object, property.form], form value]
  | receiver _ _ => .word "this"

/-- The forms of a list of expressions. -/
def forms : List Expr → List Form
  | [] => []
  | value :: values => form value :: forms values

end

end Expr

mutual

/-- The form of a function or method, after the word for which it is. -/
def FunctionDecl.form (word : String) : FunctionDecl → Form
  | .mk name parameters body =>
    .list (.word word :: name.form :: .list (parameters.map Token.form) :: Stmt.forms body)

/-- The forms of the methods of a class. -/
def FunctionDecl.methodForms : List FunctionDecl → List Form
  | [] => []
  | method :: methods =>
    method.form "method" :: FunctionDecl.methodForms methods

/-- The form of a statement. -/
def Stmt.form : Stmt → Form
  | .expression value => .list [.word ";", value.form]
  | .print value => .list [.word "print", value.form]
  | .varDecl name (some initial) =>
    .list [.word "var", name.form, initial.form]
  | .varDecl name none => .list [.word "var", name.form]
  | .block body => .list (.word "block" :: Stmt.forms body)
  | .ifElse condition yes none =>
    .list [.word "if", condition.form, yes.form]
  | .ifElse condition yes (some no) =>
    .list [.word "if", condition.form, yes.form, no.form]
  | .whileLoop condition body =>
    .list [.word "while", condition.form, body.form]
  | .funDecl declaration => declaration.form "fun"
  | .returnValue _ (some value) => .list [.word "return", value.form]
  | .returnValue _ none => .list [.word "return"]
  | .classDecl name (some superclass) methods =>
    .list (.word "class" :: name.form :: .word "<" :: superclass.form ::
      FunctionDecl.methodForms methods)
  | .classDecl name none methods =>
    .list (.word "class" :: name.form :: FunctionDecl.methodForms methods)

/-- The forms of a list of statements. -/
def Stmt.forms : List Stmt → List Form
  | [] => []
  | statement :: statements => statement.form :: Stmt.forms statements

end

/-- The operator-first text of an expression. -/
def Expr.formText (value : Expr) : String :=
  value.form.text

/-- The operator-first text of a statement. -/
def Stmt.formText (statement : Stmt) : String :=
  statement.form.text

end Treewalk
