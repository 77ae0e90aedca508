import Treewalk.Quoted
import Treewalk.Tree.Basic

/-!
# Values

Numbers, texts, truth values and nil are plain values.  Functions, classes and
instances have an identity besides: two of them are equal only if they are one
and the same.  A function is a declaration together with the scope it was made
in; reading a method from an instance makes a new function each time.

A class never changes after it was made, so it is kept whole: its own methods
and, behind them, the layers of its superclasses from the nearest on.  Looking
for a method goes through the layers in that order.  The fields of an instance
do change; they are kept by the machine under the instance's identity.
-/

namespace Treewalk

/-- The number of a scope. -/
abbrev ScopeId := Nat

/-- A function declaration with the scope it was made in. -/
structure Closure where
  declaration : FunctionDecl
  scope : ScopeId
  /-- The closure initialises instances: calls of it yield the receiver. -/
  isInitializer : Bool

/-- The methods that one class declares. -/
structure ClassLayer where
  name : String
  /-- The declared methods, in order. -/
  methods : List (String × Closure)

/-- A class: its own layer and those of its superclasses, nearest first. -/
structure Class where
  identity : Nat
  own : ClassLayer
  inherited : List ClassLayer

/-- Functions that the machine provides. -/
inductive Native where
  | clock
deriving DecidableEq, Repr

/-- The values of the language. -/
inductive Value where
  | number (value : Float)
  | string (text : String)
  | boolean (value : Bool)
  | nil
  | function (identity : Nat) (closure : Closure)
  | native (provided : Native)
  | classValue (value : Class)
  | object (identity : Nat) (origin : Class)

namespace Closure

/-- The name of a closure. -/
def name (closure : Closure) : String :=
  closure.declaration.name.lexeme

/-- How many arguments a call has to bring. -/
def arity (closure : Closure) : Nat :=
  closure.declaration.arity

end Closure

namespace ClassLayer

/-- The method declared last under a name. -/
def find? (layer : ClassLayer) (name : String) : Option Closure :=
  layer.methods.reverse.lookup name

end ClassLayer

namespace Class

/-- The name of a class. -/
def name (value : Class) : String :=
  value.own.name

/-- The layers of a class and its superclasses, nearest first. -/
def layers (value : Class) : List ClassLayer :=
  value.own :: value.inherited

/-- The method that instances of a class have under a name. -/
def findMethod? (value : Class) (name : String) : Option Closure :=
  value.layers.findSome? fun layer => layer.find? name

/-- The name of the method that initialises instances. -/
def initializerName : String :=
  "init"

/-- The method that initialises instances of a class. -/
def initializer? (value : Class) : Option Closure :=
  value.findMethod? initializerName

/-- How many arguments a call of the class has to bring. -/
def arity (value : Class) : Nat :=
  match value.initializer? with
  | some closure => closure.arity
  | none => 0

end Class

namespace Native

/-- The name of a function that the machine provides. -/
def name : Native → String
  | clock => "clock"

/-- How many arguments a call has to bring. -/
def arity : Native → Nat
  | clock => 0

end Native

/-- What a call can run. -/
inductive Callee where
  | closure (function : Closure)
  | native (provided : Native)
  /-- Make an instance of a class. -/
  | construct (origin : Class)

namespace Callee

/-- The name of what a call runs. -/
def name : Callee → String
  | closure function => function.name
  | native provided => provided.name
  | construct origin => origin.name

/-- How many arguments a call has to bring. -/
def arity : Callee → Nat
  | closure function => function.arity
  | native provided => provided.arity
  | construct origin => origin.arity

end Callee

namespace Value

/-- The value of a constant. -/
def ofLiteral : Literal → Value
  | .number value => number value
  | .string text => string text
  | .boolean value => boolean value
  | .nil => nil

/-- Everything counts as true but nil and false. -/
def truthy : Value → Bool
  | nil => false
  | boolean value => value
  | _ => true

/--
Equality of the language: plain values by contents, all others by identity,
and values of different kinds are never equal.
-/
def equal : Value → Value → Bool
  | nil, nil => true
  | number left, number right => left == right
  | string left, string right => left == right
  | boolean left, boolean right => left == right
  | function left _, function right _ => left == right
  | native left, native right => left == right
  | classValue left, classValue right => left.identity == right.identity
  | object left _, object right _ => left == right
  | _, _ => false

/-- The word for the kind of a value. -/
def typeName : Value → String
  | number _ => "number"
  | string _ => "string"
  | boolean _ => "boolean"
  | nil => "nil"
  | function _ _ => "function"
  | native _ => "function"
  | classValue _ => "class"
  | object _ _ => "instance"

/-- What printing a value shows. -/
def text : Value → String
  | number value => Numeral.printed value
  | string text => text
  | boolean true => "true"
  | boolean false => "false"
  | nil => "nil"
  | function _ closure => "<fn " ++ closure.name ++ ">"
  | native provided => "<native fn " ++ provided.name ++ ">"
  | classValue value => value.name
  | object _ origin => origin.name ++ " instance"

/-- What calling a value does, if it can be called. -/
def callee? : Value → Option Callee
  | function _ closure => some (.closure closure)
  | native provided => some (.native provided)
  | classValue value => some (.construct value)
  | _ => none

end Value

namespace Class

/-- The quoted names of the methods a class declares itself, in order. -/
def methodNames (value : Class) : List String :=
  let names := value.own.methods.map fun (name, _) => Quoted.text name
  (names.mergeSort fun left right => left ≤ right).eraseDups

/-- A class in full: its name, its superclass and its own methods. -/
def summary (value : Class) : String :=
  let parent :=
    match value.inherited with
    | [] => "None"
    | layer :: _ => "Some(" ++ Quoted.text layer.name ++ ")"
  "Class \x7b name: " ++ Quoted.text value.name ++ ", superclass: " ++
    parent ++ ", methods: [" ++ ", ".intercalate value.methodNames ++ "] \x7d"

end Class

namespace Value

/-- How a value that is not plain shows itself to a programmer. -/
def summary? : Value → Option String
  | function _ closure => some ("<fn " ++ closure.name ++ ">")
  | native provided => some ("<native fn " ++ provided.name ++ ">")
  | classValue value => some value.summary
  | object _ origin => some ("<" ++ origin.name ++ " instance>")
  | _ => none

end Value

end Treewalk
