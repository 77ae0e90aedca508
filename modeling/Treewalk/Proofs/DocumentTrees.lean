import Treewalk.Command
import Treewalk.Proofs.Analysis
import Treewalk.Proofs.DocumentReading
import Treewalk.Proofs.ProgramTexts

/-!
# Trees are read back from their documents

A document is decoded by the names in it: the only field of a record says what
kind of node it is, parts are looked up by their own names, and `null` is a
part that is missing.  Every tree is decoded from its document.  The numbers of
an accepted text stand in it as tokens, so if these are finite the text of the
document can be read back as well.
-/

namespace Treewalk

/-! ## Decoding -/

namespace Json

/-- A part of a document, which is smaller than the whole. -/
structure Part (document : Json) where
  contents : Json
  smaller : sizeOf contents < sizeOf document

instance (document : Json) : CoeOut document.Part Json :=
  ⟨Part.contents⟩

theorem sizeOf_field (name : String) (value : Json) (fields : List (String × Json)) :
    sizeOf value < sizeOf (object ((name, value) :: fields)) := by
  simp
  omega

theorem sizeOf_fields (field : String × Json) (fields : List (String × Json)) :
    sizeOf (object fields) < sizeOf (object (field :: fields)) := by
  simp

theorem sizeOf_node (kind : String) (contents : Json) :
    sizeOf contents < sizeOf (object [(kind, contents)]) :=
  sizeOf_field kind contents []

/-- Parts of what a node holds are smaller than the node. -/
theorem Part.lt_node {contents : Json} (part : contents.Part) (kind : String) :
    sizeOf part.contents < sizeOf (object [(kind, contents)]) :=
  Nat.lt_trans part.smaller (sizeOf_node kind contents)

/-- The contents of the field with a given name. -/
def field? (name : String) : (document : Json) → Option document.Part
  | object ((key, value) :: fields) =>
    if name = key then some ⟨value, sizeOf_field key value fields⟩
    else (field? name (object fields)).map fun part =>
      ⟨part.contents, Nat.lt_trans part.smaller (sizeOf_fields _ fields)⟩
  | _ => none

attribute [simp] field?

/-- The elements of a list, decoded. -/
def elements? {α : Type} (document : Json) (decode : document.Part → Option α) :
    Option (List α) :=
  match document with
  | array elements => elements.attach.mapM fun element =>
    decode ⟨element.1, Nat.lt_trans (List.sizeOf_lt_of_mem element.2) (by simp)⟩
  | _ => none

@[simp]
theorem elements?_array {α : Type} (elements : List Json) (decode : Json → Option α) :
    (array elements).elements? (fun part => decode part.contents) = elements.mapM decode := by
  simp [elements?]

/-- A natural number. -/
@[simp]
def natural? : Json → Option Nat
  | natural value => some value
  | _ => none

/-- A text. -/
@[simp]
def text? : Json → Option String
  | string text => some text
  | _ => none

/-- What is decoded from a document, unless it is missing. -/
def optional? {α : Type} (decoded : Option α) : Json → Option (Option α)
  | null => some none
  | _ => decoded.map some

end Json

open Json (Part sizeOf_node)

/-- The kind of a token. -/
def TokenKind.ofDocument? : Json → Option TokenKind
  | .object [("STRING", .string text)] => some (string text)
  | .object [("NUMBER", .number value)] => some (number value)
  | .string name => ofName? name "" 0
  | _ => none

/-- A token. -/
def Token.ofDocument? (document : Json) : Option Token := do
  return ⟨← TokenKind.ofDocument? (← document.field? "token_type"),
    ← (← document.field? "lexeme").contents.text?, ← (← document.field? "line").contents.natural?⟩

/-- A constant. -/
def Literal.ofDocument? : Json → Option Literal
  | .object [("Number", .number value)] => some (.number value)
  | .object [("Str", .string text)] => some (.string text)
  | .string "True" => some (.boolean true)
  | .string "False" => some (.boolean false)
  | .string "Nil" => some .nil
  | _ => none

/-- An expression. -/
def Expr.ofDocument? (document : Json) : Option Expr :=
  match document with
  | .object [("Literal", contents)] => do return literal (← Literal.ofDocument? contents)
  | .object [("Unary", contents)] => do
    return unary (← Token.ofDocument? (← contents.field? "operator"))
      (← ofDocument? (← contents.field? "right"))
  | .object [("Binary", contents)] => do
    return binary (← ofDocument? (← contents.field? "left"))
      (← Token.ofDocument? (← contents.field? "operator"))
      (← ofDocument? (← contents.field? "right"))
  | .object [("Grouping", contents)] => do return grouping (← ofDocument? contents)
  | .object [("Variable", contents)] => do
    return name (← (← contents.field? "id").contents.natural?)
      (← Token.ofDocument? (← contents.field? "name"))
  | .object [("Assign", contents)] => do
    return assign (← (← contents.field? "id").contents.natural?)
      (← Token.ofDocument? (← contents.field? "name"))
      (← ofDocument? (← contents.field? "value"))
  | .object [("Logical", contents)] => do
    return logical (← ofDocument? (← contents.field? "left"))
      (← Token.ofDocument? (← contents.field? "operator"))
      (← ofDocument? (← contents.field? "right"))
  | .object [("Call", contents)] => do
    return call (← ofDocument? (← contents.field? "callee"))
      (← Token.ofDocument? (← contents.field? "paren"))
      (← (← contents.field? "arguments").contents.elements? (ofDocument? ·))
  | .object [("Get", contents)] => do
    return get (← ofDocument? (← contents.field? "object"))
      (← Token.ofDocument? (← contents.field? "name"))
  | .object [("Set", contents)] => do
    return set (← ofDocument? (← contents.field? "object"))
      (← Token.ofDocument? (← contents.field? "name"))
      (← ofDocument? (← contents.field? "value"))
  | .object [("This", contents)] => do
    return receiver (← (← contents.field? "id").contents.natural?)
      (← Token.ofDocument? (← contents.field? "keyword"))
  | _ => none
termination_by document
decreasing_by all_goals
  first
  | exact sizeOf_node _ _
  | exact Part.lt_node _ _
  | exact Nat.lt_trans (Part.smaller _) (Part.lt_node _ _)

/-- An expression, unless it is missing. -/
def Expr.ofOption? (document : Json) : Option (Option Expr) :=
  document.optional? (Expr.ofDocument? document)

mutual

/-- A function or method. -/
def FunctionDecl.ofDocument? (document : Json) : Option FunctionDecl := do
  return .mk (← Token.ofDocument? (← document.field? "name"))
    (← (← document.field? "params").contents.elements? (Token.ofDocument? ·))
    (← (← document.field? "body").contents.elements? (Stmt.ofDocument? ·))
termination_by document
decreasing_by
  exact Nat.lt_trans (Part.smaller _) (Part.smaller _)

/-- A statement. -/
def Stmt.ofDocument? (document : Json) : Option Stmt :=
  match document with
  | .object [("Expression", contents)] => do return .expression (← Expr.ofDocument? contents)
  | .object [("Print", contents)] => do return .print (← Expr.ofDocument? contents)
  | .object [("Var", contents)] => do
    return .varDecl (← Token.ofDocument? (← contents.field? "name"))
      (← Expr.ofOption? (← contents.field? "initializer"))
  | .object [("Block", contents)] => do
    return .block (← contents.elements? (Stmt.ofDocument? ·))
  | .object [("If", contents)] => do
    let no ← contents.field? "else_branch"
    return .ifElse (← Expr.ofDocument? (← contents.field? "condition"))
      (← Stmt.ofDocument? (← contents.field? "then_branch"))
      (← no.contents.optional? (Stmt.ofDocument? no))
  | .object [("While", contents)] => do
    return .whileLoop (← Expr.ofDocument? (← contents.field? "condition"))
      (← Stmt.ofDocument? (← contents.field? "body"))
  | .object [("Function", contents)] => do return .funDecl (← FunctionDecl.ofDocument? contents)
  | .object [("Return", contents)] => do
    return .returnValue (← Token.ofDocument? (← contents.field? "keyword"))
      (← Expr.ofOption? (← contents.field? "value"))
  | .object [("Class", contents)] => do
    return .classDecl (← Token.ofDocument? (← contents.field? "name"))
      (← Expr.ofOption? (← contents.field? "superclass"))
      (← (← contents.field? "methods").contents.elements? (FunctionDecl.ofDocument? ·))
  | _ => none
termination_by document
decreasing_by all_goals
  first
  | exact sizeOf_node _ _
  | exact Part.lt_node _ _
  | exact Nat.lt_trans (Part.smaller _) (Part.lt_node _ _)

end

/-- The program that a text shows as a document. -/
def Program.ofDocumentText? (text : String) : Option Program := do
  (← Json.read text).elements? (Stmt.ofDocument? ·)

/-! ## Round trips -/

theorem TokenKind.ofDocument?_document (kind : TokenKind) :
    ofDocument? kind.document = some kind := by
  cases kind with
  | punctuator mark | keyword mark => cases mark <;> rfl
  | _ => rfl

/-- A token is decoded from its document. -/
@[simp]
theorem Token.ofDocument?_document (token : Token) : ofDocument? token.document = some token := by
  simp [ofDocument?, document, TokenKind.ofDocument?_document]

@[simp]
theorem Token.mapM_ofDocument? (tokens : List Token) :
    tokens.mapM (ofDocument? ∘ document) = some tokens := by
  induction tokens with
  | nil => rfl
  | cons token tokens ih => simp [ih]

@[simp]
theorem Literal.ofDocument?_document (value : Literal) :
    ofDocument? value.document = some value := by
  cases value with
  | boolean value => cases value <;> rfl
  | _ => rfl

namespace Expr

mutual

/-- An expression is decoded from its document. -/
theorem ofDocument?_document : ∀ value : Expr, ofDocument? value.document = some value
  | literal value | name _ _ | receiver _ _ => by simp [document, Json.node, ofDocument?]
  | grouping inner | unary _ inner | assign _ _ inner | get inner _ =>
    by simp [document, Json.node, ofDocument?, ofDocument?_document inner]
  | binary left _ right | logical left _ right | set left _ right => by
    simp [document, Json.node, ofDocument?, ofDocument?_document left, ofDocument?_document right]
  | call callee _ arguments => by
    simp [document, Json.node, ofDocument?, ofDocument?_document callee, mapM_ofDocument? arguments]

theorem mapM_ofDocument? : ∀ values : List Expr, (documents values).mapM ofDocument? = some values
  | [] => rfl
  | value :: values => by
    simp [documents, ofDocument?_document value, mapM_ofDocument? values]

end

attribute [simp] ofDocument?_document

@[simp]
theorem ofOption?_optionDocument (value : Option Expr) :
    ofOption? (optionDocument value) = some value := by
  rcases value with _ | value
  · rfl
  · rw [ofOption?, optionDocument, ofDocument?_document]
    cases value <;> rfl

end Expr

/-- The document of a statement is not that of a missing one. -/
theorem Stmt.optional?_document (stmt : Stmt) (decoded : Option Stmt) :
    stmt.document.optional? decoded = decoded.map some := by
  rcases stmt with _ | _ | _ | _ | ⟨_, _, _ | _⟩ | _ | _ | _ | _ <;> rfl

mutual

theorem FunctionDecl.ofDocument?_document :
    ∀ decl : FunctionDecl, FunctionDecl.ofDocument? decl.document = some decl
  | .mk _ _ body => by
    simp [FunctionDecl.document, FunctionDecl.ofDocument?, Stmt.mapM_ofDocument? body]

theorem FunctionDecl.mapM_ofDocument? : ∀ methods : List FunctionDecl,
    (FunctionDecl.documents methods).mapM FunctionDecl.ofDocument? = some methods
  | [] => rfl
  | method :: methods => by
    simp [FunctionDecl.documents, FunctionDecl.ofDocument?_document method,
      FunctionDecl.mapM_ofDocument? methods]

/-- A statement is decoded from its document. -/
theorem Stmt.ofDocument?_document : ∀ stmt : Stmt, Stmt.ofDocument? stmt.document = some stmt
  | .expression _ | .print _ | .varDecl _ _ | .returnValue _ _ => by
    simp [Stmt.document, Json.node, Stmt.ofDocument?]
  | .block body => by simp [Stmt.document, Json.node, Stmt.ofDocument?, Stmt.mapM_ofDocument? body]
  | .ifElse _ yes none => by
    simp [Stmt.document, Json.node, Stmt.ofDocument?, Stmt.ofDocument?_document yes, Json.optional?]
  | .ifElse _ yes (some no) => by
    simp [Stmt.document, Json.node, Stmt.ofDocument?, Stmt.ofDocument?_document yes,
      Stmt.optional?_document, Stmt.ofDocument?_document no]
  | .whileLoop _ body => by
    simp [Stmt.document, Json.node, Stmt.ofDocument?, Stmt.ofDocument?_document body]
  | .funDecl decl => by
    simp [Stmt.document, Json.node, Stmt.ofDocument?, FunctionDecl.ofDocument?_document decl]
  | .classDecl _ _ methods => by
    simp [Stmt.document, Json.node, Stmt.ofDocument?, FunctionDecl.mapM_ofDocument? methods]

theorem Stmt.mapM_ofDocument? :
    ∀ stmts : List Stmt, (Stmt.documents stmts).mapM Stmt.ofDocument? = some stmts
  | [] => rfl
  | stmt :: stmts => by
    simp [Stmt.documents, Stmt.ofDocument?_document stmt, Stmt.mapM_ofDocument? stmts]

end

/-! ## Finite numbers -/

/-- A number literal has a finite value. -/
def Token.isFinite (token : Token) : Bool :=
  match token.kind with
  | .number value => value.isFinite
  | _ => true

open Json (FiniteElements FiniteFields)

theorem Token.finite_document {token : Token} (finite : token.isFinite = true) :
    token.document.Finite := by
  unfold Token.isFinite at finite
  refine ⟨?_, trivial, trivial, trivial⟩
  split at finite
  · next kind =>
    rw [kind]
    exact ⟨finite, trivial⟩
  · next other =>
    unfold TokenKind.document
    split
    · exact ⟨trivial, trivial⟩
    · next kind => exact absurd kind (other _)
    · trivial

/-- A constant that comes from a finite token is finite. -/
theorem Literal.finite_document {token : Token} {value : Literal} (finite : token.isFinite = true)
    (stands : Grammar.constant? token = some value) : value.document.Finite := by
  unfold Grammar.constant? at stands
  unfold Token.isFinite at finite
  split at stands <;> cases stands
  case h_4 kind =>
    rw [kind] at finite
    exact ⟨finite, trivial⟩
  case h_5 => exact ⟨trivial, trivial⟩
  all_goals trivial

/-- The nodes are grown from tokens that hold finite numbers. -/
abbrev FinitelyGrown (nodes : List Node) : Prop :=
  Node.Everywhere (Node.Grown (Token.isFinite · = true)) nodes

mutual

/-- An expression grown from finite tokens has a finite document. -/
theorem Expr.finite_document : ∀ value : Expr, FinitelyGrown [.expr value] → value.document.Finite
  | .literal value, grown => by
    rcases grown.here with rfl | ⟨token, finite, stands⟩
    · trivial
    · exact ⟨Literal.finite_document finite stands, trivial⟩
  | .grouping inner, grown => ⟨inner.finite_document grown.below, trivial⟩
  | .unary _ operand, grown =>
    ⟨⟨Token.finite_document grown.here.1, operand.finite_document grown.below, trivial⟩, trivial⟩
  | .binary left _ right, grown | .logical left _ right, grown =>
    ⟨⟨left.finite_document grown.below.head, Token.finite_document grown.here.1,
      right.finite_document grown.below.tail, trivial⟩, trivial⟩
  | .name _ _, grown => ⟨⟨trivial, Token.finite_document grown.here.holds, trivial⟩, trivial⟩
  | .receiver _ _, grown => ⟨⟨trivial, Token.finite_document grown.here.1, trivial⟩, trivial⟩
  | .assign _ _ value, grown =>
    ⟨⟨trivial, Token.finite_document grown.here.holds,
      value.finite_document grown.below, trivial⟩, trivial⟩
  | .call callee _ arguments, grown =>
    ⟨⟨callee.finite_document grown.below.head, Token.finite_document grown.here.1,
      Expr.finite_documents arguments grown.below.tail, trivial⟩, trivial⟩
  | .get target _, grown =>
    ⟨⟨target.finite_document grown.below, Token.finite_document grown.here.holds, trivial⟩, trivial⟩
  | .set object _ value, grown =>
    ⟨⟨object.finite_document grown.below.head, Token.finite_document grown.here.holds,
      value.finite_document grown.below.tail, trivial⟩, trivial⟩

theorem Expr.finite_documents :
    ∀ values : List Expr, FinitelyGrown (values.map .expr) → FiniteElements (documents values)
  | [], _ => trivial
  | value :: values, grown =>
    ⟨value.finite_document grown.head, Expr.finite_documents values grown.tail⟩

end

theorem Expr.finite_optionDocument {value : Option Expr}
    (grown : FinitelyGrown (value.toList.map .expr)) : (optionDocument value).Finite := by
  cases value with
  | none => trivial
  | some value => exact value.finite_document grown

theorem Token.finite_documents {tokens : List Token}
    (finite : ∀ token ∈ tokens, token.isFinite = true) :
    FiniteElements (tokens.map Token.document) := by
  induction tokens with
  | nil => trivial
  | cons token tokens ih =>
    rcases List.forall_mem_cons.mp finite with ⟨head, tail⟩
    exact ⟨Token.finite_document head, ih tail⟩

mutual

theorem FunctionDecl.finite_document : ∀ decl : FunctionDecl,
    FinitelyGrown [.function decl] → decl.document.Finite
  | .mk _ _ body, grown =>
    ⟨Token.finite_document grown.here.1.holds, Token.finite_documents fun name mem =>
      (grown.here.2.1 name mem).holds, Stmt.finite_documents body grown.below, trivial⟩

theorem FunctionDecl.finite_documents : ∀ methods : List FunctionDecl,
    FinitelyGrown (methods.map .function) → FiniteElements (FunctionDecl.documents methods)
  | [], _ => trivial
  | method :: methods, grown =>
    ⟨method.finite_document grown.head, FunctionDecl.finite_documents methods grown.tail⟩

/-- A statement grown from finite tokens has a finite document. -/
theorem Stmt.finite_document : ∀ stmt : Stmt, FinitelyGrown [.stmt stmt] → stmt.document.Finite
  | .expression value, grown | .print value, grown =>
    ⟨value.finite_document grown.operands, trivial⟩
  | .varDecl _ _, grown =>
    ⟨⟨Token.finite_document grown.here.holds,
      Expr.finite_optionDocument grown.operands, trivial⟩, trivial⟩
  | .block body, grown => ⟨Stmt.finite_documents body grown.inner, trivial⟩
  | .ifElse cond yes none, grown =>
    ⟨⟨cond.finite_document grown.operands, yes.finite_document grown.inner, trivial, trivial⟩,
      trivial⟩
  | .ifElse cond yes (some no), grown =>
    ⟨⟨cond.finite_document grown.operands, yes.finite_document grown.inner.head,
      no.finite_document grown.inner.tail, trivial⟩, trivial⟩
  | .whileLoop cond body, grown =>
    ⟨⟨cond.finite_document grown.operands, body.finite_document grown.inner, trivial⟩, trivial⟩
  | .funDecl decl, grown => ⟨decl.finite_document grown.functions, trivial⟩
  | .returnValue _ _, grown =>
    ⟨⟨Token.finite_document grown.here.1,
      Expr.finite_optionDocument grown.operands, trivial⟩, trivial⟩
  | .classDecl _ _ methods, grown =>
    ⟨⟨Token.finite_document grown.here.1.holds, Expr.finite_optionDocument grown.operands,
      FunctionDecl.finite_documents methods grown.functions, trivial⟩, trivial⟩

theorem Stmt.finite_documents :
    ∀ stmts : List Stmt, FinitelyGrown (stmts.map .stmt) → FiniteElements (Stmt.documents stmts)
  | [], _ => trivial
  | stmt :: stmts, grown =>
    ⟨stmt.finite_document grown.head, Stmt.finite_documents stmts grown.tail⟩

end

/-! ## Texts -/

/--
What is printed for an accepted text whose numbers are finite is a document.
The document is decoded to the program: no id, token or constant is lost.
-/
theorem programs_are_decoded_from_their_documents {text : String} {nextId : ExprId}
    {program : Program} (accepted : readProgram text 0 = (.ok program, nextId))
    (finite : (scan text).tokens.all Token.isFinite = true) :
    Command.showTree true text = .ofText (program.documentText ++ "\n") "" 0 ∧
      Program.ofDocumentText? program.documentText = some program := by
  have grown := ((derives_of_readProgram accepted).grown fun token mem =>
    List.all_eq_true.mp finite token ((List.takeWhile_sublist _).subset mem)).1
  constructor
  · rw [Command.showTree, accepted]
    rfl
  · rw [Program.ofDocumentText?, Program.documentText, Json.read_text]
    · exact (Json.elements?_array _ _).trans (Stmt.mapM_ofDocument? program)
    · exact Stmt.finite_documents program grown

/-- A small number, a loop with a counter and a text of several lines. -/
theorem counted_loop_is_decoded_from_its_document :
    let text := "for (var i = 0.000001; i <= 1; i = i / 0.1) \x7b print \"a\tb\n\"; \x7d"
    (scan text).tokens.all Token.isFinite = true ∧
      ∃ program nextId, readProgram text 0 = (.ok program, nextId) ∧
        Program.ofDocumentText? program.documentText = some program := by
  intro text
  have finite : (scan text).tokens.all Token.isFinite = true := by decide +kernel
  rcases exists_of_isAccepted (by decide +kernel : isAccepted text = true) with
    ⟨program, nextId, accepted, _⟩
  exact ⟨finite, program, nextId, accepted,
    (programs_are_decoded_from_their_documents accepted finite).2⟩

end Treewalk
