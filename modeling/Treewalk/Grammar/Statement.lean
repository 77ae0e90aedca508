import Treewalk.Diagnostic
import Treewalk.Grammar.Expression

/-!
# The grammar of statements and programs

Statements nest in statements, and declarations in blocks.  As for
expressions, the rules take the nested rules as parameters, and
`statementWithin` and `declarationWithin` tie the knot.

A declaration that cannot be read does not end the reading of a program: its
fault is noted, tokens are skipped up to the next statement boundary, and
reading goes on, so one pass reports every independent fault.

The loop with a counter has no tree of its own.  It becomes a block with the
initial statement and a plain loop, whose body is followed by the step.
-/

namespace Treewalk

namespace Grammar

open Rule

/-- An expression followed by a semicolon. -/
def expressionStatement (expression : Rule Expr) : Rule Stmt := do
  let value ← expression
  let _ ← expectMark .semicolon .expressionEnd
  return .expression value

/-- A printed value, its reserved word read before. -/
def printStatement (expression : Rule Expr) : Rule Stmt := do
  let value ← expression
  let _ ← expectMark .semicolon .printEnd
  return .print value

/-- An expression unless the next token is a given punctuator. -/
def unlessSeen (mark : Punctuator) (expression : Rule Expr) :
    Rule (Option Expr) := do
  if ← sees mark then
    return none
  else
    let value ← expression
    return some value

/-- A return, with the reserved word that was read before. -/
def returnStatement (expression : Rule Expr) (keyword : Token) :
    Rule Stmt := do
  let value ← unlessSeen .semicolon expression
  let _ ← expectMark .semicolon .returnEnd
  return .returnValue keyword value

/-- The value a variable starts with, if one is given. -/
def initialValue (expression : Rule Expr) : Rule (Option Expr) := do
  match ← takeMark .equal with
  | none => return none
  | some _ =>
    let value ← expression
    return some value

/-- A variable declaration, its reserved word read before. -/
def varDeclaration (expression : Rule Expr) : Rule Stmt := do
  let name ← expectName .variableName
  let initial ← initialValue expression
  let _ ← expectMark .semicolon .variableEnd
  return .varDecl name initial

/-- An expression in parentheses. -/
def parenthesised (opening closing : GrammarFault) (expression : Rule Expr) :
    Rule Expr := do
  let _ ← expectMark .leftParen opening
  let condition ← expression
  let _ ← expectMark .rightParen closing
  return condition

/-- A choice, its reserved word read before. -/
def ifStatement (expression : Rule Expr) (statement : Rule Stmt) :
    Rule Stmt := do
  let condition ← parenthesised .ifOpening .ifClosing expression
  let yes ← statement
  match ← takeWord .elseWord with
  | none => return .ifElse condition yes none
  | some _ =>
    let no ← statement
    return .ifElse condition yes (some no)

/-- A loop, its reserved word read before. -/
def whileStatement (expression : Rule Expr) (statement : Rule Stmt) :
    Rule Stmt := do
  let condition ← parenthesised .whileOpening .whileClosing expression
  let body ← statement
  return .whileLoop condition body

/-- The plain statement that a loop with a counter stands for. -/
def lowerFor (initial : Option Stmt) (condition step : Option Expr) (body : Stmt) : Stmt :=
  let stepped :=
    match step with
    | none => body
    | some step => .block [body, .expression step]
  let loop := .whileLoop (condition.getD (.literal (.boolean true))) stepped
  match initial with
  | none => loop
  | some initial => .block [initial, loop]

/-- The first clause of a loop with a counter. -/
def forInitial (expression : Rule Expr) : Rule (Option Stmt) := do
  match ← takeMark .semicolon with
  | some _ => return none
  | none =>
    match ← takeWord .varWord with
    | some _ =>
      let declared ← varDeclaration expression
      return some declared
    | none =>
      let stated ← expressionStatement expression
      return some stated

/-- A loop with a counter, its reserved word read before. -/
def forStatement (expression : Rule Expr) (statement : Rule Stmt) :
    Rule Stmt := do
  let _ ← expectMark .leftParen .forOpening
  let initial ← forInitial expression
  let condition ← unlessSeen .semicolon expression
  let _ ← expectMark .semicolon .loopConditionEnd
  let step ← unlessSeen .rightParen expression
  let _ ← expectMark .rightParen .forClosing
  let body ← statement
  return lowerFor initial condition step body

/-- The declarations of a block whose opening brace was read before. -/
def block (limit : Nat) (declaration : Rule (Option Stmt)) :
    Rule (List Stmt) := do
  let declared ←
    repeatUntil (fun cursor => cursor.sees .rightBrace) declaration limit
  let _ ← expectMark .rightBrace .blockClosing
  return declared.filterMap id

/-- A block as a statement, its opening brace read before. -/
def blockStatement (body : Rule (List Stmt)) : Rule Stmt := do
  let statements ← body
  return .block statements

/-- Any statement, from the rules for its parts. -/
def statementRule (expression : Rule Expr) (statement : Rule Stmt)
    (body : Rule (List Stmt)) : Rule Stmt := fun cursor =>
  match cursor.ahead with
  | [] => expressionStatement expression cursor
  | token :: rest =>
    let next := { cursor with ahead := rest }
    match token.kind with
    | .keyword .forWord => forStatement expression statement next
    | .keyword .ifWord => ifStatement expression statement next
    | .keyword .whileWord => whileStatement expression statement next
    | .keyword .returnWord => returnStatement expression token next
    | .punctuator .leftBrace => blockStatement body next
    | .keyword .printWord => printStatement expression next
    | _ => expressionStatement expression cursor

/-- A function or method from its name on. -/
def callable (limit : Nat) (kind : CallableKind) (body : Rule (List Stmt)) :
    Rule FunctionDecl := do
  let name ← expectName (.callableName kind)
  let _ ← expectMark .leftParen (.parametersOpening kind)
  let parameters ← listed limit .tooManyParameters (expectName .parameterName)
  let _ ← expectMark .rightParen .parametersClosing
  let _ ← expectMark .leftBrace (.bodyOpening kind)
  let statements ← body
  return .mk name parameters statements

/-- A function declaration, its reserved word read before. -/
def funDeclaration (limit : Nat) (body : Rule (List Stmt)) : Rule Stmt := do
  let declaration ← callable limit .function body
  return .funDecl declaration

/-- The name of a superclass, if the class has one. -/
def superclass : Rule (Option Expr) := do
  match ← takeMark .less with
  | none => return none
  | some _ =>
    let name ← expectName .superclassName
    let id ← freshId
    return some (.name id name)

/-- A class declaration, its reserved word read before. -/
def classDeclaration (limit : Nat) (body : Rule (List Stmt)) : Rule Stmt := do
  let name ← expectName .className
  let parent ← superclass
  let _ ← expectMark .leftBrace .classOpening
  let methods ←
    repeatUntil (fun cursor => cursor.sees .rightBrace) (callable limit .method body) limit
  let _ ← expectMark .rightBrace .classClosing
  return .classDecl name parent methods

/-- Any declaration, from the rules for its parts. -/
def declarationRule (limit : Nat) (expression : Rule Expr)
    (statement : Rule Stmt) (body : Rule (List Stmt)) : Rule Stmt :=
  fun cursor =>
    match cursor.ahead with
    | [] => statement cursor
    | token :: rest =>
      let next := { cursor with ahead := rest }
      match token.kind with
      | .keyword .classWord => classDeclaration limit body next
      | .keyword .funWord => funDeclaration limit body next
      | .keyword .varWord => varDeclaration expression next
      | _ => statement cursor

/-- Note the fault that stops a rule and go on at a statement boundary. -/
def recover (rule : Rule Stmt) : Rule (Option Stmt) := fun cursor =>
  match rule cursor with
  | .ok statement next => .ok (some statement) next
  | .error error next => .ok none (next.note error).resume

mutual

/-- Statements of at most a given number of tokens. -/
def statementWithin : Nat → Rule Stmt
  | 0 => expressionStatement (expressionWithin 0)
  | limit + 1 => fun cursor =>
    statementRule (expressionWithin (limit + 1)) (statementWithin limit)
      (block limit (declarationWithin limit)) cursor

/-- Declarations of at most a given number of tokens. -/
def declarationWithin : Nat → Rule (Option Stmt)
  | 0 => recover (expressionStatement (expressionWithin 0))
  | limit + 1 => fun cursor =>
    let expression := expressionWithin (limit + 1)
    let body := block limit (declarationWithin limit)
    let statement := statementRule expression (statementWithin limit) body
    recover (declarationRule limit expression statement body) cursor

end

/-- Declarations up to the end. -/
def program : Rule Program := fun cursor =>
  let limit := cursor.ahead.length
  (do
    let declared ←
      repeatUntil (fun _ => false) (declarationWithin limit) limit
    return declared.filterMap id : Rule Program) cursor

end Grammar

/-- What reading a program from tokens comes to. -/
structure Parsed where
  /-- The program, or all faults if there was at least one. -/
  result : Except (List GrammarError) Program
  /-- The first id that was not handed out. -/
  nextId : ExprId

/-- Read a program; ids are handed out from a given one on. -/
def parse (stream : TokenStream) (firstId : ExprId) : Parsed :=
  match Grammar.program ⟨stream.tokens, stream.ending, firstId, []⟩ with
  | .ok program cursor =>
    ⟨if cursor.errors.isEmpty then .ok program else .error cursor.errors, cursor.nextId⟩
  | .error error cursor => ⟨.error (cursor.errors ++ [error]), cursor.nextId⟩

/-- The report of a lexical fault. -/
def LexicalError.diagnostic (error : LexicalError) : Diagnostic :=
  .lexical error.line error.fault.message

/-- The report of a grammar fault. -/
def GrammarError.diagnostic (error : GrammarError) : Diagnostic :=
  .grammarAt error.token error.fault.message

/--
A program is accepted if neither its characters nor its tokens are at fault.
If only characters are, their faults stand in the order they were found;
otherwise all faults are sorted by line.
-/
def accept (lexical : List LexicalError)
    (result : Except (List GrammarError) Program) : Except Failure Program :=
  let lexical := lexical.map LexicalError.diagnostic
  match result with
  | .ok program =>
    if lexical.isEmpty then .ok program else .error (.grammar lexical)
  | .error errors =>
    let all := lexical ++ errors.map GrammarError.diagnostic
    .error (.grammar (Diagnostic.sortByLine all))

end Treewalk
