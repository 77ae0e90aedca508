import Treewalk.Grammar.Statement

/-!
# Reading tokens by index

The same grammar over a source of tokens that is asked by index.  So a reader
can do what the rules over a cursor cannot: ask for a token where there is
none, and go on without end.  Both halt it.  A loop makes at most `fuel` rounds
and nested rules are entered at most `depth` deep.
-/

namespace Treewalk.Indexed

/-- Where a reader stands. -/
structure Place where
  /-- The index of the next token. -/
  current : Nat
  /-- The next expression id to hand out. -/
  nextId : ExprId
  /-- The faults noted so far, in the order they were found. -/
  errors : List GrammarError
deriving DecidableEq, Repr

/-- The place one token further on. -/
def Place.next (place : Place) : Place :=
  { place with current := place.current + 1 }

/-- Why a reader does not go on. -/
inductive Halt where
  | fault (error : GrammarError)
  /-- A token was asked for where there is none. -/
  | outside
  /-- The rounds of a loop or the depth of nested rules are used up. -/
  | endless
deriving DecidableEq, Repr

/-- A reader stands at a place and yields a value or halts. -/
abbrev Reader := EStateM Halt Place

/-! ## Tokens by index -/

section

variable (source : Nat → Option Token) {α : Type}

/-- The token at an index, if there is one. -/
def tokenAt (index : Nat) : Reader Token := fun place =>
  match source index with
  | some token => .ok token place
  | none => .error .outside place

/-- The next token. -/
def peek : Reader Token := fun place =>
  tokenAt source place.current place

/-- The token before the next one. -/
def previous : Reader Token := fun place =>
  match place.current with
  | 0 => .error .outside place
  | index + 1 => tokenAt source index place

/-- The next token is the end mark. -/
def atEnd : Reader Bool := do
  let token ← peek source
  return token.isEnd

/-- The next token passes a test and is not the end mark. -/
def check (test : Token → Bool) : Reader Bool := do
  if ← atEnd source then
    return false
  else
    let token ← peek source
    return test token

/-- Go on to the next index. -/
def step : Reader Unit := fun place =>
  .ok () place.next

/-- Pass the next token, unless it is the end mark. -/
def advance : Reader Token := do
  if ← atEnd source then
    previous source
  else
    step
    previous source

/-- Pass the next token if it passes a test. -/
def takes (test : Token → Bool) : Reader Bool := do
  if ← check source test then
    let _ ← advance source
    return true
  else
    return false

/-- Pass the next token if it is a given punctuator. -/
def takesMark (mark : Punctuator) : Reader Bool :=
  takes source fun token => token.isMark mark

/-- Pass the next token if it is a given reserved word. -/
def takesWord (word : Keyword) : Reader Bool :=
  takes source fun token => token.isWord word

/-- Pass the next token if it is one of some punctuators, tried in turn. -/
def takesAnyMark : List Punctuator → Reader Bool
  | [] => return false
  | mark :: marks => do
      if ← takesMark source mark then
        return true
      else
        takesAnyMark marks

/-- Halt at the next token. -/
def fail (fault : GrammarFault) : Reader α := do
  let token ← peek source
  throw (.fault ⟨fault, token⟩)

/-- Halt since a bound is reached. -/
def endless : Reader α :=
  throw .endless

/-- Pass the next token, which has to pass a test. -/
def expect (test : Token → Bool) (fault : GrammarFault) : Reader Token := do
  if ← check source test then
    advance source
  else
    fail source fault

/-- Pass the next token, which has to be a given punctuator. -/
def expectMark (mark : Punctuator) (fault : GrammarFault) : Reader Token :=
  expect source (·.isMark mark) fault

/-- Pass the next token, which has to be an identifier. -/
def expectName (fault : GrammarFault) : Reader Token :=
  expect source (fun token => token.kind == .identifier) fault

/-- The next token is a given punctuator. -/
def sees (mark : Punctuator) : Reader Bool :=
  check source fun token => token.isMark mark

/-- Note a fault at a token and go on. -/
def noteAt (fault : GrammarFault) (token : Token) : Reader Unit := fun place =>
  .ok () { place with errors := place.errors ++ [⟨fault, token⟩] }

/-- Note a fault at the next token and go on. -/
def noteHere (fault : GrammarFault) : Reader Unit := do
  let token ← peek source
  noteAt fault token

/-- Hand out an expression id. -/
def freshId : Reader ExprId := fun place =>
  .ok place.nextId { place with nextId := place.nextId + 1 }

/-- Repeat an item as long as a condition holds. -/
def repeatWhile (goesOn : Reader Bool) (item : Reader α) :
    Nat → Reader (List α)
  | 0 => endless
  | rounds + 1 => do
      if ← goesOn then
        let first ← item
        let others ← repeatWhile goesOn item rounds
        return first :: others
      else
        return []

/-- The reader is not at the end. -/
def beforeEnd : Reader Bool := do
  let ended ← atEnd source
  return !ended

/-- The next token is neither a right brace nor the end mark. -/
def insideBraces : Reader Bool := do
  if ← sees source .rightBrace then
    return false
  else
    beforeEnd source

/-- One item of a list, noted as a fault if the list is full before it. -/
def countedItem (overflow : GrammarFault) (item : Reader α) (count : Nat) :
    Reader α := do
  if Rule.maxArity ≤ count then
    noteHere source overflow
  item

/-- Items separated by commas, of which `count` have been read before. -/
def separated (overflow : GrammarFault) (item : Reader α) :
    Nat → Nat → Reader (List α)
  | 0, _ => endless
  | rounds + 1, count => do
      let first ← countedItem source overflow item count
      if ← takesMark source .comma then
        let others ← separated overflow item rounds (count + 1)
        return first :: others
      else
        return [first]

/-- Items between parentheses, of which the opening one has been read. -/
def listed (fuel : Nat) (overflow : GrammarFault) (item : Reader α) :
    Reader (List α) := do
  if ← sees source .rightParen then
    return []
  else
    separated source overflow item fuel 0

end

/-! ## Expressions -/

section

variable (source : Nat → Option Token) (fuel : Nat) (expression : Reader Expr)
  (statement : Reader Stmt) (body : Reader (List Stmt))

/-- Further operands joined to a tree by operators of one level. -/
def chainMore (join : Expr → Token → Expr → Expr) (operates : Reader Bool)
    (operand : Reader Expr) : Nat → Expr → Reader Expr
  | 0, _ => endless
  | rounds + 1, left => do
      if ← operates then
        let operator ← previous source
        let right ← operand
        chainMore join operates operand rounds (join left operator right)
      else
        return left

/-- A level of left-associative operators over a tighter level. -/
def chain (join : Expr → Token → Expr → Expr) (operates : Reader Bool)
    (fuel : Nat) (operand : Reader Expr) : Reader Expr := do
  let first ← operand
  chainMore source join operates operand fuel first

/-- The rest of an expression in parentheses. -/
def finishGrouping : Reader Expr := do
  let inner ← expression
  let _ ← expectMark source .rightParen .groupingClosing
  return .grouping inner

/-- The receiver, names and parenthesised expressions. -/
def reference : Reader Expr := do
  if ← takesWord source .thisWord then
    let id ← freshId
    let keyword ← previous source
    return .receiver id keyword
  else if ← takes source (fun token => token.kind == .identifier) then
    let id ← freshId
    let name ← previous source
    return .name id name
  else if ← takesMark source .leftParen then
    finishGrouping source expression
  else
    fail source .expression

/-- The value of a token that carries one. -/
def valueOf (token : Token) : Option Literal :=
  match token.kind with
  | .number value => some (.number value)
  | .string text => some (.string text)
  | _ => none

/-- Constants that carry their value, and what is no constant. -/
def valued : Reader Expr := do
  let token ← peek source
  match valueOf token with
  | some value =>
    let _ ← advance source
    return .literal value
  | none => reference source expression

/-- Constants, names, the receiver and parenthesised expressions. -/
def primary : Reader Expr := do
  if ← takesWord source .falseWord then
    return .literal (.boolean false)
  else if ← takesWord source .trueWord then
    return .literal (.boolean true)
  else if ← takesWord source .nilWord then
    return .literal .nil
  else
    valued source expression

/-- The arguments of a call and the parenthesis that closes them. -/
def finishCall (callee : Expr) : Reader Expr := do
  let arguments ← listed source fuel .tooManyArguments expression
  let closing ← expectMark source .rightParen .argumentsClosing
  return .call callee closing arguments

/-- Calls and property reads that follow a primary expression. -/
def callMore : Nat → Expr → Reader Expr
  | 0, _ => endless
  | rounds + 1, callee => do
      if ← takesMark source .leftParen then
        let called ← finishCall source fuel expression callee
        callMore rounds called
      else if ← takesMark source .dot then
        let property ← expectName source .propertyName
        callMore rounds (.get callee property)
      else
        return callee

/-- A primary expression with the calls and property reads after it. -/
def call : Reader Expr := do
  let callee ← primary source expression
  callMore source fuel expression fuel callee

/-- Operators in front of an operand, one after the other. -/
def unaryMore (operand : Reader Expr) : Nat → Reader Expr
  | 0 => endless
  | rounds + 1 => do
      if ← takesAnyMark source [.bang, .minus] then
        let operator ← previous source
        let right ← unaryMore operand rounds
        return .unary operator right
      else
        operand

/-- Operators in front of an operand. -/
def unary : Reader Expr :=
  unaryMore source (call source fuel expression) fuel

/-- Products and quotients. -/
def factor : Reader Expr :=
  chain source .binary (takesAnyMark source [.star, .slash]) fuel (unary source fuel expression)

/-- Sums and differences. -/
def term : Reader Expr :=
  chain source .binary (takesAnyMark source [.minus, .plus]) fuel (factor source fuel expression)

/-- Order comparisons. -/
def comparison : Reader Expr :=
  chain source .binary (takesAnyMark source [.greater, .greaterEqual, .less, .lessEqual]) fuel
    (term source fuel expression)

/-- Equality comparisons. -/
def equality : Reader Expr :=
  chain source .binary (takesAnyMark source [.bangEqual, .equalEqual]) fuel
    (comparison source fuel expression)

/-- Conjunctions. -/
def conjunction : Reader Expr :=
  chain source .logical (takesWord source .andWord) fuel (equality source fuel expression)

/-- Disjunctions. -/
def disjunction : Reader Expr :=
  chain source .logical (takesWord source .orWord) fuel (conjunction source fuel expression)

/-- An assignment, or an expression that none follows. -/
def assignment : Reader Expr := do
  let target ← disjunction source fuel expression
  if ← takesMark source .equal then
    let equals ← previous source
    let value ← expression
    match target with
    | .name _ token =>
      let id ← freshId
      return .assign id token value
    | .get object property => return .set object property value
    | other =>
      noteAt .invalidTarget equals
      return other
  else
    return target

/-- Expressions, entered at most a given number of times within each other. -/
def expressionWithin : Nat → Reader Expr
  | 0 => endless
  | depth + 1 => assignment source fuel (expressionWithin depth)

/-! ## Statements -/

/-- An expression followed by a semicolon. -/
def expressionStatement : Reader Stmt := do
  let value ← expression
  let _ ← expectMark source .semicolon .expressionEnd
  return .expression value

/-- A printed value, its reserved word read before. -/
def printStatement : Reader Stmt := do
  let value ← expression
  let _ ← expectMark source .semicolon .printEnd
  return .print value

/-- An expression unless the next token is a given punctuator. -/
def unlessSeen (mark : Punctuator) (expression : Reader Expr) :
    Reader (Option Expr) := do
  if ← sees source mark then
    return none
  else
    let value ← expression
    return some value

/-- A return, its reserved word read before. -/
def returnStatement : Reader Stmt := do
  let keyword ← previous source
  let value ← unlessSeen source .semicolon expression
  let _ ← expectMark source .semicolon .returnEnd
  return .returnValue keyword value

/-- The value a variable starts with, if one is given. -/
def initialValue : Reader (Option Expr) := do
  if ← takesMark source .equal then
    let value ← expression
    return some value
  else
    return none

/-- A variable declaration, its reserved word read before. -/
def varDeclaration : Reader Stmt := do
  let name ← expectName source .variableName
  let initial ← initialValue source expression
  let _ ← expectMark source .semicolon .variableEnd
  return .varDecl name initial

/-- An expression in parentheses. -/
def parenthesised (opening closing : GrammarFault) (expression : Reader Expr) : Reader Expr := do
  let _ ← expectMark source .leftParen opening
  let condition ← expression
  let _ ← expectMark source .rightParen closing
  return condition

/-- A choice, its reserved word read before. -/
def ifStatement : Reader Stmt := do
  let condition ← parenthesised source .ifOpening .ifClosing expression
  let yes ← statement
  if ← takesWord source .elseWord then
    let no ← statement
    return .ifElse condition yes (some no)
  else
    return .ifElse condition yes none

/-- A loop, its reserved word read before. -/
def whileStatement : Reader Stmt := do
  let condition ← parenthesised source .whileOpening .whileClosing expression
  let body ← statement
  return .whileLoop condition body

/-- The first clause of a loop with a counter. -/
def forInitial : Reader (Option Stmt) := do
  if ← takesMark source .semicolon then
    return none
  else if ← takesWord source .varWord then
    let declared ← varDeclaration source expression
    return some declared
  else
    let stated ← expressionStatement source expression
    return some stated

/-- A loop with a counter, its reserved word read before. -/
def forStatement : Reader Stmt := do
  let _ ← expectMark source .leftParen .forOpening
  let initial ← forInitial source expression
  let condition ← unlessSeen source .semicolon expression
  let _ ← expectMark source .semicolon .loopConditionEnd
  let step ← unlessSeen source .rightParen expression
  let _ ← expectMark source .rightParen .forClosing
  let body ← statement
  return Grammar.lowerFor initial condition step body

/-- The declarations of a block whose opening brace was read before. -/
def block (declaration : Reader (Option Stmt)) : Reader (List Stmt) := do
  let declared ← repeatWhile (insideBraces source) declaration fuel
  let _ ← expectMark source .rightBrace .blockClosing
  return declared.filterMap id

/-- A block as a statement, its opening brace read before. -/
def blockStatement : Reader Stmt := do
  let statements ← body
  return .block statements

/-- Any statement, from the rules for its parts. -/
def statementRule : Reader Stmt := do
  if ← takesWord source .forWord then
    forStatement source expression statement
  else if ← takesWord source .ifWord then
    ifStatement source expression statement
  else if ← takesWord source .whileWord then
    whileStatement source expression statement
  else if ← takesWord source .returnWord then
    returnStatement source expression
  else if ← takesMark source .leftBrace then
    blockStatement body
  else if ← takesWord source .printWord then
    printStatement source expression
  else
    expressionStatement source expression

/-- A function or method from its name on. -/
def callable (kind : CallableKind) (body : Reader (List Stmt)) : Reader FunctionDecl := do
  let name ← expectName source (.callableName kind)
  let _ ← expectMark source .leftParen (.parametersOpening kind)
  let parameters ←
    listed source fuel .tooManyParameters (expectName source .parameterName)
  let _ ← expectMark source .rightParen .parametersClosing
  let _ ← expectMark source .leftBrace (.bodyOpening kind)
  let statements ← body
  return .mk name parameters statements

/-- A function declaration, its reserved word read before. -/
def funDeclaration : Reader Stmt := do
  let declaration ← callable source fuel .function body
  return .funDecl declaration

/-- The name of a superclass, if the class has one. -/
def superclass : Reader (Option Expr) := do
  if ← takesMark source .less then
    let name ← expectName source .superclassName
    let id ← freshId
    return some (.name id name)
  else
    return none

/-- A class declaration, its reserved word read before. -/
def classDeclaration : Reader Stmt := do
  let name ← expectName source .className
  let parent ← superclass source
  let _ ← expectMark source .leftBrace .classOpening
  let methods ←
    repeatWhile (insideBraces source) (callable source fuel .method body) fuel
  let _ ← expectMark source .rightBrace .classClosing
  return .classDecl name parent methods

/-- Any declaration, from the rules for its parts. -/
def declarationRule : Reader Stmt := do
  if ← takesWord source .classWord then
    classDeclaration source fuel body
  else if ← takesWord source .funWord then
    funDeclaration source fuel body
  else if ← takesWord source .varWord then
    varDeclaration source expression
  else
    statement

/-- Go on to the next statement boundary. -/
def skip : Nat → Reader Unit
  | 0 => endless
  | rounds + 1 => do
      if ← atEnd source then
        return ()
      else if (← previous source).isMark .semicolon then
        return ()
      else if Cursor.startsStatement (← peek source) then
        return ()
      else
        let _ ← advance source
        skip rounds

/-- Pass the token at fault and go on to the next statement boundary. -/
def synchronize : Reader Unit := do
  let _ ← advance source
  skip source fuel

/-- Note the fault that halts a rule and go on at a statement boundary. -/
def recover (rule : Reader Stmt) : Reader (Option Stmt) :=
  fun place =>
    match rule place with
    | .ok statement later => .ok (some statement) later
    | .error (.fault error) later =>
      (do
        noteAt error.fault error.token
        synchronize source fuel
        return none : Reader (Option Stmt)) later
    | .error halt later => .error halt later

mutual

/-- Statements, entered at most a given number of times within each other. -/
def statementWithin : Nat → Reader Stmt
  | 0 => endless
  | depth + 1 =>
    statementRule source (expressionWithin source fuel fuel) (statementWithin depth)
      (block source fuel (declarationWithin depth))

/-- Declarations, entered at most a given number of times within each other. -/
def declarationWithin : Nat → Reader (Option Stmt)
  | 0 => endless
  | depth + 1 =>
    let expression := expressionWithin source fuel fuel
    let body := block source fuel (declarationWithin depth)
    let statement :=
      statementRule source expression (statementWithin depth) body
    recover source fuel (declarationRule source fuel expression statement body)

end

/-- Declarations up to the end. -/
def program : Reader Program := do
  let declared ←
    repeatWhile (beforeEnd source) (declarationWithin source fuel fuel) fuel
  return declared.filterMap id

/-- Read a program from the first index on. -/
def parse (firstId : ExprId) : Except Halt Parsed :=
  match program source fuel ⟨0, firstId, []⟩ with
  | .ok program place =>
    .ok ⟨if place.errors.isEmpty then .ok program else .error place.errors, place.nextId⟩
  | .error halt _ => .error halt

end

end Treewalk.Indexed
