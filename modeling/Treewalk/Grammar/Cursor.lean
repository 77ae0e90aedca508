import Treewalk.Token.Scan
import Treewalk.Tree.Basic

/-!
# Rules over a cursor of tokens

A grammar rule reads tokens from a `Cursor` and either yields a tree or stops
at a fault.  The cursor also hands out expression ids and keeps the faults
that were noted without stopping; both survive when a rule stops.

The end mark is kept apart from the tokens ahead, so a cursor is at the end
exactly when no token is ahead, and no rule can read past it.  Repetition is
bounded by a limit that is at least the number of tokens ahead: every round of
every loop takes at least one.
-/

namespace Treewalk

/-- Functions and methods differ in the wording of diagnostics. -/
inductive CallableKind where
  | function
  | method
deriving DecidableEq, Repr

namespace CallableKind

/-- The word for the kind of callable. -/
def word : CallableKind → String
  | function => "function"
  | method => "method"

end CallableKind

/-- What the grammar finds wrong at a token. -/
inductive GrammarFault where
  | className
  | superclassName
  | classOpening
  | classClosing
  | callableName (kind : CallableKind)
  | parametersOpening (kind : CallableKind)
  | parameterName
  | parametersClosing
  | bodyOpening (kind : CallableKind)
  | tooManyParameters
  | variableName
  | variableEnd
  | forOpening
  | loopConditionEnd
  | forClosing
  | printEnd
  | expressionEnd
  | ifOpening
  | ifClosing
  | whileOpening
  | whileClosing
  | returnEnd
  | blockClosing
  | invalidTarget
  | propertyName
  | tooManyArguments
  | argumentsClosing
  | groupingClosing
  | expression
deriving DecidableEq, Repr

namespace GrammarFault

/-- The wording of a grammar fault. -/
def message : GrammarFault → String
  | className => "Expect class name."
  | superclassName => "Expect superclass name."
  | classOpening => "Expect '\x7b' before class body."
  | classClosing => "Expect '\x7d' after class body."
  | callableName kind => "Expect " ++ kind.word ++ " name."
  | parametersOpening kind => "Expect '(' after " ++ kind.word ++ " name."
  | parameterName => "Expect parameter name."
  | parametersClosing => "Expect ')' after parameters."
  | bodyOpening kind => "Expect '\x7b' before " ++ kind.word ++ " body."
  | tooManyParameters => "Can't have more than 255 parameters."
  | variableName => "Expect variable name."
  | variableEnd => "Expect ';' after variable declaration."
  | forOpening => "Expect '(' after 'for'."
  | loopConditionEnd => "Expect ';' after loop condition."
  | forClosing => "Expect ')' after for clauses."
  | printEnd => "Expect ';' after value."
  | expressionEnd => "Expect ';' after expression."
  | ifOpening => "Expect '(' after 'if'."
  | ifClosing => "Expect ')' after if condition."
  | whileOpening => "Expect '(' after 'while'."
  | whileClosing => "Expect ')' after condition."
  | returnEnd => "Expect ';' after return value."
  | blockClosing => "Expect '\x7d' after block."
  | invalidTarget => "Invalid assignment target."
  | propertyName => "Expect property name after '.'."
  | tooManyArguments => "Can't have more than 255 arguments."
  | argumentsClosing => "Expect ')' after arguments."
  | groupingClosing => "Expect ')' after expression."
  | expression => "Expect expression."

/-- The fault stops the rule it occurs in; the others are only noted. -/
def stops : GrammarFault → Bool
  | tooManyParameters => false
  | tooManyArguments => false
  | invalidTarget => false
  | _ => true

end GrammarFault

/-- A grammar fault and the token it points at. -/
structure GrammarError where
  fault : GrammarFault
  token : Token
deriving DecidableEq, Repr

/-- Tokens up to an end mark. -/
structure TokenStream where
  tokens : List Token
  ending : Token
deriving DecidableEq, Repr

namespace TokenStream

/--
The tokens before the first end mark, and that mark.  A list without one is
read as if it ended on the line of its last token.
-/
def ofList (tokens : List Token) : TokenStream where
  tokens := tokens.takeWhile fun token => !token.isEnd
  ending :=
    match tokens.find? Token.isEnd with
    | some ending => ending
    | none => Scan.endToken ((tokens.getLast?.map Token.line).getD 1)

end TokenStream

/-- Where a rule stands. -/
structure Cursor where
  /-- The tokens not read yet, the end mark left out. -/
  ahead : List Token
  ending : Token
  /-- The next expression id to hand out. -/
  nextId : ExprId
  /-- The faults noted so far, in the order they were found. -/
  errors : List GrammarError
deriving DecidableEq, Repr

namespace Cursor

/-- The next token, or the end mark. -/
def peek (cursor : Cursor) : Token :=
  cursor.ahead.headD cursor.ending

/-- No token is ahead. -/
def atEnd (cursor : Cursor) : Bool :=
  cursor.ahead.isEmpty

/-- The next token is a given punctuator. -/
def sees (cursor : Cursor) (mark : Punctuator) : Bool :=
  match cursor.ahead with
  | [] => false
  | token :: _ => token.isMark mark

/-- Keep a fault for the report. -/
def note (cursor : Cursor) (error : GrammarError) : Cursor :=
  { cursor with errors := cursor.errors ++ [error] }

/-- The words that can only start a declaration or statement. -/
def startsStatement (token : Token) : Bool :=
  match token.kind with
  | .keyword word =>
    [Keyword.classWord, .funWord, .varWord, .forWord, .ifWord, .whileWord,
      .printWord, .returnWord].contains word
  | _ => false

/-- Skip tokens until one starts a statement or a semicolon has passed. -/
def skipAfter (last : Token) : List Token → List Token
  | [] => []
  | token :: rest =>
    if last.isMark .semicolon || startsStatement token then
      token :: rest
    else
      skipAfter token rest

/-- Skip the token at fault and go on to the next statement boundary. -/
def resume (cursor : Cursor) : Cursor :=
  match cursor.ahead with
  | [] => cursor
  | token :: rest => { cursor with ahead := skipAfter token rest }

end Cursor

/-- A grammar rule: it reads from a cursor and yields a value or stops. -/
abbrev Rule := EStateM GrammarError Cursor

namespace Rule

variable {α : Type}

/-- Stop at the next token. -/
def fail (fault : GrammarFault) : Rule α := fun cursor =>
  .error ⟨fault, cursor.peek⟩ cursor

/-- Note a fault at a token and go on. -/
def noteAt (fault : GrammarFault) (token : Token) : Rule Unit := fun cursor =>
  .ok () (cursor.note ⟨fault, token⟩)

/-- Note a fault at the next token and go on. -/
def noteHere (fault : GrammarFault) : Rule Unit := fun cursor =>
  .ok () (cursor.note ⟨fault, cursor.peek⟩)

/-- Hand out an expression id. -/
def freshId : Rule ExprId := fun cursor =>
  .ok cursor.nextId { cursor with nextId := cursor.nextId + 1 }

/-- Take the next token if it passes a test. -/
def takeIf (test : Token → Bool) : Rule (Option Token) := fun cursor =>
  match cursor.ahead with
  | [] => .ok none cursor
  | token :: rest =>
    if test token then
      .ok (some token) { cursor with ahead := rest }
    else
      .ok none cursor

/-- Take all next tokens that pass a test. -/
def takeWhile (test : Token → Bool) : Rule (List Token) := fun cursor =>
  .ok (cursor.ahead.takeWhile test) { cursor with ahead := cursor.ahead.dropWhile test }

/-- Take the next token if it is a given punctuator. -/
def takeMark (mark : Punctuator) : Rule (Option Token) :=
  takeIf fun token => token.isMark mark

/-- Take the next token if it is a given reserved word. -/
def takeWord (word : Keyword) : Rule (Option Token) :=
  takeIf fun token => token.isWord word

/-- Take the next token, which has to pass a test. -/
def expect (test : Token → Bool) (fault : GrammarFault) : Rule Token := do
  match ← takeIf test with
  | some token => return token
  | none => fail fault

/-- Take the next token, which has to be a given punctuator. -/
def expectMark (mark : Punctuator) (fault : GrammarFault) : Rule Token :=
  expect (fun token => token.isMark mark) fault

/-- Take the next token, which has to be an identifier. -/
def expectName (fault : GrammarFault) : Rule Token :=
  expect (fun token => token.kind == .identifier) fault

/-- The next token is a given punctuator; nothing is taken. -/
def sees (mark : Punctuator) : Rule Bool := fun cursor =>
  .ok (cursor.sees mark) cursor

/-- Repeat a rule until the cursor is at the end or meets a condition. -/
def repeatUntil (stop : Cursor → Bool) (item : Rule α) : Nat → Rule (List α)
  | 0 => pure []
  | rounds + 1 => fun cursor =>
    if cursor.atEnd || stop cursor then
      .ok [] cursor
    else
      (do
        let first ← item
        let others ← repeatUntil stop item rounds
        return first :: others) cursor

/-- The most parameters a function and arguments a call can have. -/
def maxArity : Nat := 255

/-- One item of a list, noted as a fault if the list is full before it. -/
def countedItem (overflow : GrammarFault) (item : Rule α) (count : Nat) :
    Rule α := do
  if maxArity ≤ count then
    noteHere overflow
  item

/-- Items separated by commas, of which `count` have been read before. -/
def separated (overflow : GrammarFault) (item : Rule α) :
    Nat → Nat → Rule (List α)
  | 0, count => do
      let last ← countedItem overflow item count
      return [last]
  | rounds + 1, count => do
      let first ← countedItem overflow item count
      match ← takeMark .comma with
      | none => return [first]
      | some _ =>
        let others ← separated overflow item rounds (count + 1)
        return first :: others

/-- Items between parentheses, of which the opening one has been read. -/
def listed (limit : Nat) (overflow : GrammarFault) (item : Rule α) :
    Rule (List α) := do
  if ← sees .rightParen then
    return []
  else
    separated overflow item limit 0

end Rule

end Treewalk
