import Treewalk.Numeral.Layout

/-!
# Tokens

A token is a kind, the text it was read from and the line it ended on.  Kinds
are punctuators, reserved words, identifiers, string and number literals with
their decoded contents, and the mark at the end of the text.

Every kind has a name in capitals.  Two kinds with one name differ at most in
their literal contents, which is the equality the grammar uses.
-/

namespace Treewalk

/-- Marks of one or two characters. -/
inductive Punctuator where
  | leftParen
  | rightParen
  | leftBrace
  | rightBrace
  | comma
  | dot
  | minus
  | plus
  | semicolon
  | slash
  | star
  | bang
  | bangEqual
  | equal
  | equalEqual
  | greater
  | greaterEqual
  | less
  | lessEqual
deriving DecidableEq, Repr

namespace Punctuator

/-- All punctuators. -/
def all : List Punctuator :=
  [.leftParen, .rightParen, .leftBrace, .rightBrace, .comma, .dot, .minus,
    .plus, .semicolon, .slash, .star, .bang, .bangEqual, .equal, .equalEqual,
    .greater, .greaterEqual, .less, .lessEqual]

/-- The name of a punctuator in token listings. -/
def name : Punctuator → String
  | leftParen => "LEFT_PAREN"
  | rightParen => "RIGHT_PAREN"
  | leftBrace => "LEFT_BRACE"
  | rightBrace => "RIGHT_BRACE"
  | comma => "COMMA"
  | dot => "DOT"
  | minus => "MINUS"
  | plus => "PLUS"
  | semicolon => "SEMICOLON"
  | slash => "SLASH"
  | star => "STAR"
  | bang => "BANG"
  | bangEqual => "BANG_EQUAL"
  | equal => "EQUAL"
  | equalEqual => "EQUAL_EQUAL"
  | greater => "GREATER"
  | greaterEqual => "GREATER_EQUAL"
  | less => "LESS"
  | lessEqual => "LESS_EQUAL"

/-- The one-character punctuators that nothing can extend. -/
def ofChar? : Char → Option Punctuator
  | '(' => some leftParen
  | ')' => some rightParen
  | '\x7b' => some leftBrace
  | '\x7d' => some rightBrace
  | ',' => some comma
  | '.' => some dot
  | '-' => some minus
  | '+' => some plus
  | ';' => some semicolon
  | '*' => some star
  | _ => none

/-- The characters that `=` may extend, with the short and the long reading. -/
def withEqual? : Char → Option (Punctuator × Punctuator)
  | '!' => some (bang, bangEqual)
  | '=' => some (equal, equalEqual)
  | '>' => some (greater, greaterEqual)
  | '<' => some (less, lessEqual)
  | _ => none

end Punctuator

/-- The reserved words. -/
inductive Keyword where
  | andWord
  | classWord
  | elseWord
  | falseWord
  | funWord
  | forWord
  | ifWord
  | nilWord
  | orWord
  | printWord
  | returnWord
  | superWord
  | thisWord
  | trueWord
  | varWord
  | whileWord
deriving DecidableEq, Repr

namespace Keyword

/-- All reserved words. -/
def all : List Keyword :=
  [.andWord, .classWord, .elseWord, .falseWord, .funWord, .forWord, .ifWord,
    .nilWord, .orWord, .printWord, .returnWord, .superWord, .thisWord,
    .trueWord, .varWord, .whileWord]

/-- How a reserved word is spelled in a program. -/
def spelling : Keyword → String
  | andWord => "and"
  | classWord => "class"
  | elseWord => "else"
  | falseWord => "false"
  | funWord => "fun"
  | forWord => "for"
  | ifWord => "if"
  | nilWord => "nil"
  | orWord => "or"
  | printWord => "print"
  | returnWord => "return"
  | superWord => "super"
  | thisWord => "this"
  | trueWord => "true"
  | varWord => "var"
  | whileWord => "while"

/-- The name of a reserved word in token listings. -/
def name : Keyword → String
  | andWord => "AND"
  | classWord => "CLASS"
  | elseWord => "ELSE"
  | falseWord => "FALSE"
  | funWord => "FUN"
  | forWord => "FOR"
  | ifWord => "IF"
  | nilWord => "NIL"
  | orWord => "OR"
  | printWord => "PRINT"
  | returnWord => "RETURN"
  | superWord => "SUPER"
  | thisWord => "THIS"
  | trueWord => "TRUE"
  | varWord => "VAR"
  | whileWord => "WHILE"

/-- The reserved word with a given spelling. -/
def ofSpelling? (text : String) : Option Keyword :=
  all.find? fun word => word.spelling == text

end Keyword

/-- What a token is. -/
inductive TokenKind where
  | punctuator (mark : Punctuator)
  | keyword (word : Keyword)
  | identifier
  /-- A string literal with the characters between its quotes. -/
  | string (text : String)
  /-- A number literal with its value. -/
  | number (value : Float)
  | endOfText
deriving DecidableEq, Repr

namespace TokenKind

/-- The name of a kind in token listings, literal contents left out. -/
def name : TokenKind → String
  | punctuator mark => mark.name
  | keyword word => word.name
  | identifier => "IDENTIFIER"
  | string _ => "STRING"
  | number _ => "NUMBER"
  | endOfText => "EOF"

/-- The kind with a given name and, for literals, the given contents. -/
def ofName? (name text : String) (value : Float) : Option TokenKind :=
  let kinds :=
    Punctuator.all.map punctuator ++ Keyword.all.map keyword ++
      [identifier, string text, number value, endOfText]
  kinds.find? fun kind => kind.name == name

/-- The kinds agree, literal contents left out. -/
def agrees (left right : TokenKind) : Bool :=
  left.name == right.name

end TokenKind

/-- A token of a program text. -/
structure Token where
  kind : TokenKind
  /-- The text the token was read from; empty at the end of the text. -/
  lexeme : String
  /-- The line the token ended on, counted from one. -/
  line : Nat
deriving DecidableEq, Repr

namespace Token

/-- The token is the mark at the end of the text. -/
def isEnd (token : Token) : Bool :=
  token.kind == .endOfText

/-- The token is a given punctuator. -/
def isMark (token : Token) (mark : Punctuator) : Bool :=
  token.kind == .punctuator mark

/-- The token is a given reserved word. -/
def isWord (token : Token) (word : Keyword) : Bool :=
  token.kind == .keyword word

/-- Where a diagnostic about the token points. -/
def location (token : Token) : String :=
  if token.isEnd then " at end" else " at '" ++ token.lexeme ++ "'"

/--
Number literals in token listings: whole numbers below `10 ^ 15` get a
fraction digit and zero no sign, all others are written plainly.
-/
def numberText (value : Float) : String :=
  match Numeral.parts value with
  | .finite negative magnitude =>
    if magnitude.integral ∧ magnitude.whole < Nat.pow 10 15 then
      Numeral.signed (negative && magnitude.whole != 0) (Nat.repr magnitude.whole ++ ".0")
    else
      Numeral.plain.text value
  | _ => Numeral.plain.text value

/-- The literal column of a token listing. -/
def literalText (token : Token) : String :=
  match token.kind with
  | .string text => text
  | .number value => numberText value
  | _ => "null"

/-- The line of a token in a token listing. -/
def listing (token : Token) : String :=
  token.kind.name ++ " " ++ token.lexeme ++ " " ++ token.literalText

/-- Same kind up to literal contents, same text and same line. -/
def agrees (left right : Token) : Bool :=
  left.kind.agrees right.kind && left.lexeme == right.lexeme && left.line == right.line

end Token

end Treewalk
