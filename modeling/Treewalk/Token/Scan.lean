import Treewalk.Token.Basic

/-!
# Reading a text as tokens

A text is read byte by byte, in its UTF-8 form.  A reading head remembers where
the lexeme in hand starts, which byte comes next and which line it is on.
`scanToken` reads one lexeme, which is blank space or a comment, a token, or a
fault, and moves the head behind it; `next` goes on to the next token or fault
and `items` collects them all.

The marks, digits and letters of the language are single bytes, and no byte of
a longer character looks like one of them.  So a longer character is only ever
taken whole: in a comment, in a string, or as a fault of its own.

Faults do not stop the scan.  A character that starts no token is one fault; a
string or block comment that is never closed takes the rest of the text.  The
list of items always ends with the one mark at the end of the text.
-/

namespace Treewalk

/-- What can be wrong with the characters of a text. -/
inductive LexicalFault where
  | unexpectedCharacter (character : Char)
  | unterminatedString
  | unterminatedComment
deriving DecidableEq, Repr

namespace LexicalFault

/-- The wording of a lexical fault. -/
def message : LexicalFault → String
  | unexpectedCharacter character =>
    "Unexpected character: " ++ String.singleton character
  | unterminatedString => "Unterminated string."
  | unterminatedComment => "Unterminated block comment."

end LexicalFault

/-- A lexical fault and the line it was found on. -/
structure LexicalError where
  line : Nat
  fault : LexicalFault
deriving DecidableEq, Repr

/-- What scanning yields: tokens and faults in the order of the text. -/
inductive Item where
  | token (token : Token)
  | error (error : LexicalError)
deriving DecidableEq, Repr

namespace Scan

/-- What a piece of text stands for. -/
inductive Meaning where
  | blank
  | token (kind : TokenKind)
  | fault (fault : LexicalFault)
deriving DecidableEq, Repr

/-- Blank space between tokens. -/
def isBlank (character : Char) : Bool :=
  character == ' ' || character == '\r' || character == '\t' || character == '\n'

/-- The first character of an identifier. -/
def startsName (character : Char) : Bool :=
  character.isAlpha || character == '_'

/-- A later character of an identifier. -/
def continuesName (character : Char) : Bool :=
  character.isAlphanum || character == '_'

/-- The value of a run of decimal digits. -/
def digitsValue (digits : List Char) : Nat :=
  digits.foldl (fun value digit => value * 10 + (digit.toNat - '0'.toNat)) 0

/-- The number that digits with an optional point between them stand for. -/
def numberValue (characters : List Char) : Float :=
  let whole := characters.takeWhile Char.isDigit
  let fraction := (characters.dropWhile Char.isDigit).drop 1
  Numeral.ofDecimal (digitsValue (whole ++ fraction)) fraction.length

/-- A reserved word, or an identifier if the name is none. -/
def nameKind (name : String) : TokenKind :=
  match Keyword.ofSpelling? name with
  | some word => .keyword word
  | none => .identifier

/-- The mark at the end of the text. -/
def endToken (line : Nat) : Token :=
  ⟨.endOfText, "", line⟩

/-- The character that a byte is when it stands alone. -/
def letter (byte : UInt8) : Char :=
  Char.ofUInt8 byte

/-- The bytes of a character after its first one. -/
def isContinuation (byte : UInt8) : Bool :=
  byte &&& 0xC0 == 0x80

/-- How many of the bytes end a line. -/
def lineEnds (bytes : List UInt8) : Nat :=
  bytes.countP (letter · == '\n')

/-- Where the two letters first stand next to each other. -/
def findPair? (left right : Char) : List UInt8 → Option Nat
  | first :: second :: rest =>
    if letter first == left && letter second == right then
      some 0
    else
      (findPair? left right (second :: rest)).map (· + 1)
  | _ => none

/--
The head of a scan.  The lexeme in hand reaches from `start` to `current`.
Once the end of the text has been reported, `current` is past the end.
-/
structure Head where
  source : ByteArray
  start : Nat
  current : Nat
  line : Nat

namespace Head

/-- A head in front of a text. -/
def ofText (text : String) : Head :=
  ⟨text.toUTF8, 0, 0, 1⟩

/-- The byte at an index, zero past the end. -/
def byteAt (head : Head) (index : Nat) : UInt8 :=
  head.source[index]?.getD 0

/-- The next byte, zero at the end. -/
def peek (head : Head) : UInt8 :=
  head.byteAt head.current

/-- The byte after the next one, zero past the end. -/
def peekNext (head : Head) : UInt8 :=
  head.byteAt (head.current + 1)

/-- All bytes have been read. -/
def atEnd (head : Head) : Bool :=
  head.source.size ≤ head.current

/-- How many bytes are left. -/
def left (head : Head) : Nat :=
  head.source.size - head.current

/-- The bytes that are left. -/
def ahead (head : Head) : List UInt8 :=
  (head.source.extract head.current head.source.size).data.toList

/-- Go over one byte. -/
def advance (head : Head) : Head :=
  { head with current := head.current + 1 }

/-- Go on to the next line if the byte ends one. -/
def turn (head : Head) (byte : UInt8) : Head :=
  if letter byte == '\n' then { head with line := head.line + 1 } else head

/-- Go over the next byte if it is the given letter. -/
def accept? (head : Head) (expected : Char) : Option Head :=
  if !head.atEnd && letter head.peek == expected then
    some head.advance
  else
    none

/-- The text between two indices, if they do not cut a character. -/
def slice? (head : Head) (first last : Nat) : Option String :=
  String.fromUTF8? (head.source.extract first last)

/-- The text between two indices that do not cut a character. -/
def slice (head : Head) (first last : Nat) : String :=
  (head.slice? first last).getD ""

/-- The lexeme in hand. -/
def lexeme (head : Head) : String :=
  head.slice head.start head.current

/--
Go over bytes that pass a test.  The zero at the end passes none, so there are
at most as many as there are bytes left.
-/
def skipWhile (test : UInt8 → Bool) : Nat → Head → Head
  | 0, head => head
  | bytes + 1, head =>
    if test head.peek then skipWhile test bytes head.advance else head

/-- Go to the end of the line, which is left for later. -/
def lineComment (head : Head) : Meaning × Head :=
  let current :=
    match head.ahead.findIdx? (letter · == '\n') with
    | some distance => head.current + distance
    | none => head.source.size
  (.blank, { head with current })

/-- Go behind the first `*/`. -/
def blockComment (head : Head) : Meaning × Head :=
  match findPair? '*' '/' head.ahead with
  | some inside =>
    (.blank,
      { head with
        current := head.current + inside + 2
        line := head.line + lineEnds (head.ahead.take inside) })
  | none =>
    (.fault .unterminatedComment,
      { head with
        current := head.source.size
        line := head.line + lineEnds head.ahead })

/-- A comment or the mark, behind a slash. -/
def slash (head : Head) : Meaning × Head :=
  match head.accept? '/' with
  | some inside => inside.lineComment
  | none =>
    match head.accept? '*' with
    | some inside => inside.blockComment
    | none => (.token (.punctuator .slash), head)

/-- Go to the next quote, or to the end if there is none. -/
def toQuote : Nat → Head → Head
  | 0, head => head
  | bytes + 1, head =>
    if !head.atEnd && letter head.peek != '"' then
      toQuote bytes (head.advance.turn head.peek)
    else
      head

/-- A string, behind its first quote. -/
def string (head : Head) : Meaning × Head :=
  let closing := toQuote head.left head
  if closing.atEnd then
    (.fault .unterminatedString, closing)
  else
    let after := closing.advance
    (.token (.string (after.slice (after.start + 1) (after.current - 1))), after)

/--
Go over the rest of a number: digits, and a point with more digits if at least
one follows it.
-/
def toNumberEnd (head : Head) : Head :=
  let isDigit (byte : UInt8) := (letter byte).isDigit
  let whole := skipWhile isDigit head.left head
  if letter whole.peek == '.' && isDigit whole.peekNext then
    skipWhile isDigit whole.advance.left whole.advance
  else
    whole

/-- A number, behind its first digit. -/
def number (head : Head) : Meaning × Head :=
  let after := head.toNumberEnd
  (.token (.number (numberValue after.lexeme.toList)), after)

/-- A reserved word or a name, behind its first letter. -/
def name (head : Head) : Meaning × Head :=
  let continues (byte : UInt8) := continuesName (letter byte)
  let after := skipWhile continues head.left head
  (.token (nameKind after.lexeme), after)

/-- A character that starts nothing, behind its first byte. -/
def unexpected (head : Head) : Meaning × Head :=
  let character := (head.source.utf8DecodeChar? head.start).getD '\uFFFD'
  (.fault (.unexpectedCharacter character), skipWhile isContinuation head.left head)

/-- A mark, or a character that starts nothing, behind its first byte. -/
def mark (head : Head) (first : Char) : Meaning × Head :=
  match Punctuator.ofChar? first with
  | some mark => (.token (.punctuator mark), head)
  | none =>
    match Punctuator.withEqual? first with
    | some (short, long) =>
      match head.accept? '=' with
      | some after => (.token (.punctuator long), after)
      | none => (.token (.punctuator short), head)
    | none => head.unexpected

/-- Read the lexeme at the head, which is not at the end. -/
def scanToken (head : Head) : Meaning × Head :=
  let first := letter head.peek
  let after := head.advance
  if isBlank first then
    (.blank, after.turn head.peek)
  else if first == '/' then
    after.slash
  else if first == '"' then
    after.string
  else if first.isDigit then
    after.number
  else if startsName first then
    after.name
  else
    after.mark first

/-- The item that the lexeme in hand gives rise to, on the line it ends on. -/
def item? (head : Head) : Meaning → Option Item
  | .blank => none
  | .token kind => some (.token ⟨kind, head.lexeme, head.line⟩)
  | .fault fault => some (.error ⟨head.line, fault⟩)

/--
The next item within so many lexemes, and the head behind it.  The end of the
text is reported once.
-/
def nextWithin : Nat → Head → Option (Item × Head)
  | 0, _ => none
  | lexemes + 1, head =>
    if head.current < head.source.size then
      let (meaning, after) := { head with start := head.current }.scanToken
      match after.item? meaning with
      | some item => some (item, after)
      | none => nextWithin lexemes after
    else if head.current = head.source.size then
      some (.token (endToken head.line), head.advance)
    else
      none

/-- The next item.  Every lexeme takes a byte, so these are enough. -/
def next (head : Head) : Option (Item × Head) :=
  head.nextWithin (head.left + 1)

/-- As many items as there are, up to a bound. -/
def itemsWithin : Nat → Head → List Item
  | 0, _ => []
  | bound + 1, head =>
    match head.next with
    | some (item, after) => item :: itemsWithin bound after
    | none => []

/-- All items from here on: at most one for each byte, and the end. -/
def items (head : Head) : List Item :=
  head.itemsWithin (head.left + 1)

end Head

end Scan

/-- The items of a text. -/
def scanItems (text : String) : List Item :=
  (Scan.Head.ofText text).items

/-- What a scan found, tokens and faults apart. -/
structure Scanned where
  tokens : List Token
  errors : List LexicalError
deriving DecidableEq, Repr

namespace Scanned

/-- Sort items into tokens and faults. -/
def ofItems : List Item → Scanned
  | [] => ⟨[], []⟩
  | .token token :: items =>
    let others := ofItems items
    ⟨token :: others.tokens, others.errors⟩
  | .error error :: items =>
    let others := ofItems items
    ⟨others.tokens, error :: others.errors⟩

end Scanned

/-- Read a text as tokens and lexical faults. -/
def scan (text : String) : Scanned :=
  Scanned.ofItems (scanItems text)

end Treewalk
