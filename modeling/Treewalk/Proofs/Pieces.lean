import Treewalk.Token.Scan

/-!
# A text as pieces

A text is cut into pieces from left to right.  Each piece is blank space or a
comment, a token, or a fault, and takes at least one character.  `piece` finds
the piece at the front of a text, and an item is reported on the line its piece
ends on.
-/

namespace Treewalk.Scan

/-- The front of a text: the characters taken, their meaning and the rest. -/
@[ext]
structure Piece where
  meaning : Meaning
  taken : List Char
  rest : List Char
deriving DecidableEq, Repr

/--
Split a text after the first `*/`, the end of a block comment, if there is
one.
-/
def closeComment : List Char → Option (List Char × List Char)
  | '*' :: '/' :: rest => some (['*', '/'], rest)
  | character :: rest =>
    (closeComment rest).map fun (inside, after) =>
      (character :: inside, after)
  | [] => none

/-- A piece that starts with a slash. -/
def slashPiece (rest : List Char) : Piece :=
  match rest with
  | '/' :: after =>
    let comment := after.takeWhile (· != '\n')
    ⟨.blank, '/' :: '/' :: comment, after.dropWhile (· != '\n')⟩
  | '*' :: after =>
    match closeComment after with
    | some (comment, afterwards) =>
      ⟨.blank, '/' :: '*' :: comment, afterwards⟩
    | none => ⟨.fault .unterminatedComment, '/' :: rest, []⟩
  | _ => ⟨.token (.punctuator .slash), ['/'], rest⟩

/-- A piece that starts with a quote: everything up to the next quote. -/
def stringPiece (rest : List Char) : Piece :=
  let text := rest.takeWhile (· != '"')
  match rest.dropWhile (· != '"') with
  | [] => ⟨.fault .unterminatedString, '"' :: rest, []⟩
  | quote :: after =>
    ⟨.token (.string (String.ofList text)), '"' :: text ++ [quote], after⟩

/--
A piece that starts with a digit: digits, and a point with more digits if at
least one follows it.
-/
def numberPiece (first : Char) (rest : List Char) : Piece :=
  let whole := first :: rest.takeWhile Char.isDigit
  let afterWhole := rest.dropWhile Char.isDigit
  let wholeOnly : Piece :=
    ⟨.token (.number (Numeral.ofDecimal (digitsValue whole) 0)), whole, afterWhole⟩
  match afterWhole with
  | '.' :: afterPoint =>
    let fraction := afterPoint.takeWhile Char.isDigit
    if fraction.isEmpty then
      wholeOnly
    else
      let value :=
        Numeral.ofDecimal (digitsValue (whole ++ fraction)) fraction.length
      ⟨.token (.number value), whole ++ '.' :: fraction, afterPoint.dropWhile Char.isDigit⟩
  | _ => wholeOnly

/-- A piece that starts like an identifier: a reserved word or a name. -/
def namePiece (first : Char) (rest : List Char) : Piece :=
  let name := first :: rest.takeWhile continuesName
  let kind :=
    match Keyword.ofSpelling? (String.ofList name) with
    | some word => .keyword word
    | none => .identifier
  ⟨.token kind, name, rest.dropWhile continuesName⟩

/-- A mark that an equals sign extends. -/
def equalPiece (first : Char) (short long : Punctuator) (rest : List Char) :
    Piece :=
  match rest with
  | '=' :: after => ⟨.token (.punctuator long), [first, '='], after⟩
  | _ => ⟨.token (.punctuator short), [first], rest⟩

/-- A piece that starts with none of the characters of longer pieces. -/
def markPiece (first : Char) (rest : List Char) : Piece :=
  match Punctuator.ofChar? first with
  | some mark => ⟨.token (.punctuator mark), [first], rest⟩
  | none =>
    match Punctuator.withEqual? first with
    | some (short, long) => equalPiece first short long rest
    | none => ⟨.fault (.unexpectedCharacter first), [first], rest⟩

/-- The piece at the front of a text that is not empty. -/
def piece (first : Char) (rest : List Char) : Piece :=
  if isBlank first then
    ⟨.blank, [first], rest⟩
  else if first == '/' then
    slashPiece rest
  else if first == '"' then
    stringPiece rest
  else if first.isDigit then
    numberPiece first rest
  else if startsName first then
    namePiece first rest
  else
    markPiece first rest

/-- How many lines the characters go on. -/
def newlines (characters : List Char) : Nat :=
  characters.count '\n'

/-- The item that a piece gives rise to, on the line it ends on. -/
def Piece.item? (piece : Piece) (line : Nat) : Option Item :=
  match piece.meaning with
  | .blank => none
  | .token kind => some (.token ⟨kind, String.ofList piece.taken, line⟩)
  | .fault fault => some (.error ⟨line, fault⟩)

end Treewalk.Scan
