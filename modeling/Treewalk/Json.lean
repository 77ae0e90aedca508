import Treewalk.Numeral.Layout

/-!
# JSON documents

Documents are built from texts, natural numbers, doubles, lists and records
whose fields keep their order.  They are written either on one line or with
two spaces of indentation for each level.
-/

namespace Treewalk

/-- A JSON document. -/
inductive Json where
  | null
  | natural (value : Nat)
  | number (value : Float)
  | string (text : String)
  | array (elements : List Json)
  | object (fields : List (String × Json))
deriving Repr

namespace Json

/--
Doubles in documents: positional from `10 ^ -5` up to `10 ^ 16` with at least
one fraction digit, otherwise with a signed exponent.  What is not a number
becomes `null`.
-/
def numberLayout : Numeral.Layout where
  positional := fun leading => -5 ≤ leading && leading < 16
  keepsFraction := true
  mantissaKeepsFraction := false
  exponentMark := "e+"
  negativeExponentMark := "e-"
  tie := .toEven
  notANumber := "null"
  infinity := "null"

/-- The text of a double. -/
def numberText (value : Float) : String :=
  match Numeral.parts value with
  | .finite _ _ => numberLayout.text value
  | _ => "null"

/-- A hexadecimal digit. -/
def hexDigit (value : Nat) : Char :=
  if value < 10 then Char.ofNat ('0'.toNat + value)
  else Char.ofNat ('a'.toNat + (value - 10))

/-- A character of a text: quotes, backslashes and controls are escaped. -/
def escapeChar (character : Char) : List Char :=
  match character with
  | '"' => ['\\', '"']
  | '\\' => ['\\', '\\']
  | '\n' => ['\\', 'n']
  | '\r' => ['\\', 'r']
  | '\t' => ['\\', 't']
  | '\x08' => ['\\', 'b']
  | '\x0c' => ['\\', 'f']
  | _ =>
    if character.toNat < 0x20 then
      ['\\', 'u', '0', '0', hexDigit (character.toNat / 16), hexDigit (character.toNat % 16)]
    else
      [character]

/-- A text in quotes, in front of other characters. -/
def writeQuoted (text : String) (rest : List Char) : List Char :=
  '"' :: (text.toList.flatMap escapeChar ++ '"' :: rest)

/-- How the parts of lists and records are set apart. -/
inductive Style where
  /-- On one line, without blanks. -/
  | compact
  /-- On a line for each part, two spaces deeper than the whole. -/
  | indented
deriving DecidableEq, Repr

namespace Style

/-- What stands in front of a part at a given depth. -/
def lineBreak : Style → Nat → List Char
  | compact, _ => []
  | indented, depth => '\n' :: List.replicate (2 * depth) ' '

/-- What stands between a key and its value. -/
def afterKey : Style → List Char
  | compact => [':']
  | indented => [':', ' ']

end Style

mutual

/-- The characters of a document at a given depth, in front of others. -/
def write (style : Style) (depth : Nat) : Json → List Char → List Char
  | null, rest => "null".toList ++ rest
  | natural value, rest => (Nat.repr value).toList ++ rest
  | number value, rest => (numberText value).toList ++ rest
  | string text, rest => writeQuoted text rest
  | array [], rest => '[' :: ']' :: rest
  | array (element :: elements), rest =>
    '[' :: (style.lineBreak (depth + 1) ++ write style (depth + 1) element
        (writeElements style (depth + 1) elements (style.lineBreak depth ++ ']' :: rest)))
  | object [], rest => '\x7b' :: '\x7d' :: rest
  | object ((key, value) :: fields), rest =>
    '\x7b' :: (style.lineBreak (depth + 1) ++
      writeQuoted key (style.afterKey ++ write style (depth + 1) value
          (writeFields style (depth + 1) fields (style.lineBreak depth ++ '\x7d' :: rest))))

/-- The elements of a list after the first one, in front of others. -/
def writeElements (style : Style) (depth : Nat) :
    List Json → List Char → List Char
  | [], rest => rest
  | element :: elements, rest =>
    ',' :: (style.lineBreak depth ++
      write style depth element (writeElements style depth elements rest))

/-- The fields of a record after the first one, in front of others. -/
def writeFields (style : Style) (depth : Nat) :
    List (String × Json) → List Char → List Char
  | [], rest => rest
  | (key, value) :: fields, rest =>
    ',' :: (style.lineBreak depth ++
      writeQuoted key (style.afterKey ++
        write style depth value (writeFields style depth fields rest)))

end

/-- The text of a document. -/
def text (style : Style) (document : Json) : String :=
  String.ofList (document.write style 0 [])

end Json

end Treewalk
