import Treewalk.Quoted.Unseen

/-!
# Texts in quotes

Names are shown in quotes where the bounds of the text matter.  Quotes and
backslashes inside are marked by a backslash, line ends, tabs and the null
character have letters of their own, and other characters that would not show
are given by number.
-/

namespace Treewalk.Quoted

/-- A character between quotes. -/
def escapeChar (character : Char) : List Char :=
  match character with
  | '"' => ['\\', '"']
  | '\\' => ['\\', '\\']
  | '\n' => ['\\', 'n']
  | '\r' => ['\\', 'r']
  | '\t' => ['\\', 't']
  | '\x00' => ['\\', '0']
  | _ =>
    if isUnseen character then
      ['\\', 'u', '\x7b'] ++ Nat.toDigits 16 character.toNat ++ ['\x7d']
    else
      [character]

/-- A text in quotes. -/
def text (contents : String) : String :=
  "\"" ++ String.ofList (contents.toList.flatMap escapeChar) ++ "\""

end Treewalk.Quoted
