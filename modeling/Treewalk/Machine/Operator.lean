import Treewalk.Machine.State

/-!
# Operators

Operators work on values that have been computed before.  Numbers are added,
compared and so on; a sum may also join texts, with each other or with the
printed form of a number.  Any two values can be tested for equality.

A divisor is refused when its canonical text starts with a zero digit.
-/

namespace Treewalk.Operator

/-- The divisor is refused. -/
def refusesDivisor (divisor : Float) : Bool :=
  (Numeral.canonical.text divisor).toList.head? == some '0'

/-- An operator in front of a value: only `!` works on all values. -/
def unary (kind : TokenKind) (operand : Value) : Except Fault Value :=
  match kind, operand with
  | .punctuator .bang, _ => .ok (.boolean !operand.truthy)
  | _, .number value => .ok (.number (-value))
  | _, _ => .error .operandNotNumber

/-- A sum of numbers, or texts joined. -/
def sum : Value → Value → Except Fault Value
  | .number left, .number right => .ok (.number (left + right))
  | .string left, .string right => .ok (.string (left ++ right))
  | .string left, .number right =>
    .ok (.string (left ++ Numeral.printed right))
  | .number left, .string right =>
    .ok (.string (Numeral.printed left ++ right))
  | _, _ => .error .operandsNotAddable

/-- An operator between numbers. -/
def arithmetic (kind : TokenKind) (left right : Float) : Except Fault Value :=
  match kind with
  | .punctuator .minus => .ok (.number (left - right))
  | .punctuator .star => .ok (.number (left * right))
  | .punctuator .slash =>
    if refusesDivisor right then
      .error .divisionByZero
    else
      .ok (.number (left / right))
  | .punctuator .greater => .ok (.boolean (left > right))
  | .punctuator .greaterEqual => .ok (.boolean (left ≥ right))
  | .punctuator .less => .ok (.boolean (left < right))
  | .punctuator .lessEqual => .ok (.boolean (left ≤ right))
  | _ => .error .unknownOperator

/-- An operator between values. -/
def binary (kind : TokenKind) (left right : Value) : Except Fault Value :=
  match kind with
  | .punctuator .equalEqual => .ok (.boolean (left.equal right))
  | .punctuator .bangEqual => .ok (.boolean !left.equal right)
  | .punctuator .plus => sum left right
  | _ =>
    match left, right with
    | .number left, .number right => arithmetic kind left right
    | _, _ => .error .operandsNotNumbers

/-- The left operand already decides the value of a logical operator. -/
def decides (kind : TokenKind) (left : Value) : Bool :=
  match kind with
  | .keyword .orWord => left.truthy
  | _ => !left.truthy

end Treewalk.Operator
