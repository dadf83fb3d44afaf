import ScriptEngine.Execution.RuntimeError

namespace ScriptEngine

namespace Value

/-- The remainder of the integer parts, with the sign of the dividend. -/
def remainder (left right : Number) : Except RuntimeError Value :=
  let divisor := saturatedInt right
  if divisor = 0 then
    .error (.divisionByZero left right)
  else
    .ok (ofInt (Int.tmod (saturatedInt left) divisor))

def arithmetic (operator : BinaryOperator) (left right : Value)
    (apply : Number → Number → Value) : Except RuntimeError Value :=
  match left, right with
  | number left, number right => .ok (apply left right)
  | left, right => .error (.inapplicable operator left right)

def negate : Value → Except RuntimeError Value
  | number value => .ok (number (-value))
  | other => .error (.notNegatable other)

end Value

namespace Heap

/-- A string takes anything on its right, in printed form. -/
def add (heap : Heap) : Value → Value → Except RuntimeError Value
  | .string left, right => .ok (.string (left ++ heap.print right))
  | .number left, .number right => .ok (.number (left + right))
  | left, right => .error (.inapplicable .add left right)

/-- Applies an operator to two operands. For `&` and `|` the left operand has not decided the
result, so that the right one is it. -/
def applyBinary (heap : Heap) (operator : BinaryOperator) (left right : Value) :
    Except RuntimeError Value :=
  match operator with
  | .add => heap.add left right
  | .subtract => Value.arithmetic operator left right fun a b => .number (a - b)
  | .multiply => Value.arithmetic operator left right fun a b => .number (a * b)
  | .divide => Value.arithmetic operator left right fun a b => .number (a / b)
  | .modulo =>
    match left, right with
    | .number left, .number right => Value.remainder left right
    | left, right => .error (.inapplicable operator left right)
  | .equal => .ok (.boolean (left.equals right))
  | .notEqual => .ok (.boolean (!left.equals right))
  | .less => Value.arithmetic operator left right fun a b => .boolean (a < b)
  | .lessEqual => Value.arithmetic operator left right fun a b => .boolean (a ≤ b)
  | .greater => Value.arithmetic operator left right fun a b => .boolean (a > b)
  | .greaterEqual => Value.arithmetic operator left right fun a b => .boolean (a ≥ b)
  | .and => .ok right
  | .or => .ok right

end Heap

end ScriptEngine
