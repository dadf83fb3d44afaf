import ScriptEngine.Execution.Arguments
import ScriptEngine.Library.Operation
import ScriptEngine.Number.Arithmetic

namespace ScriptEngine

namespace UnaryFunction

def name : UnaryFunction → String
  | abs => "abs"
  | acos => "acos"
  | acosh => "acosh"
  | asin => "asin"
  | asinh => "asinh"
  | atan => "atan"
  | atanh => "atanh"
  | cbrt => "cbrt"
  | ceil => "ceil"
  | cos => "cos"
  | cosh => "cosh"
  | exp => "exp"
  | exp2 => "exp2"
  | floor => "floor"
  | log => "log"
  | log10 => "log10"
  | log2 => "log2"
  | round => "round"
  | sin => "sin"
  | sinh => "sinh"
  | sqrt => "sqrt"
  | tan => "tan"
  | tanh => "tanh"
  | trunc => "trunc"
  | pow10 => "pow10"

def apply : UnaryFunction → Number → Number
  | abs => Number.abs
  | acos => Number.mapped Float.acos
  | acosh => Arithmetic.inverseCosh
  | asin => Number.mapped Float.asin
  | asinh => Number.mapped Arithmetic.inverseSinh
  | atan => Number.mapped Float.atan
  | atanh => Number.mapped Arithmetic.inverseTanh
  | cbrt => Number.mapped Arithmetic.cubeRoot
  | ceil => Number.mapped Float.ceil
  | cos => Number.mapped Float.cos
  | cosh => Number.mapped Float.cosh
  | exp => Number.mapped Float.exp
  | exp2 => Number.mapped Float.exp2
  | floor => Number.mapped Float.floor
  | log => Number.mapped Float.log
  | log10 => Number.mapped Float.log10
  | log2 => Number.mapped Float.log2
  | round => Number.mapped Float.round
  | sin => Number.mapped Float.sin
  | sinh => Number.mapped Float.sinh
  | sqrt => Number.mapped Float.sqrt
  | tan => Number.mapped Float.tan
  | tanh => Number.mapped Float.tanh
  | trunc => Number.mapped Arithmetic.truncated
  | pow10 => Number.mapped (Float.pow 10)

end UnaryFunction

namespace BinaryFunction

def name : BinaryFunction → String
  | atan2 => "atan2"
  | copysign => "copysign"
  | hypot => "hypot"
  | max => "max"
  | min => "min"
  | mod => "mod"
  | pow => "pow"
  | remainder => "remainder"

def apply : BinaryFunction → Number → Number → Number
  | atan2 => Number.combined Float.atan2
  | copysign => Number.withSignOf
  | hypot => Number.combined Arithmetic.hypotenuse
  | max => Arithmetic.maximum
  | min => Arithmetic.minimum
  | mod => Number.combined Arithmetic.modulo
  | pow => Number.combined Float.pow
  | remainder => Arithmetic.nearestRemainder

end BinaryFunction

namespace MathOperation

def name : MathOperation → String
  | unary function => function.name
  | binary function => function.name
  | inf => "inf"
  | nan => "nan"
  | signbit => "signbit"

def apply (operation : MathOperation) (arguments : List Value) : Except RuntimeError Value :=
  let number := argument Value.toNumber operation.name arguments
  match operation with
  | unary function => do
    return .number (function.apply (← number 0))
  | binary function => do
    let left ← number 0
    let right ← number 1
    return .number (function.apply left right)
  | inf => do
    return .number (if 0 ≤ (← number 0) then 1 / 0 else -1 / 0)
  | nan => return .number .undefined
  | signbit => do
    return .boolean ((← number 0).isNegative)

end MathOperation

end ScriptEngine
