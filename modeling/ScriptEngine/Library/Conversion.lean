import ScriptEngine.Execution.Arguments
import ScriptEngine.Number.Reader
import ScriptEngine.Text.Blank

namespace ScriptEngine

def ConversionOperation.name : ConversionOperation → String
  | type => "type"
  | str => "str"
  | num => "num"

namespace Conversion

/-- The number that a value stands for. A text that spells no number gives `nil`. -/
def toNumber : Value → Except RuntimeError Value
  | .number value => .ok (.number value)
  | .boolean value => .ok (.number (if value then 1 else 0))
  | .string text => .ok (((readNumber? (trimBlank text.toList)).map .number).getD .nil)
  | other => .error (.typeError s!"num() cannot convert a {other.typeName}")

end Conversion

def ConversionOperation.apply (operation : ConversionOperation) (arguments : List Value)
    (heap : Heap) : Except RuntimeError Value := do
  let value ← argument .ok operation.name arguments 0
  match operation with
  | type => return .string value.typeName
  | str => return .string (heap.print value)
  | num => Conversion.toNumber value

end ScriptEngine
