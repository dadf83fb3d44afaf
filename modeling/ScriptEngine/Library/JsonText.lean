import ScriptEngine.Execution.Arguments
import ScriptEngine.Library.Result

namespace ScriptEngine

namespace JsonText

/-- The compact text of a value. -/
def write (order : EntryOrder) (heap : Heap) (value : Value) : Except RuntimeError String :=
  (heap.toJson order value).map JsonDocument.render

/-- The document of a text. An error names the place that asked for it. -/
def read (place text : String) : Except RuntimeError JsonDocument :=
  match JsonDocument.parse text with
  | .ok document => .ok document
  | .error error => .error (.host s!"{place}: {error.message text}")

end JsonText

def JsonOperation.apply (operation : JsonOperation) (arguments : List Value) (order : EntryOrder)
    (heap : Heap) : Except RuntimeError LibraryResult :=
  match operation with
  | encode => do
    let value ← argument .ok "json.to" arguments 0
    return .value (.string (← JsonText.write order heap value))
  | decode => do
    let text ← argument Value.toText "json.from" arguments 0
    return .document (← JsonText.read "json.from" text)
  | validate => do
    let text ← argument Value.toText "json.valid" arguments 0
    return .value (.boolean (JsonDocument.parse text).isOk)

end ScriptEngine
