import ScriptEngine.Execution.Arguments
import ScriptEngine.Execution.State
import ScriptEngine.Library.Format
import ScriptEngine.Library.Result

namespace ScriptEngine

namespace Console

def isString : Value → Bool
  | .string _ => true
  | _ => false

/-- The printed values one after another. A space stands between two of them that are both not
strings. -/
def adjacentText (heap : Heap) : List Value → String
  | [] => ""
  | [value] => heap.print value
  | first :: second :: rest =>
    let gap := if isString first || isString second then "" else " "
    heap.print first ++ gap ++ adjacentText heap (second :: rest)

def lineText (heap : Heap) (values : List Value) : String :=
  " ".intercalate (values.map heap.print) ++ "\n"

/-- The first argument as a format, rendered with the others. -/
def formatted (function : String) (arguments : List Value) (state : State) : Outcome String :=
  match argument Value.toText function arguments 0 with
  | .error failure => .error failure state
  | .ok format =>
    match state.heap.format format (arguments.drop 1) with
    | some text => .ok text state
    | none => .aborted

def write (text : String) (state : State) : Outcome LibraryResult :=
  (state.write text).map fun _ => .value .nil

end Console

open Console in
def ConsoleOperation.perform (operation : ConsoleOperation) (arguments : List Value)
    (state : State) : Outcome LibraryResult :=
  match operation with
  | print => write (adjacentText state.heap arguments) state
  | println => write (lineText state.heap arguments) state
  | printf => (formatted "printf" arguments state).andThen write
  | sprintf => (formatted "sprintf" arguments state).map fun text => .value (.string text)

end ScriptEngine
