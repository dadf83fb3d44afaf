import ScriptEngine.Execution.State
import ScriptEngine.Library.Collections

namespace ScriptEngine

/-- How a callable is called with arguments. -/
abbrev Caller := Value → List Value → State → Outcome Value

namespace Callbacks

/-- Adds what a callback gives for each item to the results, from the first item to the last. -/
def mapItems (call : Caller) (callback : Value) :
    List Value → Array Value → State → Outcome (Array Value)
  | [], results, state => .ok results state
  | item :: rest, results, state =>
    (call callback [item] state).andThen fun result state =>
      mapItems call callback rest (results.push result) state

/-- Adds the items that a callback accepts to the results. -/
def filterItems (call : Caller) (callback : Value) :
    List Value → Array Value → State → Outcome (Array Value)
  | [], results, state => .ok results state
  | item :: rest, results, state =>
    (call callback [item] state).andThen fun result state =>
      filterItems call callback rest (if result.isTruthy then results.push item else results) state

/-- Folds the items into an accumulator with a callback of two arguments. -/
def foldItems (call : Caller) (callback : Value) : List Value → Value → State → Outcome Value
  | [], accumulator, state => .ok accumulator state
  | item :: rest, accumulator, state =>
    (call callback [accumulator, item] state).andThen fun accumulator state =>
      foldItems call callback rest accumulator state

end Callbacks

namespace CallbackOperation

def name : CallbackOperation → String
  | map => "map"
  | filter => "filter"
  | reduce => "reduce"

open Callbacks in
/-- Runs a callback over the items that an array has at the start. -/
def perform (operation : CallbackOperation) (call : Caller) (arguments : List Value)
    (state : State) : Outcome LibraryResult :=
  let items := Collections.itemsArgument state.heap operation.name arguments
  let callback := arguments[1]?.getD .nil
  (Outcome.ofExcept items state).andThen fun items state =>
    match operation with
    | map => (mapItems call callback items.toList #[] state).map .array
    | filter => (filterItems call callback items.toList #[] state).map .array
    | reduce =>
      match arguments[2]?, items.toList with
      | some initial, items => (foldItems call callback items initial state).map .value
      | none, first :: rest => (foldItems call callback rest first state).map .value
      | none, [] => .error (Collections.emptyArray operation.name) state

end CallbackOperation

end ScriptEngine
