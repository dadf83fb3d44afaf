import ScriptEngine.Library.Callbacks
import ScriptEngine.Library.Console
import ScriptEngine.Library.Conversion
import ScriptEngine.Library.Host
import ScriptEngine.Library.Mathematics
import ScriptEngine.Library.Surroundings

namespace ScriptEngine

namespace State

def applyFile (state : State) (operation : FileOperation) (arguments : List Value) :
    Outcome LibraryResult :=
  match operation.apply arguments state.heap state.world with
  | .ok (result, world) => .ok result { state with world := world }
  | .error failure => .error failure state

def applyTime (state : State) (operation : TimeOperation) (arguments : List Value) :
    Outcome LibraryResult :=
  let result := operation.apply arguments state.world.clock state.heap
  .ofExcept result (state.advanceClock (Clock.duration operation arguments))

end State

/-- Does what a library function is there for. Only `call` goes back into the script. -/
def Operation.perform (operation : Operation) (call : Caller) (arguments : List Value)
    (state : State) : Outcome LibraryResult :=
  match operation with
  | console operation => operation.perform arguments state
  | conversion operation =>
    (Outcome.ofExcept (operation.apply arguments state.heap) state).map .value
  | collection operation => .ofExcept (operation.apply arguments state.heap) state
  | callback operation => operation.perform call arguments state
  | math operation => (Outcome.ofExcept (operation.apply arguments) state).map .value
  | json operation => .ofExcept (operation.apply arguments state.world.order state.heap) state
  | file operation => state.applyFile operation arguments
  | system operation => operation.perform arguments state
  | time operation => state.applyTime operation arguments
  | host operation => operation.perform call arguments state

end ScriptEngine
