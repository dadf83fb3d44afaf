import ScriptEngine.Library.Callbacks

namespace ScriptEngine

/-- Makes the containers of a result. -/
def State.realize (state : State) (result : LibraryResult) : Outcome Value :=
  let (value, heap) := state.heap.realize result
  .ok value { state with heap := heap }

def HostTerm.value (atHand : List Value) : HostTerm → Value
  | .atHand place => atHand[place]?.getD .nil
  | .scalar key => key.toValue

/-- What is seen of a value, and the values in it. -/
def State.look (state : State) : Value → HostView × List Value
  | .nil => (.scalar .nil, [])
  | .boolean value => (.scalar (.boolean value), [])
  | .number value => (.scalar (.number value.bits), [])
  | .string value => (.scalar (.string value), [])
  | .array ref =>
    let items := state.heap.items ref
    (.array items.size, items.toList)
  | .hash ref =>
    let entries := state.heap.storedEntries state.world.order ref
    (.hash (entries.map Prod.fst), entries.map Prod.snd)
  | .function _ => (.function, [])

/-- Does the steps, with some values at hand. -/
def HostSteps.perform (call : Caller) : HostSteps → List Value → State → Outcome LibraryResult
  | single result, atHand, state => .ok (.value (result.value atHand)) state
  | multiple results, atHand, state =>
    .ok (.array (results.map (·.value atHand)).toArray) state
  | refuse message, _, state => .error (.host message) state
  | write text next, atHand, state =>
    (state.write text).andThen fun _ state => next.perform call atHand state
  | print subject next, atHand, state =>
    (next (state.print (subject.value atHand))).perform call atHand state
  | look subject next, atHand, state =>
    let (view, contents) := state.look (subject.value atHand)
    (next view).perform call (atHand ++ contents) state
  | newArray items next, atHand, state =>
    (state.realize (.array (items.map (·.value atHand)).toArray)).andThen fun value state =>
      next.perform call (atHand ++ [value]) state
  | newHash entries next, atHand, state =>
    (state.realize (.hash (entries.map (·.map id (·.value atHand))) [])).andThen fun value state =>
      next.perform call (atHand ++ [value]) state
  | HostSteps.call callee arguments next, atHand, state =>
    (call (callee.value atHand) (arguments.map (·.value atHand)) state).andThen fun value state =>
      next.perform call (atHand ++ [value]) state

def HostOperation.perform (operation : HostOperation) (call : Caller) (arguments : List Value)
    (state : State) : Outcome LibraryResult :=
  (operation.steps arguments.length).perform call arguments state

end ScriptEngine
