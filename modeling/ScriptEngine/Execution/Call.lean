import ScriptEngine.Execution.Statement

namespace ScriptEngine

namespace State

/-- The state in which a call runs, and the local frames that come back after it. -/
def enterCall (state : State) (frame : Frame) : State × List Frame :=
  let (scopes, saved) := state.scopes.enterCall frame
  ({ state with scopes := scopes }, saved)

def leaveCall (saved : List Frame) (state : State) : State :=
  { state with scopes := state.scopes.restore saved }

end State

namespace Interpreter

/-- What a call of a sub gives after its body ended with a flow. -/
def callResult (flow : Flow) (state : State) : Outcome Value :=
  match flow with
  | .normal => .ok .nil state
  | .returns value => .ok value state
  | .breaks => .error .loopControlEscaped state
  | .next => .error .loopControlEscaped state

def missingArguments (name : Option String) (expected found : Nat) : RuntimeError :=
  let name := name.getD "<anonymous>"
  .arityMismatch s!"{name} expects {expected} arguments, got {found}"

/-- Calls a sub. Arguments beyond its parameters are dropped. -/
def callSub (interpreter : Interpreter) (name : Option String) (parameters : List String)
    (body : List Stmt) (arguments : List Value) (state : State) : Outcome Value :=
  if arguments.length < parameters.length then
    .error (missingArguments name parameters.length arguments.length) state
  else
    let (state, saved) := state.enterCall (.ofList (parameters.zip arguments))
    ((interpreter.executeBody body state).mapState (State.leaveCall saved)).andThen callResult

/-- The name that the argument of a block has in it. -/
def blockParameter : String := "it"

def callBlock (interpreter : Interpreter) (body : Expr) (arguments : List Value)
    (state : State) : Outcome Value :=
  match arguments with
  | [] => .error (.arityMismatch "a block expects 1 argument, got 0") state
  | value :: _ =>
    let (state, saved) := state.enterCall [(blockParameter, value)]
    (interpreter.evaluate body state).mapState (State.leaveCall saved)

def callNative (interpreter : Interpreter) (native : Native) (arguments : List Value)
    (state : State) : Outcome Value :=
  let count := arguments.length
  if native.arity.accepts count then
    (native.operation.perform interpreter.call arguments state).andThen fun result state =>
      state.realize result
  else
    let expected := native.arity.describe
    .error (.arityMismatch s!"{native.name} expects {expected}, got {count}") state

def callCallable (interpreter : Interpreter) (callable : Callable) (arguments : List Value)
    (state : State) : Outcome Value :=
  match callable with
  | .sub name parameters body => interpreter.callSub name parameters body arguments state
  | .block body => interpreter.callBlock body arguments state
  | .native native => interpreter.callNative native arguments state

def enterLevel (state : State) : State :=
  { state with callDepth := state.callDepth + 1 }

def leaveLevel (state : State) : State :=
  { state with callDepth := state.callDepth - 1 }

/-- Calls a value. A call that would be one too many at a time is refused. -/
def callValue (interpreter : Interpreter) (callee : Value) (arguments : List Value)
    (state : State) : Outcome Value :=
  match callee with
  | .function ref =>
    if state.maxCallDepth ≤ state.callDepth then
      .error (.stackOverflow state.maxCallDepth) state
    else
      match state.heap.callable? ref with
      | some callable =>
        (interpreter.callCallable callable arguments (enterLevel state)).mapState leaveLevel
      | none => .error (.notCallable callee) state
  | other => .error (.notCallable other) state

/-- An interpreter that may go `fuel` levels deep into a program, through the nodes of the program
and the calls that they make. -/
def ofFuel : Nat → Interpreter
  | 0 => ⟨fun _ _ => .outOfFuel, fun _ _ => .outOfFuel, fun _ _ _ => .outOfFuel, 0⟩
  | fuel + 1 =>
    { evaluate := fun expression state =>
        ((ofFuel fuel).evaluateExpr expression state).locatedAt expression.position
      execute := fun statement state =>
        ((ofFuel fuel).executeStmt statement state).locatedAt statement.position
      call := fun callee arguments state => (ofFuel fuel).callValue callee arguments state
      rounds := fuel }

end Interpreter

end ScriptEngine
