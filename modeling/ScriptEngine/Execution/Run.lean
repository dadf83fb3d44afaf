import ScriptEngine.Execution.Call

namespace ScriptEngine

namespace Interpreter

/-- Executes the statements of a program. Each of them has to hand over to the next. -/
def runStatements (interpreter : Interpreter) : List Stmt → State → Outcome Unit
  | [], state => .ok () state
  | statement :: rest, state =>
    (interpreter.execute statement state).andThen fun flow state =>
      match flow with
      | .normal => interpreter.runStatements rest state
      | .returns _ =>
        .error (RuntimeError.returnOutsideFunction.locatedAt statement.position) state
      | .breaks =>
        .error (RuntimeError.loopControlOutsideLoop.locatedAt statement.position) state
      | .next =>
        .error (RuntimeError.loopControlOutsideLoop.locatedAt statement.position) state

/-- Runs a program and flushes the output, also after an error. An error of the program counts more
than one of the flush. -/
def run (interpreter : Interpreter) (program : Program) (state : State) : Outcome Unit :=
  match interpreter.runStatements program state with
  | .ok _ state => state.flush
  | .error failure state => .error failure state
  | .aborted => .aborted
  | .outOfFuel => .outOfFuel

end Interpreter

end ScriptEngine
