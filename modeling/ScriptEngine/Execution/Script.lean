import ScriptEngine.Execution.Run
import ScriptEngine.Execution.ScriptError
import ScriptEngine.Program.Grammar
import ScriptEngine.Registry.Basic

namespace ScriptEngine

/-- Why a script did not run to its end. -/
inductive Failure
  | parse (error : ParseError)
  | runtime (error : RuntimeError)

def Failure.scriptError : Failure → ScriptError
  | parse error => .ofParse error
  | runtime error => .ofRuntime error

/-- How the run of a script ends. -/
inductive RunResult
  | done (failure : Option Failure) (state : State)
  | aborted
  | outOfFuel

def RunResult.ofOutcome {α : Type} : Outcome α → RunResult
  | .ok _ state => .done none state
  | .error failure state => .done (some (.runtime failure)) state
  | .aborted => .aborted
  | .outOfFuel => .outOfFuel

namespace Interpreter

/-- Parses a source and runs it. Nothing runs if it does not parse. -/
def runSource (interpreter : Interpreter) (source : String) (state : State) : RunResult :=
  match Program.parse source with
  | .ok program => .ofOutcome (interpreter.run program state)
  | .error error => .done (some (.parse error)) state

/-- Runs a source with the names of a registry, which are installed once the source has parsed. -/
def runScript (interpreter : Interpreter) (registry : Registry) (source : String)
    (state : State) : RunResult :=
  match Program.parse source with
  | .ok program => .ofOutcome (interpreter.run program (registry.install state))
  | .error error => .done (some (.parse error)) state

end Interpreter

end ScriptEngine
