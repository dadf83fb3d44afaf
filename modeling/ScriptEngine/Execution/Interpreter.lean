import ScriptEngine.Execution.Access
import ScriptEngine.Execution.Operators
import ScriptEngine.Library.Dispatch

namespace ScriptEngine

/-- How a statement hands over to what follows it. -/
inductive Flow
  | normal
  | returns (value : Value)
  | breaks
  | next
deriving Repr

/-- What a loop does after a round that ended with a flow: go on, or end with the given flow. -/
def Flow.afterRound : Flow → Option Flow
  | normal => none
  | next => none
  | breaks => some .normal
  | returns value => some (.returns value)

def Sense.holds (sense : Sense) (value : Value) : Bool :=
  match sense with
  | whenTrue => value.isTruthy
  | whenFalse => !value.isTruthy

def Direction.sign : Direction → Number
  | up => 1
  | down => -1

/-- The signed size of a step. -/
def Direction.delta (direction : Direction) (amount : Number) : Number :=
  amount * direction.sign

/-- The ways to work on the parts of a program. One loop makes at most `rounds` rounds. -/
structure Interpreter where
  evaluate : Expr → State → Outcome Value
  execute : Stmt → State → Outcome Flow
  call : Caller
  rounds : Nat

namespace Interpreter

def evaluateAll (interpreter : Interpreter) : List Expr → State → Outcome (List Value)
  | [], state => .ok [] state
  | expression :: rest, state =>
    (interpreter.evaluate expression state).andThen fun value state =>
      (interpreter.evaluateAll rest state).map fun values => value :: values

/-- Evaluates an expression that may be missing. -/
def evaluateOr (interpreter : Interpreter) (default : Value) (expression : Option Expr)
    (state : State) : Outcome Value :=
  match expression with
  | some expression => interpreter.evaluate expression state
  | none => .ok default state

/-- Executes statements until one of them does not hand over to the next. -/
def executeBody (interpreter : Interpreter) : List Stmt → State → Outcome Flow
  | [], state => .ok .normal state
  | statement :: rest, state =>
    (interpreter.execute statement state).andThen fun flow state =>
      match flow with
      | .normal => interpreter.executeBody rest state
      | other => .ok other state

def executeFallback (interpreter : Interpreter) (fallback : Option (List Stmt)) (state : State) :
    Outcome Flow :=
  match fallback with
  | some body => interpreter.executeBody body state
  | none => .ok .normal state

end Interpreter

end ScriptEngine
