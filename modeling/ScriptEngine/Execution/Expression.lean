import ScriptEngine.Execution.Assignment

namespace ScriptEngine

namespace Interpreter

/-- Evaluates the entries of a hash literal. A later entry replaces an earlier one under its key. -/
def evaluateEntries (interpreter : Interpreter) : List Entry → Table → State → Outcome Table
  | [], table, state => .ok table state
  | entry :: rest, table, state =>
    (interpreter.evaluate entry.key state).andThen fun key state =>
      ((Outcome.ofExcept key.toKey state).locatedAt entry.key.position).andThen fun key state =>
        (interpreter.evaluate entry.value state).andThen fun value state =>
          interpreter.evaluateEntries rest (table.insert key value) state

/-- Reads a value through an index. -/
def evaluateIndex (interpreter : Interpreter) (object index : Expr) (state : State) :
    Outcome Value :=
  (interpreter.evaluate object state).andThen fun container state =>
    (interpreter.evaluate index state).andThen fun index state =>
      (Outcome.ofExcept (state.heap.indexSlot container index .notIndexable) state).map fun slot =>
        state.heap.readSlot slot

def evaluateMember (interpreter : Interpreter) (object : Expr) (property : String)
    (state : State) : Outcome Value :=
  (interpreter.evaluate object state).andThen fun container state =>
    (Outcome.ofExcept (state.heap.memberSlot container property) state).map fun slot =>
      state.heap.readSlot slot

def evaluateCall (interpreter : Interpreter) (callee : Expr) (arguments : List Expr)
    (state : State) : Outcome Value :=
  (interpreter.evaluate callee state).andThen fun callee state =>
    (interpreter.evaluateAll arguments state).andThen fun arguments state =>
      interpreter.call callee arguments state

def applyUnary (operator : UnaryOperator) (operand : Value) : Except RuntimeError Value :=
  match operator with
  | .not => .ok (.boolean !operand.isTruthy)
  | .negate => operand.negate

/-- Whether the left operand of an operator is its result already. -/
def isDecided (operator : BinaryOperator) (left : Value) : Bool :=
  match operator with
  | .and => !left.isTruthy
  | .or => left.isTruthy
  | _ => false

def evaluateBinary (interpreter : Interpreter) (operator : BinaryOperator) (left right : Expr)
    (state : State) : Outcome Value :=
  (interpreter.evaluate left state).andThen fun left state =>
    if isDecided operator left then
      .ok left state
    else
      (interpreter.evaluate right state).andThen fun right state =>
        .ofExcept (state.heap.applyBinary operator left right) state

def evaluateName (name : String) (state : State) : Outcome Value :=
  match state.scopes.lookup? name with
  | some value => .ok value state
  | none => .error (.undefinedVariable name) state

/-- Evaluates an expression whose parts the interpreter evaluates. -/
def evaluateExpr (interpreter : Interpreter) (expression : Expr) (state : State) :
    Outcome Value :=
  match expression with
  | .number _ value => .ok (.number value) state
  | .string _ value => .ok (.string value) state
  | .boolean _ value => .ok (.boolean value) state
  | .nil _ => .ok .nil state
  | .array _ elements =>
    (interpreter.evaluateAll elements state).andThen fun values state =>
      state.newArray values.toArray
  | .hash _ entries =>
    (interpreter.evaluateEntries entries .empty state).andThen fun table state =>
      state.newHash table
  | .name _ name => evaluateName name state
  | .index _ object index => interpreter.evaluateIndex object index state
  | .member _ object property => interpreter.evaluateMember object property state
  | .call _ callee arguments => interpreter.evaluateCall callee arguments state
  | .unary _ operator operand =>
    (interpreter.evaluate operand state).andThen fun operand state =>
      .ofExcept (applyUnary operator operand) state
  | .binary _ operator left right => interpreter.evaluateBinary operator left right state
  | .block _ body => state.newFunction (.block body)
  | .function _ parameters body => state.newFunction (.sub none parameters body)
  | .step _ direction target amount => interpreter.step direction target amount state

end Interpreter

end ScriptEngine
