import ScriptEngine.Execution.Expression

namespace ScriptEngine

namespace State

/-- Adds a name to the innermost frame. -/
def declare (state : State) (name : String) (value : Value) : Outcome Unit :=
  match state.scopes.declare? name value with
  | some scopes => .ok () { state with scopes := scopes }
  | none => .error (.duplicateDefinition name) state

def bind (state : State) (name : String) (value : Value) : State :=
  { state with scopes := state.scopes.bind name value }

/-- A new array of a key and a value for each entry. -/
def newPairs (state : State) : List (Key × Value) → Outcome (List Value)
  | [] => .ok [] state
  | (key, value) :: rest =>
    (state.newArray #[key.toValue, value]).andThen fun pair state =>
      (state.newPairs rest).map fun pairs => pair :: pairs

/-- What a loop runs over: the items of an array, or a pair for each entry of a hash in the order of
the keys. -/
def iterationItems (state : State) (subject : Value) : Outcome (List Value) :=
  match subject with
  | .array ref => .ok (state.heap.items ref).toList state
  | .hash ref => state.newPairs (state.heap.table ref).entries
  | other => .error (.notIterable other) state

end State

namespace Interpreter

/-- Declares a name. That it is free is checked before its value is evaluated and again after. -/
def executeDeclare (interpreter : Interpreter) (name : String) (value : Option Expr)
    (state : State) : Outcome Flow :=
  if state.scopes.isDeclaredHere name then
    .error (.duplicateDefinition name) state
  else
    (interpreter.evaluateOr .nil value state).andThen fun value state =>
      (state.declare name value).map fun _ => .normal

def executeSub (name : String) (parameters : List String) (body : List Stmt) (state : State) :
    Outcome Flow :=
  (state.newFunction (.sub (some name) parameters body)).andThen fun value state =>
    (state.declare name value).map fun _ => .normal

/-- Executes the body of the first branch whose condition is accepted. -/
def executeFirst (interpreter : Interpreter) (accepts : Value → Bool) :
    List Branch → Option (List Stmt) → State → Outcome Flow
  | [], fallback, state => interpreter.executeFallback fallback state
  | branch :: rest, fallback, state =>
    (interpreter.evaluate branch.condition state).andThen fun value state =>
      if accepts value then
        interpreter.executeBody branch.body state
      else
        interpreter.executeFirst accepts rest fallback state

def executeConditional (interpreter : Interpreter) (sense : Sense) (condition : Expr)
    (body : List Stmt) (alternatives : List Branch) (fallback : Option (List Stmt))
    (state : State) : Outcome Flow :=
  (interpreter.evaluate condition state).andThen fun value state =>
    if sense.holds value then
      interpreter.executeBody body state
    else
      interpreter.executeFirst Value.isTruthy alternatives fallback state

/-- Repeats a body as long as the condition before it holds. -/
def executeLoop (interpreter : Interpreter) (sense : Sense) (condition : Expr)
    (body : List Stmt) : Nat → State → Outcome Flow
  | 0, _ => .outOfFuel
  | rounds + 1, state =>
    (interpreter.evaluate condition state).andThen fun value state =>
      if sense.holds value then
        (interpreter.executeBody body state).andThen fun flow state =>
          match flow.afterRound with
          | some flow => .ok flow state
          | none => interpreter.executeLoop sense condition body rounds state
      else
        .ok .normal state

/-- Repeats a body as long as the condition after it holds. -/
def executePostLoop (interpreter : Interpreter) (sense : Sense) (body : List Stmt)
    (condition : Expr) : Nat → State → Outcome Flow
  | 0, _ => .outOfFuel
  | rounds + 1, state =>
    (interpreter.executeBody body state).andThen fun flow state =>
      match flow.afterRound with
      | some flow => .ok flow state
      | none =>
        (interpreter.evaluate condition state).andThen fun value state =>
          if sense.holds value then
            interpreter.executePostLoop sense body condition rounds state
          else
            .ok .normal state

/-- Runs a body once for each item, bound to a name of the innermost frame. -/
def executeRounds (interpreter : Interpreter) (name : String) (body : List Stmt) :
    List Value → State → Outcome Flow
  | [], state => .ok .normal state
  | item :: rest, state =>
    (interpreter.executeBody body (state.bind name item)).andThen fun flow state =>
      match flow.afterRound with
      | some flow => .ok flow state
      | none => interpreter.executeRounds name body rest state

def executeEach (interpreter : Interpreter) (name : String) (iterable : Expr) (body : List Stmt)
    (state : State) : Outcome Flow :=
  (interpreter.evaluate iterable state).andThen fun subject state =>
    ((state.iterationItems subject).locatedAt iterable.position).andThen fun items state =>
      interpreter.executeRounds name body items state

def executeCompare (interpreter : Interpreter) (subject : Expr) (cases : List Branch)
    (fallback : Option (List Stmt)) (state : State) : Outcome Flow :=
  (interpreter.evaluate subject state).andThen fun subject state =>
    interpreter.executeFirst (fun value => value.equals subject) cases fallback state

/-- Executes a statement whose parts the interpreter works on. -/
def executeStmt (interpreter : Interpreter) (statement : Stmt) (state : State) : Outcome Flow :=
  match statement with
  | .declare _ name value => interpreter.executeDeclare name value state
  | .sub _ name parameters body => executeSub name parameters body state
  | .conditional _ sense condition body alternatives fallback =>
    interpreter.executeConditional sense condition body alternatives fallback state
  | .loop _ sense condition body =>
    interpreter.executeLoop sense condition body interpreter.rounds state
  | .postLoop _ sense body condition =>
    interpreter.executePostLoop sense body condition interpreter.rounds state
  | .each _ name iterable body => interpreter.executeEach name iterable body state
  | .choose _ cases fallback => interpreter.executeFirst Value.isTruthy cases fallback state
  | .compare _ subject cases fallback =>
    interpreter.executeCompare subject cases fallback state
  | .call _ callee arguments =>
    (interpreter.evaluateCall callee arguments state).map fun _ => .normal
  | .returns _ value => (interpreter.evaluateOr .nil value state).map .returns
  | .assign _ target value => (interpreter.assign target value state).map fun _ => .normal
  | .breaks _ => .ok .breaks state
  | .next _ => .ok .next state
  | .step _ direction target amount =>
    (interpreter.step direction target amount state).map fun _ => .normal

end Interpreter

end ScriptEngine
