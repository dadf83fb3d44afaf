import ScriptEngine.Execution.Interpreter

namespace ScriptEngine

namespace State

/-- Gives a name that is bound already another value. -/
def assign (state : State) (name : String) (value : Value) : Outcome Unit :=
  match state.scopes.assign? name value with
  | some scopes => .ok () { state with scopes := scopes }
  | none => .error (.undefinedVariable name) state

def writeSlot (state : State) (slot : Slot) (value : Value) : Outcome Unit :=
  .ok () { state with heap := state.heap.writeSlot slot value }

/-- Steps the value of a slot and gives the new one. -/
def stepSlot (state : State) (slot : Slot) (delta : Number) : Outcome Value :=
  (Outcome.ofExcept (stepped (state.heap.readSlot slot) delta) state).andThen fun value state =>
    (state.writeSlot slot value).map fun _ => value

/-- Steps the value of a name and gives the new one. -/
def stepName (state : State) (name : String) (delta : Number) : Outcome Value :=
  match state.scopes.lookup? name with
  | none => .error (.undefinedVariable name) state
  | some value =>
    (Outcome.ofExcept (stepped value delta) state).andThen fun value state =>
      (state.assign name value).map fun _ => value

end State

namespace Interpreter

/-- Finds the slot, evaluates the value, and writes it. The place in an array is found again before
that, the entry of a hash is not. -/
def assignIndex (interpreter : Interpreter) (position : Position) (object index value : Expr)
    (state : State) : Outcome Unit :=
  let find (container index : Value) (state : State) : Outcome Slot :=
    (Outcome.ofExcept (state.heap.indexSlot container index .notIndexAssignable) state).locatedAt
      position
  (interpreter.evaluate object state).andThen fun container state =>
    (interpreter.evaluate index state).andThen fun index state =>
      (find container index state).andThen fun slot state =>
        (interpreter.evaluate value state).andThen fun value state =>
          match container with
          | .array _ =>
            (find container index state).andThen fun slot state => state.writeSlot slot value
          | _ => state.writeSlot slot value

def assignMember (interpreter : Interpreter) (position : Position) (object : Expr)
    (property : String) (value : Expr) (state : State) : Outcome Unit :=
  (interpreter.evaluate object state).andThen fun container state =>
    ((Outcome.ofExcept (Heap.newMemberSlot container property) state).locatedAt position).andThen
      fun slot state =>
        (interpreter.evaluate value state).andThen fun value state => state.writeSlot slot value

def assign (interpreter : Interpreter) (target value : Expr) (state : State) : Outcome Unit :=
  match target with
  | .name position name =>
    (interpreter.evaluate value state).andThen fun value state =>
      (state.assign name value).locatedAt position
  | .index position object index =>
    interpreter.assignIndex position object index value state
  | .member position object property =>
    interpreter.assignMember position object property value state
  | other => .error (RuntimeError.invalidTarget.locatedAt other.position) state

def stepTarget (interpreter : Interpreter) (target : Expr) (delta : Number) (state : State) :
    Outcome Value :=
  match target with
  | .name _ name => state.stepName name delta
  | .index _ object index =>
    (interpreter.evaluate object state).andThen fun container state =>
      (interpreter.evaluate index state).andThen fun index state =>
        (Outcome.ofExcept (state.heap.indexSlot container index .notIndexable) state).andThen
          fun slot state => state.stepSlot slot delta
  | .member _ object property =>
    (interpreter.evaluate object state).andThen fun container state =>
      (Outcome.ofExcept (state.heap.memberSlot container property) state).andThen
        fun slot state => state.stepSlot slot delta
  | _ => .error .invalidStepTarget state

/-- Steps a target by an amount, which is evaluated first, and gives the new value. -/
def step (interpreter : Interpreter) (direction : Direction) (target : Expr)
    (amount : Option Expr) (state : State) : Outcome Value :=
  (interpreter.evaluateOr (.number 1) amount state).andThen fun amount state =>
    match amount with
    | .number amount => interpreter.stepTarget target (direction.delta amount) state
    | other => .error (.amountNotNumber other) state

end Interpreter

end ScriptEngine
