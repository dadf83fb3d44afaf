import ScriptEngine.Source.Position
import ScriptEngine.Value.Printing

namespace ScriptEngine

inductive ErrorKind
  | duplicateDefinition
  | undefinedVariable
  | typeError
  | indexOutOfRange
  | keyNotFound
  | arityMismatch
  | divisionByZero
  | stackOverflow
  | returnOutsideFunction
  | loopControlOutsideLoop
  | host
  | exit (status : Int)
deriving DecidableEq, Repr

def ErrorKind.label : ErrorKind → String
  | duplicateDefinition => "duplicate definition"
  | undefinedVariable => "undefined variable"
  | typeError => "type error"
  | indexOutOfRange => "index out of range"
  | keyNotFound => "key not found"
  | arityMismatch => "arity mismatch"
  | divisionByZero => "division by zero"
  | stackOverflow => "stack overflow"
  | returnOutsideFunction => "return outside function"
  | loopControlOutsideLoop => "loop control outside loop"
  | host => "host error"
  | exit _ => "exit"

/-- A failure that ends a run. -/
structure RuntimeError where
  kind : ErrorKind
  message : String
  position : Option Position
deriving DecidableEq, Repr

namespace RuntimeError

def new (kind : ErrorKind) (message : String) : RuntimeError :=
  ⟨kind, message, none⟩

/-- Adds a position unless there is one already, so that the innermost known one stays. -/
def locatedAt (error : RuntimeError) (position : Position) : RuntimeError :=
  { error with position := error.position <|> some position }

def render (error : RuntimeError) : String :=
  let place := match error.position with
    | some position => s!" at {position.render}"
    | none => ""
  s!"{error.kind.label}: {error.message}{place}"

def exitStatus? (error : RuntimeError) : Option Int :=
  match error.kind with
  | .exit status => some status
  | _ => none

def duplicateDefinition (name : String) : RuntimeError :=
  new .duplicateDefinition s!"'{name}' is already defined in this scope"

def undefinedVariable (name : String) : RuntimeError :=
  new .undefinedVariable s!"'{name}' is not defined"

def typeError (message : String) : RuntimeError :=
  new .typeError message

def indexOutOfRange (index : Number) (length : Nat) : RuntimeError :=
  new .indexOutOfRange s!"index {plainText index} is outside an array of length {length}"

def keyNotFound (key : Key) : RuntimeError :=
  new .keyNotFound s!"key '{key.print}' not found"

def arityMismatch (message : String) : RuntimeError :=
  new .arityMismatch message

def host (message : String) : RuntimeError :=
  new .host message

def exit (status : Int) : RuntimeError :=
  new (.exit status) s!"status {status}"

def stackOverflow (limit : Nat) : RuntimeError :=
  new .stackOverflow s!"call depth exceeded {limit}"

def returnOutsideFunction : RuntimeError :=
  new .returnOutsideFunction "'return' used outside of a sub"

def loopControlOutsideLoop : RuntimeError :=
  new .loopControlOutsideLoop "'break' or 'next' used outside of a loop"

def loopControlEscaped : RuntimeError :=
  new .loopControlOutsideLoop "'break' or 'next' escaped a sub body"

def divisionByZero (left right : Number) : RuntimeError :=
  new .divisionByZero s!"{Value.printNumber left} % {Value.printNumber right}"

def notCallable (callee : Value) : RuntimeError :=
  typeError s!"a {callee.typeName} is not callable"

def notIterable (subject : Value) : RuntimeError :=
  typeError s!"cannot iterate over a {subject.typeName}"

def notIndexable (container : Value) : RuntimeError :=
  typeError s!"cannot index a {container.typeName}"

def notIndexAssignable (container : Value) : RuntimeError :=
  typeError s!"cannot assign through an index on a {container.typeName}"

def noMember (property : String) (container : Value) : RuntimeError :=
  typeError s!"cannot access member '{property}' on a {container.typeName}"

def noMemberAssignment (property : String) (container : Value) : RuntimeError :=
  typeError s!"cannot assign member '{property}' on a {container.typeName}"

def unusableKey (value : Value) : RuntimeError :=
  typeError s!"a {value.typeName} cannot be used as a hash key"

def indexNotNumber (index : Value) : RuntimeError :=
  typeError s!"array index must be a number, found {index.typeName}"

def indexNotInteger (index : Number) : RuntimeError :=
  typeError s!"array index must be an integer, found {Value.printNumber index}"

def notSteppable (value : Value) : RuntimeError :=
  typeError s!"cannot step a {value.typeName}"

def amountNotNumber (amount : Value) : RuntimeError :=
  typeError s!"'by' amount must be a number, found {amount.typeName}"

def notNegatable (operand : Value) : RuntimeError :=
  typeError s!"cannot negate a {operand.typeName}"

def inapplicable (operator : BinaryOperator) (left right : Value) : RuntimeError :=
  typeError
    s!"operator '{operator.spelling}' cannot be applied to {left.typeName} and {right.typeName}"

def invalidTarget : RuntimeError :=
  typeError "invalid assignment target"

def invalidStepTarget : RuntimeError :=
  typeError "invalid increment target"

end RuntimeError

end ScriptEngine
