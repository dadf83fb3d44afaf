import ScriptEngine.Execution.RuntimeError

namespace ScriptEngine

namespace Value

/-- What a value is not, as an error message says it. -/
def mismatch (expected : String) (found : Value) : String :=
  s!"expected {expected}, found {found.typeName}"

def toNumber : Value → Except String Number
  | number value => .ok value
  | other => .error (mismatch "number" other)

def toInteger : Value → Except String Int
  | number value =>
    match integerOf? value with
    | some integer => .ok integer
    | none => .error s!"expected integer, found {printNumber value}"
  | other => .error (mismatch "integer" other)

def toBoolean : Value → Except String Bool
  | boolean value => .ok value
  | other => .error (mismatch "boolean" other)

def toText : Value → Except String String
  | string value => .ok value
  | other => .error (mismatch "string" other)

def toArray : Value → Except String ArrayRef
  | array ref => .ok ref
  | other => .error (mismatch "array" other)

def toHash : Value → Except String HashRef
  | hash ref => .ok ref
  | other => .error (mismatch "hash" other)

end Value

/-- The argument of a library function at an index, read as one kind of value. -/
def argument {α : Type} (read : Value → Except String α) (function : String)
    (arguments : List Value) (index : Nat) : Except RuntimeError α :=
  match arguments[index]? with
  | none => .error (.arityMismatch s!"{function}: missing argument {index + 1}")
  | some value =>
    match read value with
    | .ok result => .ok result
    | .error message => .error (.typeError s!"{function}: argument {index + 1}: {message}")

end ScriptEngine
