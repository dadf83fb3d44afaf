import ScriptEngine.Number.Notation

namespace ScriptEngine

structure ArrayRef where
  index : Nat
deriving DecidableEq, Repr

structure HashRef where
  index : Nat
deriving DecidableEq, Repr

structure FunctionRef where
  index : Nat
deriving DecidableEq, Repr

/-- A value of a script. Arrays, hashes and functions are shared by reference. -/
inductive Value
  | nil
  | boolean (value : Bool)
  | number (value : Number)
  | string (value : String)
  | array (ref : ArrayRef)
  | hash (ref : HashRef)
  | function (ref : FunctionRef)
deriving Inhabited, Repr

namespace Value

/-- Only `nil` and `false` count as false. -/
def isTruthy : Value → Bool
  | nil => false
  | boolean value => value
  | _ => true

def typeName : Value → String
  | nil => "nil"
  | boolean _ => "boolean"
  | number _ => "number"
  | string _ => "string"
  | array _ => "array"
  | hash _ => "hash"
  | function _ => "function"

/-- Equality as scripts see it. Containers and functions are equal only to themselves. -/
def equals : Value → Value → Bool
  | nil, nil => true
  | boolean left, boolean right => left == right
  | number left, number right => left == right
  | string left, string right => left == right
  | array left, array right => left == right
  | hash left, hash right => left == right
  | function left, function right => left == right
  | _, _ => false

def asNumber? : Value → Option Number
  | number value => some value
  | _ => none

/-- The printed form of a number. Both zeros print alike and the infinities carry a sign. -/
def printNumber (number : Number) : String :=
  match number.exact with
  | .infinite negative => if negative then "-Inf" else "+Inf"
  | .finite _ 0 _ => "0"
  | exact => exact.render plainNotation

def ofNat (count : Nat) : Value :=
  number (.ofFloat (.ofNat count))

def ofInt (count : Int) : Value :=
  number (.ofFloat (.ofInt count))

end Value

end ScriptEngine
