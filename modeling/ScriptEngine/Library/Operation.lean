import ScriptEngine.Value.Key

namespace ScriptEngine

inductive ConsoleOperation
  | print
  | println
  | printf
  | sprintf
deriving DecidableEq, Repr

inductive ConversionOperation
  | type
  | str
  | num
deriving DecidableEq, Repr

inductive CollectionOperation
  | len
  | push
  | pop
  | shift
  | unshift
  | join
  | split
  | index
  | slice
  | reverse
  | keys
  | values
deriving DecidableEq, Repr

/-- The collection functions that call back into the script. -/
inductive CallbackOperation
  | map
  | filter
  | reduce
deriving DecidableEq, Repr

inductive UnaryFunction
  | abs
  | acos
  | acosh
  | asin
  | asinh
  | atan
  | atanh
  | cbrt
  | ceil
  | cos
  | cosh
  | exp
  | exp2
  | floor
  | log
  | log10
  | log2
  | round
  | sin
  | sinh
  | sqrt
  | tan
  | tanh
  | trunc
  | pow10
deriving DecidableEq, Repr

inductive BinaryFunction
  | atan2
  | copysign
  | hypot
  | max
  | min
  | mod
  | pow
  | remainder
deriving DecidableEq, Repr

inductive MathOperation
  | unary (function : UnaryFunction)
  | binary (function : BinaryFunction)
  | inf
  | nan
  | signbit
deriving DecidableEq, Repr

inductive JsonOperation
  | encode
  | decode
  | validate
deriving DecidableEq, Repr

inductive FileOperation
  | persist
  | read
  | write
  | present
  | remove
  | rename
  | stat
deriving DecidableEq, Repr

inductive SystemOperation
  | args (arguments : List String)
  | env
  | getwd
  | chdir
  | mkdir
  | mkdirAll
  | cp
  | mv
  | exit
deriving DecidableEq, Repr

inductive TimeOperation
  | now
  | unix
  | fromUnix
  | build
  | diff
  | format
  | str
  | sleep
deriving DecidableEq, Repr

/-- A value as a host function names it: one of those that it has at hand, or a scalar of its own.
References cannot be made up. -/
inductive HostTerm
  | atHand (place : Nat)
  | scalar (key : Key)
deriving DecidableEq, Repr

/-- What a host function sees of a value. -/
inductive HostView
  | scalar (key : Key)
  | array (size : Nat)
  | hash (keys : List Key)
  | function
deriving DecidableEq, Repr

/-- What a host function does with the interpreter that it is given, and how it goes on with what it
gets. The values that it gets in a step come to be at hand behind those that were. It makes new
containers, but only looks at those of the script, and an error in a call is one of the function as
well. -/
inductive HostSteps
  | single (result : HostTerm)
  | multiple (results : List HostTerm)
  | refuse (message : String)
  | write (text : String) (next : HostSteps)
  | print (subject : HostTerm) (next : String → HostSteps)
  | look (subject : HostTerm) (next : HostView → HostSteps)
  | newArray (items : List HostTerm) (next : HostSteps)
  | newHash (entries : List (Key × HostTerm)) (next : HostSteps)
  | call (callee : HostTerm) (arguments : List HostTerm) (next : HostSteps)

/-- Any function that an embedding program registers beside the library. It begins with so many
arguments at hand. -/
structure HostOperation where
  steps : Nat → HostSteps

/-- What a library function does when it is called. -/
inductive Operation
  | console (operation : ConsoleOperation)
  | conversion (operation : ConversionOperation)
  | collection (operation : CollectionOperation)
  | callback (operation : CallbackOperation)
  | math (operation : MathOperation)
  | json (operation : JsonOperation)
  | file (operation : FileOperation)
  | system (operation : SystemOperation)
  | time (operation : TimeOperation)
  | host (operation : HostOperation)

end ScriptEngine
