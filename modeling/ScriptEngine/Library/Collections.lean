import ScriptEngine.Execution.Arguments
import ScriptEngine.Library.Result
import ScriptEngine.Text.Split

namespace ScriptEngine

namespace CollectionOperation

def name : CollectionOperation → String
  | len => "len"
  | push => "push"
  | pop => "pop"
  | shift => "shift"
  | unshift => "unshift"
  | join => "join"
  | split => "split"
  | index => "index"
  | slice => "slice"
  | reverse => "reverse"
  | keys => "keys"
  | values => "values"

end CollectionOperation

namespace Collections

def emptyArray (function : String) : RuntimeError :=
  .new .indexOutOfRange s!"{function}() called on an empty array"

def sliceOutOfRange (start stop : Int) (length : Nat) : RuntimeError :=
  .new .indexOutOfRange s!"slice bounds {start}..{stop} outside an array of length {length}"

def length (heap : Heap) : Value → Except RuntimeError Nat
  | .string text => .ok text.length
  | .array ref => .ok (heap.items ref).size
  | .hash ref => .ok (heap.table ref).size
  | other => .error (.typeError s!"len() not supported for type {other.typeName}")

/-- The items of the array that is the first argument. -/
def itemsArgument (heap : Heap) (function : String) (arguments : List Value) :
    Except RuntimeError (Array Value) :=
  (argument Value.toArray function arguments 0).map heap.items

/-- The entries of the hash that is the first argument, in the order of the keys. -/
def entriesArgument (heap : Heap) (function : String) (arguments : List Value) :
    Except RuntimeError (List (Key × Value)) :=
  (argument Value.toHash function arguments 0).map fun ref => (heap.table ref).entries

/-- The place of the first item that equals a value, or -1. -/
def position (items : Array Value) (value : Value) : Int :=
  match items.findIdx? fun item => item.equals value with
  | some index => index
  | none => -1

def slice (items : Array Value) (start stop : Int) : Except RuntimeError (Array Value) :=
  if 0 ≤ start ∧ start ≤ stop ∧ stop ≤ items.size then
    .ok (items.extract start.toNat stop.toNat)
  else
    .error (sliceOutOfRange start stop items.size)

end Collections

open Collections in
/-- Applies a collection function. No array or hash changes. -/
def CollectionOperation.apply (operation : CollectionOperation) (arguments : List Value)
    (heap : Heap) : Except RuntimeError LibraryResult :=
  let items := itemsArgument heap operation.name arguments
  let entries := entriesArgument heap operation.name arguments
  let value := argument .ok operation.name arguments
  let text := argument Value.toText operation.name arguments
  let integer := argument Value.toInteger operation.name arguments
  match operation with
  | len => do
    return .value (.ofNat (← length heap (← value 0)))
  | push => do
    return .array ((← items).push (← value 1))
  | unshift => do
    return .array (#[← value 1] ++ (← items))
  | pop => do
    let items ← items
    match items.back? with
    | some last => return .taken last items.pop
    | none => throw (emptyArray operation.name)
  | shift => do
    let items ← items
    match items[0]? with
    | some first => return .taken first (items.extract 1 items.size)
    | none => throw (emptyArray operation.name)
  | join => do
    let items ← items
    let separator ← text 1
    return .value (.string (separator.intercalate (items.toList.map heap.print)))
  | split => do
    let subject ← text 0
    let separator ← text 1
    let parts := splitText subject.toList separator.toList
    return .array (parts.map fun part => .string (String.ofList part)).toArray
  | index => do
    return .value (.ofInt (position (← items) (← value 1)))
  | slice => do
    let items ← items
    let start ← integer 1
    let stop ← integer 2
    return .array (← Collections.slice items start stop)
  | reverse => do
    return .array (← items).reverse
  | keys => do
    return .array ((← entries).map fun entry => entry.1.toValue).toArray
  | values => do
    return .array ((← entries).map fun entry => entry.2).toArray

end ScriptEngine
