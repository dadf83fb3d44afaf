import ScriptEngine.Value.Heap

namespace ScriptEngine

inductive ContainerRef
  | array (ref : ArrayRef)
  | hash (ref : HashRef)
deriving DecidableEq, Repr

/-- The printed form of a key. -/
def Key.print : Key → String
  | nil => "nil"
  | boolean value => if value then "true" else "false"
  | number bits => Value.printNumber ⟨bits⟩
  | string value => value

namespace Heap

def printFunction (heap : Heap) (ref : FunctionRef) : String :=
  ((heap.callable? ref).map Callable.render).getD "<sub>"

/-- Prints a value below the containers in `opened`. A container that is open already prints as
`[...]`, so that no container is entered twice on one path; `levels` bounds how many are entered. -/
def printBelow (heap : Heap) : Nat → List ContainerRef → Value → String
  | _, _, .nil => "nil"
  | _, _, .boolean value => if value then "true" else "false"
  | _, _, .number value => Value.printNumber value
  | _, _, .string value => value
  | _, _, .function ref => heap.printFunction ref
  | 0, _, .array _ => "[...]"
  | 0, _, .hash _ => "[...]"
  | levels + 1, opened, .array ref =>
    if opened.contains (.array ref) then
      "[...]"
    else
      let print := heap.printBelow levels (.array ref :: opened)
      "[" ++ ", ".intercalate ((heap.items ref).toList.map print) ++ "]"
  | levels + 1, opened, .hash ref =>
    if opened.contains (.hash ref) then
      "[...]"
    else
      match (heap.table ref).entries with
      | [] => "[:]"
      | entries =>
        let print := heap.printBelow levels (.hash ref :: opened)
        let printEntry (entry : Key × Value) : String :=
          entry.1.print ++ ": " ++ print entry.2
        "[" ++ ", ".intercalate (entries.map printEntry) ++ "]"

/-- The printed form of a value. -/
def print (heap : Heap) (value : Value) : String :=
  heap.printBelow (heap.arrays.size + heap.hashes.size + 1) [] value

end Heap

end ScriptEngine
