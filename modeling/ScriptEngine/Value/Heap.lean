import ScriptEngine.Library.Operation
import ScriptEngine.Program.Tree
import ScriptEngine.Value.Arity
import ScriptEngine.Value.Table

namespace ScriptEngine

structure Native where
  name : String
  arity : Arity
  operation : Operation

inductive Callable
  | sub (name : Option String) (parameters : List String) (body : List Stmt)
  | block (body : Expr)
  | native (function : Native)

namespace Callable

def render : Callable → String
  | sub (some name) _ _ => s!"<sub {name}>"
  | sub none _ _ => "<sub>"
  | block _ => "<block>"
  | native function => s!"<native {function.name}>"

end Callable

/-- The contents of all arrays, hashes and functions. A reference is the number of its cell; cells
are only ever added. -/
structure Heap where
  arrays : Array (Array Value)
  hashes : Array Table
  functions : Array Callable

namespace Heap

def empty : Heap :=
  ⟨#[], #[], #[]⟩

instance : Inhabited Heap := ⟨empty⟩

def items (heap : Heap) (ref : ArrayRef) : Array Value :=
  heap.arrays[ref.index]?.getD #[]

def table (heap : Heap) (ref : HashRef) : Table :=
  heap.hashes[ref.index]?.getD .empty

/-- The entries of a hash as it stores them. -/
def storedEntries (heap : Heap) (order : EntryOrder) (ref : HashRef) : List (Key × Value) :=
  order.arrange ref (heap.table ref).entries

theorem mem_storedEntries {heap : Heap} {order : EntryOrder} {ref : HashRef}
    {entry : Key × Value} :
    entry ∈ heap.storedEntries order ref ↔ entry ∈ (heap.table ref).entries :=
  (order.perm ref _).mem_iff

def callable? (heap : Heap) (ref : FunctionRef) : Option Callable :=
  heap.functions[ref.index]?

def newArray (heap : Heap) (items : Array Value) : Value × Heap :=
  (.array ⟨heap.arrays.size⟩, { heap with arrays := heap.arrays.push items })

def newHash (heap : Heap) (table : Table) : Value × Heap :=
  (.hash ⟨heap.hashes.size⟩, { heap with hashes := heap.hashes.push table })

def newFunction (heap : Heap) (callable : Callable) : Value × Heap :=
  (.function ⟨heap.functions.size⟩, { heap with functions := heap.functions.push callable })

/-- Replaces one item of an array. The length stays as it is. -/
def setItem (heap : Heap) (ref : ArrayRef) (slot : Nat) (value : Value) : Heap :=
  { heap with arrays := heap.arrays.modify ref.index fun items => items.setIfInBounds slot value }

def setEntry (heap : Heap) (ref : HashRef) (key : Key) (value : Value) : Heap :=
  { heap with hashes := heap.hashes.modify ref.index fun table => table.insert key value }

end Heap

end ScriptEngine
