import ScriptEngine.Registry.Basic

namespace ScriptEngine

/-- A library function before it is given a place in the heap. -/
structure FunctionItem where
  name : String
  arity : Arity
  doc : String
  operation : Operation

inductive MemberItem
  | function (item : FunctionItem)
  | constant (name : String) (value : Value) (doc : String)

inductive LibraryItem
  | function (item : FunctionItem)
  | constant (name : String) (value : Value) (doc : String)
  | module (name doc : String) (members : List MemberItem)

/-- A new function value that shows the given name. -/
def Heap.newNative (heap : Heap) (name : String) (item : FunctionItem) : Value × Heap :=
  heap.newFunction (.native ⟨name, item.arity, item.operation⟩)

/-- The member of a module that an item describes. Its function shows the name of the module
too. -/
def Heap.newMember (heap : Heap) (module : String) : MemberItem → Member × Heap
  | .function item =>
    let (value, heap) := heap.newNative s!"{module}.{item.name}" item
    (⟨item.name, some item.arity, value, item.doc⟩, heap)
  | .constant name value doc => (⟨name, none, value, doc⟩, heap)

def Heap.newMembers (heap : Heap) (module : String) : List MemberItem → List Member × Heap
  | [] => ([], heap)
  | item :: rest =>
    let (member, heap) := heap.newMember module item
    let (members, heap) := heap.newMembers module rest
    (member :: members, heap)

namespace Registry

def registerFunction (registry : Registry) (heap : Heap) (item : FunctionItem) :
    Registry × Heap :=
  let (value, heap) := heap.newNative item.name item
  (registry.register item.name item.doc (.function item.arity value), heap)

def registerValue (registry : Registry) (name : String) (value : Value) (doc : String) :
    Registry :=
  registry.register name doc (.constant value)

def registerModule (registry : Registry) (heap : Heap) (name doc : String)
    (members : List MemberItem) : Registry × Heap :=
  let (members, heap) := heap.newMembers name members
  (registry.register name doc (.module members), heap)

def registerItem (registry : Registry) (heap : Heap) : LibraryItem → Registry × Heap
  | .function item => registry.registerFunction heap item
  | .constant name value doc => (registry.registerValue name value doc, heap)
  | .module name doc members => registry.registerModule heap name doc members

def registerItems (registry : Registry) (heap : Heap) (items : List LibraryItem) :
    Registry × Heap :=
  items.foldl (fun (registry, heap) item => registry.registerItem heap item) (registry, heap)

end Registry

end ScriptEngine
