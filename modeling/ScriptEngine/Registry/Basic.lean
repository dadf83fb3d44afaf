import ScriptEngine.Execution.State

namespace ScriptEngine

/-- What a module has under one name. A constant has no arity. -/
structure Member where
  name : String
  arity : Option Arity
  value : Value
  doc : String
deriving Repr

inductive Binding
  | function (arity : Arity) (value : Value)
  | constant (value : Value)
  | module (members : List Member)
deriving Repr

structure RegistryEntry where
  name : String
  doc : String
  binding : Binding
deriving Repr

/-- The names that an interpreter starts with, in the order in which they were first registered. -/
structure Registry where
  entries : List RegistryEntry
deriving Repr

namespace Registry

def empty : Registry :=
  ⟨[]⟩

instance : Inhabited Registry := ⟨empty⟩

/-- Puts an entry in the place of one with its name, or at the end if there is none. -/
def putEntry (entry : RegistryEntry) : List RegistryEntry → List RegistryEntry
  | [] => [entry]
  | head :: rest => if head.name = entry.name then entry :: rest else head :: putEntry entry rest

def register (registry : Registry) (name doc : String) (binding : Binding) : Registry :=
  ⟨putEntry ⟨name, doc, binding⟩ registry.entries⟩

def names (registry : Registry) : List String :=
  registry.entries.map RegistryEntry.name

def size (registry : Registry) : Nat :=
  registry.entries.length

def isEmpty (registry : Registry) : Bool :=
  registry.entries.isEmpty

def find? (registry : Registry) (name : String) : Option RegistryEntry :=
  registry.entries.find? fun entry => entry.name == name

end Registry

/-- The entries of the hash that stands for a module. -/
def Member.entry (member : Member) : Key × Value :=
  (.string member.name, member.value)

/-- The value that a binding gives a name. Every installation of a module makes a new hash. -/
def Heap.newBinding (heap : Heap) : Binding → Value × Heap
  | .function _ value => (value, heap)
  | .constant value => (value, heap)
  | .module members => heap.newHash (.ofList (members.map Member.entry))

/-- Binds the name of an entry in the global frame. -/
def State.installEntry (state : State) (entry : RegistryEntry) : State :=
  let (value, heap) := state.heap.newBinding entry.binding
  { state with heap := heap, scopes := state.scopes.defineGlobal entry.name value }

def Registry.install (registry : Registry) (state : State) : State :=
  registry.entries.foldl State.installEntry state

namespace Registry

def memberLine (module : String) (member : Member) : String :=
  let arguments := match member.arity with
    | some arity => s!" ({arity.describe})"
    | none => ""
  s!"  {module}.{member.name}{arguments} - {member.doc}\n"

def entryLines (heap : Heap) (entry : RegistryEntry) : String :=
  match entry.binding with
  | .function arity _ => s!"{entry.name} ({arity.describe}) - {entry.doc}\n"
  | .constant value => s!"{entry.name} = {heap.print value} - {entry.doc}\n"
  | .module members =>
    s!"{entry.name} - {entry.doc}\n" ++ String.join (members.map (memberLine entry.name))

/-- The listing of everything that is registered, in order. -/
def docs (registry : Registry) (heap : Heap) : String :=
  String.join (registry.entries.map (entryLines heap))

end Registry

end ScriptEngine
