import ScriptEngine.Proofs.Value.Cells
import ScriptEngine.Registry.Items

/-!
# Building a registry

A registry is filled by registering functions, constants and modules one after another. Whatever
their names and their order, each name has one entry in the end, and all values of the entries are in
the heap.
-/

namespace ScriptEngine

/-! ### What a binding is made of -/

namespace Binding

/-- The values that were registered under a name. -/
def values : Binding → List Value
  | function _ value => [value]
  | constant value => [value]
  | module members => members.map Member.value

end Binding

namespace MemberItem

def IsIn (heap : Heap) : MemberItem → Prop
  | function _ => True
  | constant _ value _ => value.IsIn heap

theorem IsIn.mono {before after : Heap} {item : MemberItem} (h : item.IsIn before)
    (hfits : before.FitsIn after) : item.IsIn after := by
  cases item with
  | function item => trivial
  | constant name value doc => exact hfits.isIn h

end MemberItem

namespace LibraryItem

/-- An item whose constants are values of a heap. -/
def IsIn (heap : Heap) : LibraryItem → Prop
  | function _ => True
  | constant _ value _ => value.IsIn heap
  | module _ _ members => ∀ item ∈ members, item.IsIn heap

theorem IsIn.mono {before after : Heap} {item : LibraryItem} (h : item.IsIn before)
    (hfits : before.FitsIn after) : item.IsIn after := by
  cases item with
  | function item => trivial
  | constant name value doc => exact hfits.isIn h
  | module name doc members => exact fun member hmember => (h member hmember).mono hfits

end LibraryItem

namespace Heap

/-- A value that has been made, in a closed heap that has the cells of the one before. -/
structure MakesFrom (heap : Heap) (values : List Value) (after : Heap) : Prop where
  fits : heap.FitsIn after
  closed : after.IsClosed
  values : ∀ value ∈ values, value.IsIn after

variable {heap : Heap}

theorem makesFrom_newMember (h : heap.IsClosed) (module : String) {item : MemberItem}
    (hitem : item.IsIn heap) :
    heap.MakesFrom [(heap.newMember module item).1.value] (heap.newMember module item).2 := by
  cases item with
  | function item =>
      exact ⟨.newFunction heap _, h.newFunction _,
        List.forall_mem_singleton.mpr (heap.isIn_newFunction _)⟩
  | constant name value doc =>
      exact ⟨.refl heap, h, List.forall_mem_singleton.mpr hitem⟩

theorem makesFrom_newMembers (h : heap.IsClosed) (module : String) {items : List MemberItem}
    (hitems : ∀ item ∈ items, item.IsIn heap) :
    heap.MakesFrom ((heap.newMembers module items).1.map Member.value)
      (heap.newMembers module items).2 := by
  induction items generalizing heap with
  | nil => exact ⟨.refl heap, h, List.forall_mem_nil _⟩
  | cons item rest ih =>
      obtain ⟨hitem, hrest⟩ := List.forall_mem_cons.mp hitems
      obtain ⟨hfits, hclosed, hvalue⟩ := makesFrom_newMember h module hitem
      have hlater := ih hclosed fun item hitem => (hrest item hitem).mono hfits
      refine ⟨hfits.trans hlater.fits, hlater.closed, List.forall_mem_cons.mpr ⟨?_, hlater.values⟩⟩
      exact hlater.fits.isIn (List.forall_mem_singleton.mp hvalue)

end Heap

/-! ### Registered entries -/

namespace Registry

theorem mem_putEntry {entry other : RegistryEntry} {entries : List RegistryEntry}
    (h : other ∈ putEntry entry entries) : other = entry ∨ other ∈ entries := by
  induction entries with
  | nil => exact .inl (List.mem_singleton.mp h)
  | cons head rest ih =>
      unfold putEntry at h
      split at h
      · exact (List.mem_cons.mp h).imp_right (List.mem_cons_of_mem _)
      · rcases List.mem_cons.mp h with rfl | hrest
        · exact .inr List.mem_cons_self
        · exact (ih hrest).imp_right (List.mem_cons_of_mem _)

/-- A name comes to the end if it is new. Otherwise the names stay as they are. -/
theorem names_putEntry (entry : RegistryEntry) (entries : List RegistryEntry) :
    (putEntry entry entries).map RegistryEntry.name =
      if entry.name ∈ entries.map RegistryEntry.name then entries.map RegistryEntry.name
      else entries.map RegistryEntry.name ++ [entry.name] := by
  induction entries with
  | nil => simp [putEntry]
  | cons head rest ih =>
      by_cases hhead : head.name = entry.name
      · simp [putEntry, hhead]
      · by_cases hrest : entry.name ∈ rest.map RegistryEntry.name
        · rw [if_pos hrest] at ih
          simp [putEntry, hhead, ih, hrest]
        · rw [if_neg hrest] at ih
          simp [putEntry, hhead, Ne.symm hhead, ih, hrest]

/-- The entries have different names, and their values are in the heap. -/
structure IsIn (registry : Registry) (heap : Heap) : Prop where
  closed : heap.IsClosed
  values : ∀ entry ∈ registry.entries, ∀ value ∈ entry.binding.values, value.IsIn heap
  names : (registry.entries.map RegistryEntry.name).Nodup

variable {registry : Registry} {heap : Heap}

theorem IsIn.register (h : registry.IsIn heap) (name doc : String) {binding : Binding}
    {after : Heap} (hmade : heap.MakesFrom binding.values after) :
    (registry.register name doc binding).IsIn after where
  closed := hmade.closed
  values entry hentry value hvalue := by
    rcases mem_putEntry hentry with rfl | hold
    · exact hmade.values value hvalue
    · exact hmade.fits.isIn (h.values entry hold value hvalue)
  names := by
    have hnames := names_putEntry ⟨name, doc, binding⟩ registry.entries
    rw [Registry.register, hnames]
    split
    · exact h.names
    · rename_i hnew
      exact List.nodup_append.mpr ⟨h.names, by simp, by simpa using hnew⟩

theorem IsIn.registerItem (h : registry.IsIn heap) {item : LibraryItem} (hitem : item.IsIn heap) :
    (registry.registerItem heap item).1.IsIn (registry.registerItem heap item).2 := by
  cases item with
  | function item =>
      refine h.register _ _ ⟨.newFunction heap _, h.closed.newFunction _, ?_⟩
      exact List.forall_mem_singleton.mpr (heap.isIn_newFunction _)
  | constant name value doc =>
      exact h.register _ _ ⟨.refl heap, h.closed, List.forall_mem_singleton.mpr hitem⟩
  | module name doc members =>
      exact h.register _ _ (Heap.makesFrom_newMembers h.closed name hitem)

/-- A registry that was filled by registering items, and the heap with their values. Between two
items the heap may change in any way, but for cells that go or are referred to before they come. -/
inductive IsBuilt : Registry → Heap → Prop
  | empty {heap : Heap} (h : heap.IsClosed) : IsBuilt .empty heap
  | item {registry : Registry} {heap : Heap} {item : LibraryItem} (h : IsBuilt registry heap)
      (hitem : item.IsIn heap) :
      IsBuilt (registry.registerItem heap item).1 (registry.registerItem heap item).2
  | change {registry : Registry} {before after : Heap} (h : IsBuilt registry before)
      (hfits : before.FitsIn after) (hclosed : after.IsClosed) : IsBuilt registry after

theorem IsBuilt.isIn (h : registry.IsBuilt heap) : registry.IsIn heap := by
  induction h with
  | empty hclosed =>
      exact ⟨hclosed, List.forall_mem_nil _, List.nodup_nil⟩
  | item _ hitem ih => exact ih.registerItem hitem
  | change _ hfits hclosed ih =>
      refine ⟨hclosed, fun entry hentry value hvalue => ?_, ih.names⟩
      exact hfits.isIn (ih.values entry hentry value hvalue)

theorem IsIn.fitsIn_registerItem (h : registry.IsIn heap) {item : LibraryItem}
    (hitem : item.IsIn heap) : heap.FitsIn (registry.registerItem heap item).2 := by
  cases item with
  | function item => exact .newFunction heap _
  | constant name value doc => exact .refl heap
  | module name doc members => exact (Heap.makesFrom_newMembers h.closed name hitem).fits

/-- A registry stays built when a list of items is registered. -/
theorem IsBuilt.registerItems (h : registry.IsBuilt heap) {items : List LibraryItem}
    (hitems : ∀ item ∈ items, item.IsIn heap) :
    (registry.registerItems heap items).1.IsBuilt (registry.registerItems heap items).2 := by
  induction items generalizing registry heap with
  | nil => exact h
  | cons item rest ih =>
      obtain ⟨hitem, hrest⟩ := List.forall_mem_cons.mp hitems
      have hfits := h.isIn.fitsIn_registerItem hitem
      exact ih (h.item hitem) fun other hother => (hrest other hother).mono hfits

end Registry

end ScriptEngine
