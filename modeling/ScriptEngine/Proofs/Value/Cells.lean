import ScriptEngine.Proofs.Value.Contents
import ScriptEngine.Proofs.Value.Printing

/-!
# Cells

Cells are only ever added to a heap, and every change leaves in the containers what was there, but
for what it puts there itself. So a heap in which no reference dangles stays such a heap as long as
the values that are put into it have their cells.
-/

namespace ScriptEngine

/-- A value of a heap: its cell, if it has one, is there. -/
def Value.IsIn (heap : Heap) : Value → Prop
  | array ref => ref.index < heap.arrays.size
  | hash ref => ref.index < heap.hashes.size
  | function ref => ref.index < heap.functions.size
  | _ => True

theorem Value.isIn_of_scalar (heap : Heap) {value : Value} (h : (Key.ofValue? value).isSome) :
    value.IsIn heap := by
  cases value with
  | array ref => exact nomatch h
  | hash ref => exact nomatch h
  | function ref => exact nomatch h
  | _ => trivial

namespace Heap

/-- The cells of one heap are cells of another, which may hold something else. -/
structure FitsIn (before after : Heap) : Prop where
  arrays : before.arrays.size ≤ after.arrays.size
  hashes : before.hashes.size ≤ after.hashes.size
  functions : before.functions.size ≤ after.functions.size

/-- A container holds the same in two heaps. -/
def SameAt (first second : Heap) : ContainerRef → Prop
  | .array ref => first.items ref = second.items ref
  | .hash ref => first.table ref = second.table ref

/-- All values in the containers of a heap have a property. -/
def HoldsOnly (holds : Value → Prop) (heap : Heap) : Prop :=
  ∀ container, ∀ value ∈ heap.contents container, holds value

/-- No container of the heap holds a reference to a cell that is not there. -/
def IsClosed (heap : Heap) : Prop :=
  heap.HoldsOnly (·.IsIn heap)

namespace FitsIn

theorem refl (heap : Heap) : heap.FitsIn heap :=
  ⟨Nat.le_refl _, Nat.le_refl _, Nat.le_refl _⟩

theorem trans {first second third : Heap} (hfirst : first.FitsIn second)
    (hsecond : second.FitsIn third) : first.FitsIn third :=
  ⟨Nat.le_trans hfirst.arrays hsecond.arrays, Nat.le_trans hfirst.hashes hsecond.hashes,
    Nat.le_trans hfirst.functions hsecond.functions⟩

theorem isIn {before after : Heap} (h : before.FitsIn after) {value : Value}
    (hvalue : value.IsIn before) : value.IsIn after := by
  cases value with
  | array ref => exact Nat.lt_of_lt_of_le hvalue h.arrays
  | hash ref => exact Nat.lt_of_lt_of_le hvalue h.hashes
  | function ref => exact Nat.lt_of_lt_of_le hvalue h.functions
  | _ => trivial

variable (heap : Heap)

theorem newArray (items : Array Value) : heap.FitsIn (heap.newArray items).2 :=
  ⟨by simp [Heap.newArray], Nat.le_refl _, Nat.le_refl _⟩

theorem newHash (table : Table) : heap.FitsIn (heap.newHash table).2 :=
  ⟨Nat.le_refl _, by simp [Heap.newHash], Nat.le_refl _⟩

theorem newFunction (callable : Callable) : heap.FitsIn (heap.newFunction callable).2 :=
  ⟨Nat.le_refl _, Nat.le_refl _, by simp [Heap.newFunction]⟩

theorem setItem (ref : ArrayRef) (slot : Nat) (value : Value) :
    heap.FitsIn (heap.setItem ref slot value) :=
  ⟨by simp [Heap.setItem], Nat.le_refl _, Nat.le_refl _⟩

theorem setEntry (ref : HashRef) (key : Key) (value : Value) :
    heap.FitsIn (heap.setEntry ref key value) :=
  ⟨Nat.le_refl _, by simp [Heap.setEntry], Nat.le_refl _⟩

end FitsIn

/-! ### What is in a heap after a change -/

namespace HoldsOnly

variable {holds : Value → Prop} {heap : Heap}

theorem imp {weaker : Value → Prop} (h : heap.HoldsOnly holds)
    (himp : ∀ value, holds value → weaker value) : heap.HoldsOnly weaker :=
  fun container value hvalue => himp value (h container value hvalue)

/-- It is enough to look at the arrays and at the hashes. -/
theorem of_items_of_table (harrays : ∀ ref, ItemsAll holds (heap.items ref))
    (hhashes : ∀ ref, (heap.table ref).All holds) : heap.HoldsOnly holds := by
  rintro (ref | ref) value hvalue
  · exact harrays ref value (Array.mem_toList_iff.mp hvalue)
  · obtain ⟨entry, hentry, rfl⟩ := List.mem_map.mp hvalue
    exact hhashes ref entry hentry

theorem items (h : heap.HoldsOnly holds) (ref : ArrayRef) : ItemsAll holds (heap.items ref) :=
  fun item hitem => h (.array ref) item (Array.mem_toList_iff.mpr hitem)

theorem table (h : heap.HoldsOnly holds) (ref : HashRef) : (heap.table ref).All holds :=
  fun _ hentry => h (.hash ref) _ (heap.mem_contents_of_mem_entries hentry)

theorem newArray (h : heap.HoldsOnly holds) {items : Array Value} (hitems : ItemsAll holds items) :
    (heap.newArray items).2.HoldsOnly holds := by
  refine .of_items_of_table (fun ref => ?_) h.table
  rw [heap.items_newArray]
  split
  · exact hitems
  · exact h.items ref

theorem newHash (h : heap.HoldsOnly holds) {table : Table} (htable : table.All holds) :
    (heap.newHash table).2.HoldsOnly holds := by
  refine .of_items_of_table h.items fun ref => ?_
  rw [heap.table_newHash]
  split
  · exact htable
  · exact h.table ref

theorem setItem (h : heap.HoldsOnly holds) (ref : ArrayRef) (slot : Nat) {value : Value}
    (hvalue : holds value) : (heap.setItem ref slot value).HoldsOnly holds := by
  refine .of_items_of_table (fun other => ?_) h.table
  rw [heap.items_setItem]
  split
  · exact (h.items other).setIfInBounds slot hvalue
  · exact h.items other

theorem setEntry (h : heap.HoldsOnly holds) (ref : HashRef) (key : Key) {value : Value}
    (hvalue : holds value) : (heap.setEntry ref key value).HoldsOnly holds := by
  refine .of_items_of_table h.items fun other entry hentry => ?_
  rcases mem_table_setEntry hentry with rfl | hold
  · exact hvalue
  · exact h.table other entry hold

end HoldsOnly

section

variable (heap : Heap)

theorem mem_containers_iff {container : ContainerRef} :
    container ∈ heap.containers ↔ container.toValue.IsIn heap := by
  cases container with
  | array ref =>
      have hcell : .array ref ∈ heap.containers ↔ ∃ index < heap.arrays.size, ⟨index⟩ = ref := by
        simp [containers]
      rw [hcell]
      constructor
      · rintro ⟨index, hindex, rfl⟩
        exact hindex
      · exact fun hindex => ⟨ref.index, hindex, rfl⟩
  | hash ref =>
      have hcell : .hash ref ∈ heap.containers ↔ ∃ index < heap.hashes.size, ⟨index⟩ = ref := by
        simp [containers]
      rw [hcell]
      constructor
      · rintro ⟨index, hindex, rfl⟩
        exact hindex
      · exact fun hindex => ⟨ref.index, hindex, rfl⟩

theorem isIn_newArray (items : Array Value) :
    (heap.newArray items).1.IsIn (heap.newArray items).2 := by
  simp [newArray, Value.IsIn]

theorem isIn_newHash (table : Table) : (heap.newHash table).1.IsIn (heap.newHash table).2 := by
  simp [newHash, Value.IsIn]

theorem isIn_newFunction (callable : Callable) :
    (heap.newFunction callable).1.IsIn (heap.newFunction callable).2 := by
  simp [newFunction, Value.IsIn]

end

namespace IsClosed

theorem empty : Heap.empty.IsClosed := by
  refine HoldsOnly.of_items_of_table (fun ref => ?_) fun ref => ?_
  · exact ItemsAll.empty
  · exact Table.All.empty

variable {heap : Heap} (h : heap.IsClosed)
include h

/-- What is in a closed heap is in every heap that has its cells. -/
theorem holdsOnly {after : Heap} (hfits : heap.FitsIn after) :
    heap.HoldsOnly (·.IsIn after) :=
  h.imp fun _ => hfits.isIn

/-- From a value of the heap, references lead to containers of the heap only. -/
theorem mem_containers_of_reaches {value : Value} (hvalue : value.IsIn heap)
    {container : ContainerRef} (hreaches : heap.Reaches value container) :
    container ∈ heap.containers := by
  obtain ⟨start, rfl, hpath⟩ := hreaches
  rw [mem_containers_iff]
  cases hpath with
  | refl => exact hvalue
  | tail _ hholds => exact h _ _ hholds

theorem newArray {items : Array Value} (hitems : ItemsAll (·.IsIn heap) items) :
    (heap.newArray items).2.IsClosed :=
  (h.holdsOnly (.newArray heap items)).newArray
    (hitems.imp fun _ => (FitsIn.newArray heap items).isIn)

theorem newHash {table : Table} (htable : table.All (·.IsIn heap)) :
    (heap.newHash table).2.IsClosed :=
  (h.holdsOnly (.newHash heap table)).newHash
    (htable.imp fun _ => (FitsIn.newHash heap table).isIn)

theorem newFunction (callable : Callable) : (heap.newFunction callable).2.IsClosed :=
  h.holdsOnly (.newFunction heap callable)

theorem setItem (ref : ArrayRef) (slot : Nat) {value : Value} (hvalue : value.IsIn heap) :
    (heap.setItem ref slot value).IsClosed := by
  have hfits := FitsIn.setItem heap ref slot value
  exact (h.holdsOnly hfits).setItem ref slot (hfits.isIn hvalue)

theorem setEntry (ref : HashRef) (key : Key) {value : Value} (hvalue : value.IsIn heap) :
    (heap.setEntry ref key value).IsClosed := by
  have hfits := FitsIn.setEntry heap ref key value
  exact (h.holdsOnly hfits).setEntry ref key (hfits.isIn hvalue)

end IsClosed

/-- A heap of one hash, which is made from values of the heap. -/
theorem isClosed_ofList {entries : List (Key × Value)}
    (h : ∀ entry ∈ entries, entry.2.IsIn ⟨#[], #[.ofList entries], #[]⟩) :
    IsClosed ⟨#[], #[.ofList entries], #[]⟩ := by
  rintro (⟨index⟩ | ⟨_ | index⟩) value hvalue
  · simp [contents, items] at hvalue
  · obtain ⟨entry, hentry, rfl⟩ := List.mem_map.mp hvalue
    exact h entry (Table.mem_ofList hentry)
  · simp [contents, table, Table.empty] at hvalue

end Heap

end ScriptEngine
