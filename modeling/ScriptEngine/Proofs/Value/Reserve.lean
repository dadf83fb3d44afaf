import ScriptEngine.Proofs.Value.Policy

/-!
# Reserved containers

Some containers of a heap may be kept for somebody else: a reserve. As long as no value at hand is in
the reserve, and no container outside of it holds a value that is, nothing that is read is in the
reserve, and nothing in it is written. New containers are outside. So to spare a reserve is a policy.
-/

namespace ScriptEngine

/-- Containers of a heap, each of which has a cell there. -/
structure Reserve where
  heap : Heap
  holds : ContainerRef → Prop
  array_cell {ref : ArrayRef} (h : holds (.array ref)) : ref.index < heap.arrays.size
  hash_cell {ref : HashRef} (h : holds (.hash ref)) : ref.index < heap.hashes.size

/-- A value that is not in a reserve. -/
def Value.IsClear (reserve : Reserve) : Value → Prop
  | array ref => ¬reserve.holds (.array ref)
  | hash ref => ¬reserve.holds (.hash ref)
  | _ => True

theorem Value.isClear_of_scalar (reserve : Reserve) {value : Value}
    (h : (Key.ofValue? value).isSome) : value.IsClear reserve := by
  cases value with
  | array ref => exact nomatch h
  | hash ref => exact nomatch h
  | _ => trivial

theorem Value.isClear_iff {reserve : Reserve} {value : Value} :
    value.IsClear reserve ↔ ∀ container, value = container.toValue → ¬reserve.holds container := by
  constructor
  · rintro h (ref | ref) rfl
    · exact h
    · exact h
  · intro h
    cases value with
    | array ref => exact h (.array ref) rfl
    | hash ref => exact h (.hash ref) rfl
    | _ => trivial

namespace Heap

/-- A heap in which the containers of a reserve are as they were, and in which no other container
holds any of them. -/
structure Spares (reserve : Reserve) (heap : Heap) : Prop where
  arrays_le : reserve.heap.arrays.size ≤ heap.arrays.size
  hashes_le : reserve.heap.hashes.size ≤ heap.hashes.size
  items_eq {ref : ArrayRef} (h : reserve.holds (.array ref)) :
    heap.items ref = reserve.heap.items ref
  table_eq {ref : HashRef} (h : reserve.holds (.hash ref)) :
    heap.table ref = reserve.heap.table ref
  items_clear {ref : ArrayRef} (h : ¬reserve.holds (.array ref)) :
    ItemsAll (·.IsClear reserve) (heap.items ref)
  table_clear {ref : HashRef} (h : ¬reserve.holds (.hash ref)) :
    (heap.table ref).All (·.IsClear reserve)

/-- A heap spares its own containers if no other one holds any of them. -/
theorem spares_self {reserve : Reserve}
    (h : ∀ container, ¬reserve.holds container →
      ∀ value ∈ reserve.heap.contents container, value.IsClear reserve) :
    reserve.heap.Spares reserve where
  arrays_le := Nat.le_refl _
  hashes_le := Nat.le_refl _
  items_eq _ := rfl
  table_eq _ := rfl
  items_clear {ref} hfree item hitem := h (.array ref) hfree item (Array.mem_toList_iff.mpr hitem)
  table_clear {ref} hfree _ hentry :=
    h (.hash ref) hfree _ (reserve.heap.mem_contents_of_mem_entries hentry)

namespace Spares

variable {reserve : Reserve} {heap : Heap} (h : heap.Spares reserve)
include h

theorem sameAt {container : ContainerRef} (hheld : reserve.holds container) :
    heap.SameAt reserve.heap container := by
  cases container with
  | array ref => exact h.items_eq hheld
  | hash ref => exact h.table_eq hheld

theorem contents_clear {container : ContainerRef} (hfree : ¬reserve.holds container) {value : Value}
    (hvalue : value ∈ heap.contents container) : value.IsClear reserve := by
  cases container with
  | array ref => exact h.items_clear hfree value (Array.mem_toList_iff.mp hvalue)
  | hash ref =>
      obtain ⟨entry, hentry, rfl⟩ := List.mem_map.mp hvalue
      exact h.table_clear hfree entry hentry

/-- No reference leads into a reserve. -/
theorem not_holds_of_reaches {value : Value} (hvalue : value.IsClear reserve)
    {container : ContainerRef} (hreaches : heap.Reaches value container) :
    ¬reserve.holds container := by
  obtain ⟨start, rfl, hpath⟩ := hreaches
  induction hpath with
  | refl => exact Value.isClear_iff.mp hvalue start rfl
  | tail _ hholds ih => exact Value.isClear_iff.mp (h.contents_clear ih hholds) _ rfl

theorem isClear_newArray (items : Array Value) : (heap.newArray items).1.IsClear reserve :=
  fun hheld => absurd h.arrays_le (Nat.not_le.mpr (reserve.array_cell hheld))

theorem isClear_newHash (table : Table) : (heap.newHash table).1.IsClear reserve :=
  fun hheld => absurd h.hashes_le (Nat.not_le.mpr (reserve.hash_cell hheld))

theorem newArray {items : Array Value} (hitems : ItemsAll (·.IsClear reserve) items) :
    (heap.newArray items).2.Spares reserve where
  arrays_le := Nat.le_trans h.arrays_le (by simp [Heap.newArray])
  hashes_le := h.hashes_le
  items_eq {ref} hheld := by
    have hcell := Nat.lt_of_lt_of_le (reserve.array_cell hheld) h.arrays_le
    rw [heap.items_newArray_of_lt items hcell, h.items_eq hheld]
  table_eq := h.table_eq
  items_clear {ref} hfree := by
    rw [heap.items_newArray]
    split
    · exact hitems
    · exact h.items_clear hfree
  table_clear := h.table_clear

theorem newHash {table : Table} (htable : table.All (·.IsClear reserve)) :
    (heap.newHash table).2.Spares reserve where
  arrays_le := h.arrays_le
  hashes_le := Nat.le_trans h.hashes_le (by simp [Heap.newHash])
  items_eq := h.items_eq
  table_eq {ref} hheld := by
    have hcell := Nat.lt_of_lt_of_le (reserve.hash_cell hheld) h.hashes_le
    rw [heap.table_newHash_of_lt table hcell, h.table_eq hheld]
  items_clear := h.items_clear
  table_clear {ref} hfree := by
    rw [heap.table_newHash]
    split
    · exact htable
    · exact h.table_clear hfree

theorem newFunction (callable : Callable) : (heap.newFunction callable).2.Spares reserve :=
  ⟨h.arrays_le, h.hashes_le, h.items_eq, h.table_eq, h.items_clear, h.table_clear⟩

theorem setItem {ref : ArrayRef} (hfree : ¬reserve.holds (.array ref)) (slot : Nat)
    {value : Value} (hvalue : value.IsClear reserve) :
    (heap.setItem ref slot value).Spares reserve where
  arrays_le := Nat.le_trans h.arrays_le (by simp [Heap.setItem])
  hashes_le := h.hashes_le
  items_eq {other} hheld := by
    have hother : ref ≠ other := fun heq => hfree (heq ▸ hheld)
    rw [heap.items_setItem, if_neg hother, h.items_eq hheld]
  table_eq := h.table_eq
  items_clear {other} hother := by
    rw [heap.items_setItem]
    split
    · exact (h.items_clear hother).setIfInBounds slot hvalue
    · exact h.items_clear hother
  table_clear := h.table_clear

theorem setEntry {ref : HashRef} (hfree : ¬reserve.holds (.hash ref)) (key : Key) {value : Value}
    (hvalue : value.IsClear reserve) : (heap.setEntry ref key value).Spares reserve where
  arrays_le := h.arrays_le
  hashes_le := Nat.le_trans h.hashes_le (by simp [Heap.setEntry])
  items_eq := h.items_eq
  table_eq {other} hheld := by
    have hother : ref ≠ other := fun heq => hfree (heq ▸ hheld)
    rw [heap.table_setEntry_of_ne key value hother, h.table_eq hheld]
  items_clear := h.items_clear
  table_clear {other} hother := by
    intro entry hentry
    rcases mem_table_setEntry hentry with rfl | hold
    · exact hvalue
    · exact h.table_clear hother entry hold

end Spares

end Heap

/-- No value at hand is in a reserve. -/
def Policy.sparing (reserve : Reserve) : Policy where
  allows _ value := value.IsClear reserve
  accepts heap := heap.Spares reserve
  allows_mono _ _ hvalue := hvalue
  allows_scalar _ _ h := Value.isClear_of_scalar reserve h
  allows_items h _ href := h.items_clear href
  allows_table h _ href := h.table_clear href
  allows_newArray h items := h.isClear_newArray items
  allows_newHash h table := h.isClear_newHash table
  allows_newFunction _ _ := trivial
  accepts_newArray h _ hitems := h.newArray hitems
  accepts_newHash h _ htable := h.newHash htable
  accepts_newFunction h callable := h.newFunction callable
  accepts_setItem h _ href slot _ hvalue := h.setItem href slot hvalue
  accepts_setEntry h _ href key _ hvalue := h.setEntry href key hvalue

end ScriptEngine
