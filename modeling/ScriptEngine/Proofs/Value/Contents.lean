import ScriptEngine.Proofs.Value.Growth

/-!
# What containers hold

The values in a table, in an array and in a heap after a change: those that were there before, and
those that the change has put there.
-/

namespace ScriptEngine

theorem Key.isSome_ofValue?_toValue (key : Key) : (Key.ofValue? key.toValue).isSome := by
  cases key <;> rfl

namespace Table

theorem mem_insert {table : Table} {key : Key} {value : Value} {entry : Key × Value}
    (h : entry ∈ (table.insert key value).entries) :
    entry = (key, value) ∨ entry ∈ table.entries :=
  mem_insertEntry h

theorem mem_foldl_insert {pairs : List (Key × Value)} {table : Table} {entry : Key × Value}
    (h : entry ∈ (pairs.foldl (fun table pair => table.insert pair.1 pair.2) table).entries) :
    entry ∈ pairs ∨ entry ∈ table.entries := by
  induction pairs generalizing table with
  | nil => exact .inr h
  | cons pair rest ih =>
      rcases ih h with hrest | hinserted
      · exact .inl (List.mem_cons_of_mem _ hrest)
      · rcases mem_insert hinserted with rfl | hold
        · exact .inl List.mem_cons_self
        · exact .inr hold

/-- A table made from a list has no entries but those of the list. -/
theorem mem_ofList {pairs : List (Key × Value)} {entry : Key × Value}
    (h : entry ∈ (ofList pairs).entries) : entry ∈ pairs :=
  (mem_foldl_insert h).resolve_right List.not_mem_nil

/-- All values of a table have a property. -/
def All (holds : Value → Prop) (table : Table) : Prop :=
  ∀ entry ∈ table.entries, holds entry.2

namespace All

variable {holds : Value → Prop} {table : Table}

theorem imp {weaker : Value → Prop} (h : table.All holds)
    (himp : ∀ value, holds value → weaker value) : table.All weaker :=
  fun entry hentry => himp _ (h entry hentry)

theorem empty : Table.empty.All holds :=
  List.forall_mem_nil _

theorem insert (h : table.All holds) (key : Key) {value : Value} (hvalue : holds value) :
    (table.insert key value).All holds := by
  intro entry hentry
  rcases mem_insert hentry with rfl | hold
  · exact hvalue
  · exact h entry hold

theorem ofList {pairs : List (Key × Value)} (h : ∀ pair ∈ pairs, holds pair.2) :
    (Table.ofList pairs).All holds :=
  fun entry hentry => h entry (mem_ofList hentry)

theorem find? (h : table.All holds) {key : Key} {value : Value}
    (hfound : table.find? key = some value) : holds value := by
  obtain ⟨before, after, hentries, -⟩ := List.lookup_eq_some_iff.mp hfound
  refine h (key, value) ?_
  rw [hentries]
  exact List.mem_append_right _ List.mem_cons_self

end All

end Table

/-- All values of an array have a property. -/
def ItemsAll (holds : Value → Prop) (items : Array Value) : Prop :=
  ∀ item ∈ items, holds item

namespace ItemsAll

variable {holds : Value → Prop} {items : Array Value}

theorem imp {weaker : Value → Prop} (h : ItemsAll holds items)
    (himp : ∀ value, holds value → weaker value) : ItemsAll weaker items :=
  fun item hitem => himp _ (h item hitem)

theorem empty : ItemsAll holds #[] :=
  fun item hitem => absurd hitem (Array.not_mem_empty item)

theorem ofList {values : List Value} (h : ∀ value ∈ values, holds value) :
    ItemsAll holds values.toArray :=
  fun item hitem => h item (List.mem_toArray.mp hitem)

theorem toList (h : ItemsAll holds items) : ∀ item ∈ items.toList, holds item :=
  fun item hitem => h item (Array.mem_toList_iff.mp hitem)

theorem push (h : ItemsAll holds items) {value : Value} (hvalue : holds value) :
    ItemsAll holds (items.push value) := by
  intro item hitem
  rcases Array.mem_push.mp hitem with hold | rfl
  · exact h item hold
  · exact hvalue

theorem setIfInBounds (h : ItemsAll holds items) (slot : Nat) {value : Value}
    (hvalue : holds value) : ItemsAll holds (items.setIfInBounds slot value) := by
  intro item hitem
  rcases Array.mem_or_eq_of_mem_setIfInBounds hitem with hold | rfl
  · exact h item hold
  · exact hvalue

theorem extract (h : ItemsAll holds items) (start stop : Nat) :
    ItemsAll holds (items.extract start stop) := by
  intro item hitem
  rw [Array.mem_def, Array.toList_extract, List.extract_eq_take_drop] at hitem
  exact h item (Array.mem_def.mpr (List.mem_of_mem_drop (List.mem_of_mem_take hitem)))

theorem pop (h : ItemsAll holds items) : ItemsAll holds items.pop := by
  intro item hitem
  rw [Array.mem_def, Array.toList_pop] at hitem
  exact h item (Array.mem_def.mpr (List.dropLast_subset _ hitem))

end ItemsAll

namespace Heap

theorem items_setItem (heap : Heap) (ref other : ArrayRef) (slot : Nat) (value : Value) :
    (heap.setItem ref slot value).items other =
      if ref = other then (heap.items other).setIfInBounds slot value else heap.items other := by
  have hindex : ref = other ↔ ref.index = other.index := by
    rw [ArrayRef.mk.injEq]
  simp only [items, setItem, Array.getElem?_modify, hindex]
  split
  · cases heap.arrays[other.index]? <;> simp
  · rfl

theorem table_setEntry_of_ne (heap : Heap) {ref other : HashRef} (key : Key) (value : Value)
    (h : ref ≠ other) : (heap.setEntry ref key value).table other = heap.table other := by
  have hindex : ref.index ≠ other.index := fun heq => h (congrArg HashRef.mk heq)
  simp only [table, setEntry, Array.getElem?_modify, if_neg hindex]

/-- No table gets any entry but the one that is written. -/
theorem mem_table_setEntry {heap : Heap} {ref other : HashRef} {key : Key} {value : Value}
    {entry : Key × Value} (h : entry ∈ ((heap.setEntry ref key value).table other).entries) :
    entry = (key, value) ∨ entry ∈ (heap.table other).entries := by
  simp only [table, setEntry, Array.getElem?_modify] at h ⊢
  split at h
  · cases hcell : heap.hashes[other.index]? with
    | none =>
        rw [hcell] at h
        exact absurd h List.not_mem_nil
    | some table =>
        rw [hcell] at h
        exact Table.mem_insert h
  · exact .inr h

theorem items_newArray (heap : Heap) (items : Array Value) (ref : ArrayRef) :
    (heap.newArray items).2.items ref =
      if ref.index = heap.arrays.size then items else heap.items ref := by
  simp only [newArray, Heap.items, Array.getElem?_push]
  split <;> rfl

theorem table_newHash (heap : Heap) (table : Table) (ref : HashRef) :
    (heap.newHash table).2.table ref =
      if ref.index = heap.hashes.size then table else heap.table ref := by
  simp only [newHash, Heap.table, Array.getElem?_push]
  split <;> rfl

end Heap

end ScriptEngine
