import ScriptEngine.Value.Heap

/-!
# How containers grow

What a heap keeps under every change that a script can make to it: an array its length and a hash
its keys. A key that comes to a hash is the name of a member.
-/

namespace ScriptEngine

theorem isSome_lookup_iff {α β : Type} [BEq α] [LawfulBEq α] {key : α}
    {entries : List (α × β)} :
    (entries.lookup key).isSome ↔ key ∈ entries.map Prod.fst := by
  rw [List.lookup_isSome_iff, List.mem_map]
  constructor
  · rintro ⟨entry, hentry, hkey⟩
    exact ⟨entry, hentry, (eq_of_beq hkey).symm⟩
  · rintro ⟨entry, hentry, rfl⟩
    exact ⟨entry, hentry, beq_self_eq_true _⟩

namespace Table

theorem contains_iff {table : Table} {key : Key} :
    table.contains key ↔ key ∈ table.entries.map Prod.fst :=
  isSome_lookup_iff

theorem keys_insertEntry {key other : Key} (value : Value) (entries : List (Key × Value)) :
    other ∈ (insertEntry key value entries).map Prod.fst ↔
      other = key ∨ other ∈ entries.map Prod.fst := by
  fun_induction insertEntry key value entries with
  | case1 => simp
  | case2 head stored rest horder => simp
  | case3 head stored rest horder =>
      have hkey : key = head := Std.LawfulEqCmp.eq_of_compare horder
      simp [hkey]
  | case4 head stored rest horder ih =>
      rw [List.map_cons, List.mem_cons, ih, List.map_cons, List.mem_cons]
      exact or_left_comm

theorem contains_insert {table : Table} {key other : Key} (value : Value) :
    (table.insert key value).contains other ↔ other = key ∨ table.contains other := by
  rw [contains_iff, contains_iff]
  exact keys_insertEntry value table.entries

end Table

namespace Heap

variable {before middle after : Heap}

theorem table_setEntry (heap : Heap) (ref other : HashRef) (key : Key) (value : Value)
    (h : other.index < heap.hashes.size) :
    (heap.setEntry ref key value).table other =
      if ref.index = other.index then (heap.table other).insert key value
      else heap.table other := by
  have hother : heap.hashes[other.index]? = some heap.hashes[other.index] :=
    Array.getElem?_eq_getElem h
  simp only [table, setEntry, Array.getElem?_modify, hother]
  split <;> rfl

theorem size_items_setItem (heap : Heap) (ref other : ArrayRef) (slot : Nat) (value : Value) :
    ((heap.setItem ref slot value).items other).size = (heap.items other).size := by
  simp only [items, setItem, Array.getElem?_modify]
  split
  · cases heap.arrays[other.index]? <;> simp
  · rfl

/-- A container that has the key is there. -/
theorem index_lt_of_contains {heap : Heap} {ref : HashRef} {key : Key}
    (h : (heap.table ref).contains key) : ref.index < heap.hashes.size := by
  refine Nat.lt_of_not_le fun hsize => ?_
  have htable : heap.table ref = .empty := by
    rw [table, Array.getElem?_eq_none hsize]
    rfl
  rw [htable] at h
  exact absurd h nofun

/-- The containers of a heap are still there in a later one, arrays with their length and hashes
with their keys. Keys that have come to a hash are the names of members, of `added` ones. -/
structure Grows (added : String → Prop) (before after : Heap) : Prop where
  arrays : before.arrays.size ≤ after.arrays.size
  hashes : before.hashes.size ≤ after.hashes.size
  size_items (ref : ArrayRef) (h : ref.index < before.arrays.size) :
    (after.items ref).size = (before.items ref).size
  keeps (ref : HashRef) (key : Key) (h : (before.table ref).contains key) :
    (after.table ref).contains key
  adds (ref : HashRef) (key : Key) (h : ref.index < before.hashes.size)
    (hkey : (after.table ref).contains key) :
    (before.table ref).contains key ∨ ∃ property, added property ∧ key = .string property

namespace Grows

variable {added : String → Prop}

theorem refl (heap : Heap) : heap.Grows added heap :=
  ⟨Nat.le_refl _, Nat.le_refl _, fun _ _ => rfl, fun _ _ h => h, fun _ _ _ hkey => .inl hkey⟩

theorem trans (hfirst : before.Grows added middle) (hsecond : middle.Grows added after) :
    before.Grows added after where
  arrays := Nat.le_trans hfirst.arrays hsecond.arrays
  hashes := Nat.le_trans hfirst.hashes hsecond.hashes
  size_items ref h := by
    rw [hsecond.size_items ref (Nat.lt_of_lt_of_le h hfirst.arrays), hfirst.size_items ref h]
  keeps ref key h := hsecond.keeps ref key (hfirst.keeps ref key h)
  adds ref key h hkey := by
    have hmiddle := hsecond.adds ref key (Nat.lt_of_lt_of_le h hfirst.hashes) hkey
    exact hmiddle.elim (hfirst.adds ref key h) .inr

end Grows

variable {added : String → Prop} (heap : Heap)

theorem items_newArray_of_lt (items : Array Value) {ref : ArrayRef}
    (h : ref.index < heap.arrays.size) : (heap.newArray items).2.items ref = heap.items ref := by
  have hindex : ref.index ≠ heap.arrays.size := Nat.ne_of_lt h
  simp [newArray, Heap.items, Array.getElem?_push, hindex]

theorem table_newHash_of_lt (table : Table) {ref : HashRef} (h : ref.index < heap.hashes.size) :
    (heap.newHash table).2.table ref = heap.table ref := by
  have hindex : ref.index ≠ heap.hashes.size := Nat.ne_of_lt h
  simp [newHash, Heap.table, Array.getElem?_push, hindex]

theorem grows_newArray (items : Array Value) : heap.Grows added (heap.newArray items).2 where
  arrays := by simp [newArray]
  hashes := Nat.le_refl _
  size_items ref h := by rw [heap.items_newArray_of_lt items h]
  keeps _ _ h := h
  adds _ _ _ hkey := .inl hkey

theorem grows_newHash (table : Table) : heap.Grows added (heap.newHash table).2 := by
  refine ⟨Nat.le_refl _, by simp [newHash], fun _ _ => rfl, fun ref key h => ?_,
    fun ref key h hkey => ?_⟩
  · rw [heap.table_newHash_of_lt table (index_lt_of_contains h)]
    exact h
  · rw [heap.table_newHash_of_lt table h] at hkey
    exact .inl hkey

theorem grows_setItem (ref : ArrayRef) (slot : Nat) (value : Value) :
    heap.Grows added (heap.setItem ref slot value) where
  arrays := by simp [setItem]
  hashes := Nat.le_refl _
  size_items other _ := heap.size_items_setItem ref other slot value
  keeps _ _ h := h
  adds _ _ _ hkey := .inl hkey

theorem grows_setEntry {ref : HashRef} {key : Key} (value : Value)
    (h : (heap.table ref).contains key ∨ ∃ property, added property ∧ key = .string property) :
    heap.Grows added (heap.setEntry ref key value) := by
  refine ⟨Nat.le_refl _, by simp [setEntry], fun _ _ => rfl, fun other found hfound => ?_,
    fun other found hother hfound => ?_⟩
  · rw [heap.table_setEntry ref other key value (index_lt_of_contains hfound)]
    split
    · exact (Table.contains_insert value).mpr (.inr hfound)
    · exact hfound
  · rw [heap.table_setEntry ref other key value hother] at hfound
    by_cases hindex : ref.index = other.index
    · have href : ref = other := congrArg HashRef.mk hindex
      rw [if_pos hindex] at hfound
      rcases (Table.contains_insert value).mp hfound with rfl | hold
      · exact href ▸ h
      · exact .inl hold
    · rw [if_neg hindex] at hfound
      exact .inl hfound

end Heap

end ScriptEngine
