import ScriptEngine.Proofs.Execution.Frames

/-!
# The shape of containers

However far a run has come, each array has the length and each hash the keys that it had before, and
a key has come to a hash only through an assignment to a member. So a slot that an assignment has
found is still there after its value has been evaluated, whatever code that ran.
-/

namespace ScriptEngine

theorem lt_of_arraySlot {index : Value} {length place : Nat}
    (h : arraySlot index length = .ok place) : place < length := by
  unfold arraySlot at h
  split at h
  · split at h
    · split at h
      · rename_i hrange
        obtain ⟨hlow, hhigh⟩ := hrange
        rw [← Except.ok.inj h]
        exact (Int.toNat_lt hlow).mpr hhigh
      · simp at h
    · simp at h
  · simp at h

/-- The array still has its length, or the hash the key. -/
def Slot.IsKept (before after : Heap) : Slot → Prop
  | .item ref place =>
    place < (after.items ref).size ∧ (after.items ref).size = (before.items ref).size
  | .entry ref key => (after.table ref).contains key

namespace Heap

variable {before after : Heap} {added : String → Prop} {container index : Value} {slot : Slot}
  {refused : Value → RuntimeError}

/-- An array with items is there. -/
theorem index_lt_of_lt_size {heap : Heap} {ref : ArrayRef} {place : Nat}
    (h : place < (heap.items ref).size) : ref.index < heap.arrays.size := by
  refine Nat.lt_of_not_le fun hsize => ?_
  have hitems : heap.items ref = #[] := by
    rw [items, Array.getElem?_eq_none hsize]
    rfl
  rw [hitems] at h
  exact absurd h (Nat.not_lt_zero place)

theorem Grows.size_items_of_lt (hgrows : before.Grows added after) {ref : ArrayRef} {place : Nat}
    (h : place < (before.items ref).size) :
    (after.items ref).size = (before.items ref).size :=
  hgrows.size_items ref (index_lt_of_lt_size h)

theorem indexSlot_array (heap : Heap) (ref : ArrayRef) :
    heap.indexSlot (.array ref) index refused =
      (arraySlot index (heap.items ref).size).map (.item ref) :=
  rfl

theorem exists_place_of_indexSlot {heap : Heap} {ref : ArrayRef}
    (h : heap.indexSlot (.array ref) index refused = .ok slot) :
    ∃ place, arraySlot index (heap.items ref).size = .ok place ∧ slot = .item ref place := by
  rw [indexSlot_array] at h
  cases hplace : arraySlot index (heap.items ref).size with
  | ok place =>
      rw [hplace] at h
      exact ⟨place, rfl, (Except.ok.inj h).symm⟩
  | error failure =>
      rw [hplace] at h
      exact nomatch h

theorem exists_key_of_indexSlot {heap : Heap} {ref : HashRef}
    (h : heap.indexSlot (.hash ref) index refused = .ok slot) :
    ∃ key, index.toKey = .ok key ∧ (heap.table ref).contains key ∧ slot = .entry ref key := by
  unfold indexSlot at h
  cases hkey : index.toKey with
  | error failure =>
      simp only [hkey] at h
      exact nomatch h
  | ok key =>
      simp only [hkey, entrySlot] at h
      split at h
      · rename_i hcontains
        exact ⟨key, rfl, hcontains, (Except.ok.inj h).symm⟩
      · exact nomatch h

/-- A slot that was found before is found again, in an array of the same length or under a key that
is there. -/
theorem Grows.indexSlot (hgrows : before.Grows added after)
    (h : before.indexSlot container index refused = .ok slot) :
    after.indexSlot container index refused = .ok slot ∧ slot.IsKept before after := by
  cases container with
  | array ref =>
      obtain ⟨place, hplace, rfl⟩ := exists_place_of_indexSlot h
      have hlt := lt_of_arraySlot hplace
      have hsize := hgrows.size_items_of_lt hlt
      refine ⟨?_, ?_, hsize⟩
      · rw [indexSlot_array, hsize, hplace]
        rfl
      · rw [hsize]
        exact hlt
  | hash ref =>
      obtain ⟨key, hkey, hcontains, rfl⟩ := exists_key_of_indexSlot h
      have hafter := hgrows.keeps ref key hcontains
      refine ⟨?_, hafter⟩
      simp only [Heap.indexSlot, hkey, entrySlot, hafter, if_true]
  | _ => exact nomatch h

end Heap

namespace Interpreter

/-- An assignment through an index that seeks the slot only once, before the value is evaluated. -/
def assignIndexOnce (interpreter : Interpreter) (position : Position) (object index value : Expr)
    (state : State) : Outcome Unit :=
  (interpreter.evaluate object state).andThen fun container state =>
    (interpreter.evaluate index state).andThen fun index state =>
      ((Outcome.ofExcept (state.heap.indexSlot container index .notIndexAssignable)
        state).locatedAt position).andThen fun slot state =>
          (interpreter.evaluate value state).andThen fun value state => state.writeSlot slot value

/-- The second search makes no difference: it finds the slot that the first one has found. -/
theorem assignIndex_eq_once {interpreter : Interpreter} {members names : String → Prop}
    (h : interpreter.IsAdvancing members names) (position : Position)
    (object index value : Expr) (state : State) :
    interpreter.assignIndex position object index value state =
      interpreter.assignIndexOnce position object index value state := by
  refine Outcome.andThen_congr fun container first _ => ?_
  refine Outcome.andThen_congr fun index before _ => ?_
  cases hslot : before.heap.indexSlot container index .notIndexAssignable with
  | error failure =>
      simp only [hslot]
      rfl
  | ok slot =>
      simp only [hslot]
      change (interpreter.evaluate value before).andThen _ =
        (interpreter.evaluate value before).andThen _
      refine Outcome.andThen_congr fun result after hresult => ?_
      have hends := h.evaluate value before
      rw [hresult] at hends
      obtain ⟨hagain, -⟩ := hends.grows.indexSlot hslot
      cases container with
      | array ref =>
          simp only [hagain]
          rfl
      | _ => rfl

end Interpreter

open Interpreter

/-- **Containers keep their shape.** Wherever a run is stopped, and however it ends, each array that
there was has its length and each hash its keys. A key that has come to such a hash is the name of a
member, and the run was not stopped at assignments to this member. In an assignment through an
index, the slot that is found before the value is evaluated is found again afterwards, in an array
of the same length or under a key that is there, so that the second search changes nothing. -/
theorem containers_keep_shape (holds : Point → Bool) (failure : RuntimeError)
    (fuel active : Nat) :
    let interpreter := stoppingUnless holds failure fuel active
    (∀ program state, (interpreter.run program state).Ends fun after =>
      state.heap.Grows (membersAt holds) after.heap) ∧
    (∀ statement state, (interpreter.execute statement state).Ends fun after =>
      state.heap.Grows (membersAt holds) after.heap) ∧
    (∀ expression state, (interpreter.evaluate expression state).Ends fun after =>
      state.heap.Grows (membersAt holds) after.heap) ∧
    (∀ callee arguments state, (interpreter.call callee arguments state).Ends fun after =>
      state.heap.Grows (membersAt holds) after.heap) ∧
    (∀ container index slot value state,
      state.heap.indexSlot container index .notIndexAssignable = .ok slot →
        (interpreter.evaluate value state).Ends fun after =>
          after.heap.indexSlot container index .notIndexAssignable = .ok slot ∧
            slot.IsKept state.heap after.heap) ∧
    ∀ position object index value state,
      interpreter.assignIndex position object index value state =
        interpreter.assignIndexOnce position object index value state := by
  intro interpreter
  have h := isAdvancing_stoppingUnless holds failure fuel active
  refine ⟨fun program state => ?_, fun statement state => ?_, fun expression state => ?_,
    fun callee arguments state => ?_, fun container index slot value state hslot => ?_,
    fun position object index value state => ?_⟩
  · exact (h.run program state).imp fun after hafter => hafter.grows
  · exact (h.execute statement state).imp fun after hafter => hafter.grows
  · exact (h.evaluate expression state).imp fun after hafter => hafter.grows
  · exact (h.call callee arguments state).imp fun after hafter => hafter.grows
  · exact (h.evaluate value state).imp fun after hafter => hafter.grows.indexSlot hslot
  · exact assignIndex_eq_once h position object index value state

/-- A hash with one key, under the name `table`, and the sub `grow`, which adds a member to it. -/
def growingState : State :=
  { State.blank with
    scopes := ⟨[("table", .hash ⟨0⟩), ("grow", .function ⟨0⟩)], []⟩
    heap := ⟨#[], #[.ofList [(.string "key", .nil)]], #[.sub (some "grow") []
      [.assign .first (.member .first (.name .first "table") "other") (.nil .first)]]⟩ }

theorem containers_keep_shape_growingState :
    let slot := Slot.entry ⟨0⟩ (.string "key")
    growingState.heap.indexSlot (.hash ⟨0⟩) (.string "key") .notIndexAssignable = .ok slot ∧
      ((ofFuel 9).evaluate (.call .first (.name .first "grow") []) growingState).Ends fun after =>
        (after.heap.table ⟨0⟩).contains (.string "other") ∧
          after.heap.indexSlot (.hash ⟨0⟩) (.string "key") .notIndexAssignable = .ok slot := by
  intro slot
  have hslot : growingState.heap.indexSlot (.hash ⟨0⟩) (.string "key") .notIndexAssignable =
      .ok slot := rfl
  have hends := (containers_keep_shape (fun _ => true) .invalidTarget 9 0).2.2.2.2.1 _ _ _
    (.call .first (.name .first "grow") []) _ hslot
  rw [stoppingUnless_true] at hends
  exact ⟨hslot, rfl, hends.1⟩

end ScriptEngine
