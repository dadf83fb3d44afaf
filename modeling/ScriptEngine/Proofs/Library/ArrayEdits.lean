import ScriptEngine.Proofs.Execution.Quiet
import ScriptEngine.Proofs.Library.Collections
import ScriptEngine.Proofs.Number.Integers

/-!
# Edits of arrays

An edit gives a new array and leaves the old ones as they are, so the edits obey the laws of lists:
what is put at an end is what is taken from it again, a row that is turned twice is as before, and
two slices that meet make up the whole. Whoever writes to the new arrays afterwards writes to no old
one.
-/

namespace ScriptEngine

open Collections

namespace Heap

/-! ### Old cells -/

theorem Allocates.extends {before after : Heap} (h : before.Allocates after) :
    after.Extends before := by
  induction h with
  | refl => exact .refl _
  | newArray items _ ih => exact ih.trans (extends_newArray _ items)
  | newHash table _ ih => exact ih.trans (extends_newHash _ table)
  | newFunction callable _ ih => exact ih.trans (extends_newFunction _ callable)

namespace Extends

variable {before after : Heap} (h : after.Extends before)
include h

theorem size_le : before.arrays.size ≤ after.arrays.size := by
  have hlength := h.arrays.length_le
  simpa using hlength

theorem items_eq {ref : ArrayRef} (hcell : ref.index < before.arrays.size) :
    after.items ref = before.items ref := by
  obtain ⟨added, hadded⟩ := h.arrays
  have hitem : after.arrays[ref.index]? = before.arrays[ref.index]? := by
    rw [← Array.getElem?_toList, ← hadded, List.getElem?_append_left (by simpa using hcell),
      Array.getElem?_toList]
  rw [items, hitem]
  rfl

end Extends

/-- One heap comes from another by writes to arrays from a cell on. In between, hashes may be
written to and new containers made. -/
inductive WritesFrom (bound : Nat) (before : Heap) : Heap → Prop
  | refl : WritesFrom bound before before
  | makes {middle after : Heap} (h : WritesFrom bound before middle)
      (hafter : after.Extends middle) : WritesFrom bound before after
  | setItem {middle : Heap} (h : WritesFrom bound before middle) {ref : ArrayRef}
      (href : bound ≤ ref.index) (slot : Nat) (value : Value) :
      WritesFrom bound before (middle.setItem ref slot value)
  | setEntry {middle : Heap} (h : WritesFrom bound before middle) (ref : HashRef) (key : Key)
      (value : Value) : WritesFrom bound before (middle.setEntry ref key value)

namespace WritesFrom

variable {bound : Nat} {before after : Heap}

theorem size_le (h : before.WritesFrom bound after) :
    before.arrays.size ≤ after.arrays.size := by
  induction h with
  | refl => exact Nat.le_refl _
  | makes _ hafter ih => exact ih.trans hafter.size_le
  | setItem _ _ slot value ih => exact ih.trans (by simp [Heap.setItem])
  | setEntry _ ref key value ih => exact ih

/-- The arrays before these cells are as they were. -/
theorem items_eq (h : before.WritesFrom bound after) {ref : ArrayRef} (hbound : ref.index < bound)
    (hcell : ref.index < before.arrays.size) : after.items ref = before.items ref := by
  induction h with
  | refl => rfl
  | makes h hafter ih => rw [hafter.items_eq (hcell.trans_le h.size_le), ih]
  | @setItem middle h other hother slot value ih =>
      have hne : other ≠ ref := by
        rintro rfl
        exact Nat.not_le.mpr hbound hother
      rw [middle.items_setItem, if_neg hne, ih]
  | setEntry h other key value ih => exact ih

end WritesFrom

end Heap

/-! ### Single edits -/

namespace CollectionOperation

variable {heap : Heap} {ref : ArrayRef} {first last : Value} {items : Array Value}

theorem applied_push (heap : Heap) (ref : ArrayRef) (value : Value) :
    push.applied [.array ref, value] heap =
      .ok (heap.newArray ((heap.items ref).push value)) :=
  rfl

theorem applied_unshift (heap : Heap) (ref : ArrayRef) (value : Value) :
    unshift.applied [.array ref, value] heap =
      .ok (heap.newArray (#[value] ++ heap.items ref)) :=
  rfl

theorem applied_reverse (heap : Heap) (ref : ArrayRef) :
    reverse.applied [.array ref] heap = .ok (heap.newArray (heap.items ref).reverse) :=
  rfl

theorem applied_pop_eq_match (heap : Heap) (ref : ArrayRef) :
    pop.applied [.array ref] heap = Except.map heap.realize (match (heap.items ref).back? with
      | some last => .ok (.taken last (heap.items ref).pop)
      | none => .error (emptyArray "pop")) :=
  rfl

theorem applied_shift_eq_match (heap : Heap) (ref : ArrayRef) :
    shift.applied [.array ref] heap = Except.map heap.realize (match (heap.items ref)[0]? with
      | some first => .ok (.taken first ((heap.items ref).extract 1 (heap.items ref).size))
      | none => .error (emptyArray "shift")) :=
  rfl

theorem applied_pop (h : heap.items ref = items.push last) :
    pop.applied [.array ref] heap = .ok (heap.realize (.taken last items)) := by
  rw [applied_pop_eq_match, h, Array.back?_push, Array.pop_push]
  rfl

theorem applied_shift (h : heap.items ref = #[first] ++ items) :
    shift.applied [.array ref] heap = .ok (heap.realize (.taken first items)) := by
  have hrest : (#[first] ++ items).extract 1 (#[first] ++ items).size = items := by simp
  rw [applied_shift_eq_match, h, hrest, Array.getElem?_append_left Nat.one_pos]
  rfl

theorem applied_pop_of_empty (h : heap.items ref = #[]) :
    pop.applied [.array ref] heap = .error (emptyArray "pop") := by
  rw [applied_pop_eq_match, h]
  rfl

theorem applied_shift_of_empty (h : heap.items ref = #[]) :
    shift.applied [.array ref] heap = .error (emptyArray "shift") := by
  rw [applied_shift_eq_match, h]
  rfl

theorem argument_ok {α : Type} {read : Value → Except String α} {function : String}
    {arguments : List Value} {index : Nat} {value : Value} {result : α}
    (h : arguments[index]? = some value) (hread : read value = .ok result) :
    argument read function arguments index = .ok result := by
  simp [argument, h, hread]

theorem toInteger_number {number : Number} {integer : Int} (h : integerOf? number = some integer) :
    Value.toInteger (.number number) = .ok integer := by
  rw [Value.toInteger, h]

theorem applied_slice {lower upper : Number} {start stop : Int} (heap : Heap) (ref : ArrayRef)
    (hlower : integerOf? lower = some start) (hupper : integerOf? upper = some stop) :
    slice.applied [.array ref, .number lower, .number upper] heap =
      (Collections.slice (heap.items ref) start stop).map heap.newArray := by
  have hstart : argument Value.toInteger slice.name
      [.array ref, .number lower, .number upper] 1 = .ok start :=
    argument_ok rfl (toInteger_number hlower)
  have hstop : argument Value.toInteger slice.name
      [.array ref, .number lower, .number upper] 2 = .ok stop :=
    argument_ok rfl (toInteger_number hupper)
  rw [applied, apply, hstart, hstop]
  change Except.map heap.realize ((Collections.slice (heap.items ref) start stop).bind
    fun items => .ok (.array items)) = _
  cases Collections.slice (heap.items ref) start stop <;> rfl

theorem exists_slice_iff {start stop : Int} :
    (∃ result, (Collections.slice items start stop).map heap.newArray = .ok result) ↔
      0 ≤ start ∧ start ≤ stop ∧ stop ≤ items.size := by
  unfold Collections.slice
  by_cases hbounds : 0 ≤ start ∧ start ≤ stop ∧ stop ≤ items.size
  · rw [if_pos hbounds]
    exact ⟨fun _ => hbounds, fun _ => ⟨_, rfl⟩⟩
  · rw [if_neg hbounds]
    exact ⟨nofun, fun h => absurd h hbounds⟩

end CollectionOperation

/-! ### The laws of lists -/

namespace Heap

open CollectionOperation

/-- The edits of an array obey the laws of lists. Each law says what is given back and that it is
new. -/
structure ObeysListLaws (heap : Heap) (ref : ArrayRef) : Prop where
  pop_push (value : Value) :
    heap.GivesPair (pop.composed push [.array ref, value] heap) value (heap.items ref).toList
  shift_unshift (value : Value) :
    heap.GivesPair (shift.composed unshift [.array ref, value] heap) value (heap.items ref).toList
  reverse_reverse :
    heap.GivesArray (reverse.composed reverse [.array ref] heap) (heap.items ref).toList
  pop_last {front : List Value} {last : Value} (h : (heap.items ref).toList = front ++ [last]) :
    heap.GivesPair (pop.applied [.array ref] heap) last front
  shift_reverse {front : List Value} {last : Value}
      (h : (heap.items ref).toList = front ++ [last]) :
    heap.GivesPair (shift.composed reverse [.array ref] heap) last front.reverse
  shift_first {first : Value} {rest : List Value} (h : (heap.items ref).toList = first :: rest) :
    heap.GivesPair (shift.applied [.array ref] heap) first rest
  pop_fails : (∃ failure, pop.applied [.array ref] heap = .error failure) ↔ heap.items ref = #[]
  shift_fails :
    (∃ failure, shift.applied [.array ref] heap = .error failure) ↔ heap.items ref = #[]
  slice_succeeds {lower upper : Number} {start stop : Int} (hlower : integerOf? lower = some start)
      (hupper : integerOf? upper = some stop) :
    (∃ result, slice.applied [.array ref, .number lower, .number upper] heap = .ok result) ↔
      0 ≤ start ∧ start ≤ stop ∧ stop ≤ (heap.items ref).size
  /-- The second slice is made after the first one. -/
  slice_append {lowest place highest : Number} {count : Nat}
      (hlowest : integerOf? lowest = some 0) (hplace : integerOf? place = some (count : Int))
      (hhighest : integerOf? highest = some ((heap.items ref).size : Int))
      (hcount : count ≤ (heap.items ref).size) :
    ∃ front middle back after,
      slice.applied [.array ref, .number lowest, .number place] heap =
        .ok (.array front, middle) ∧
      slice.applied [.array ref, .number place, .number highest] middle =
        .ok (.array back, after) ∧
      heap.arrays.size ≤ front.index ∧ heap.arrays.size ≤ back.index ∧
      (after.items front).toList ++ (after.items back).toList = (heap.items ref).toList
  len_exact (h : (heap.items ref).size ≤ 2 ^ 53) :
    ∃ number, len.applied [.array ref] heap = .ok (.number number, heap) ∧
      integerOf? number = some ((heap.items ref).size : Int)

section

variable {heap : Heap} {ref : ArrayRef}

theorem givesPair_pop {front : List Value} {last : Value}
    (h : (heap.items ref).toList = front ++ [last]) :
    heap.GivesPair (pop.applied [.array ref] heap) last front := by
  have hitems : heap.items ref = front.toArray.push last := by
    rw [← Array.toList_inj, h, Array.toList_push, List.toList_toArray]
  have hpair := heap.givesPair_taken last front.toArray
  rwa [← applied_pop hitems] at hpair

theorem givesPair_shift {first : Value} {rest : List Value}
    (h : (heap.items ref).toList = first :: rest) :
    heap.GivesPair (shift.applied [.array ref] heap) first rest := by
  have hitems : heap.items ref = #[first] ++ rest.toArray := by
    rw [← Array.toList_inj, h, Array.toList_append]
    rfl
  have hpair := heap.givesPair_taken first rest.toArray
  rwa [← applied_shift hitems] at hpair

theorem givesPair_pop_push (value : Value) :
    heap.GivesPair (pop.composed push [.array ref, value] heap) value (heap.items ref).toList := by
  rw [composed_eq_applied (applied_push heap ref value)]
  apply GivesPair.earlier (givesPair_pop _) (heap.size_le_newArray _)
  rw [heap.items_made, Array.toList_push]

theorem givesPair_shift_unshift (value : Value) :
    heap.GivesPair (shift.composed unshift [.array ref, value] heap) value
      (heap.items ref).toList := by
  rw [composed_eq_applied (applied_unshift heap ref value)]
  apply GivesPair.earlier (givesPair_shift _) (heap.size_le_newArray _)
  rw [heap.items_made, Array.toList_append]
  rfl

theorem givesPair_shift_reverse {front : List Value} {last : Value}
    (h : (heap.items ref).toList = front ++ [last]) :
    heap.GivesPair (shift.composed reverse [.array ref] heap) last front.reverse := by
  rw [composed_eq_applied (applied_reverse heap ref)]
  apply GivesPair.earlier (givesPair_shift _) (heap.size_le_newArray _)
  rw [heap.items_made, Array.toList_reverse, h, List.reverse_append]
  rfl

theorem givesArray_reverse (heap : Heap) (ref : ArrayRef) :
    heap.GivesArray (reverse.applied [.array ref] heap) (heap.items ref).toList.reverse := by
  have harray := heap.givesArray_newArray (heap.items ref).reverse
  rwa [Array.toList_reverse, ← applied_reverse] at harray

theorem givesArray_reverse_reverse :
    heap.GivesArray (reverse.composed reverse [.array ref] heap) (heap.items ref).toList := by
  have harray := (heap.newArray (heap.items ref).reverse).2.givesArray_reverse ⟨heap.arrays.size⟩
  rw [heap.items_made, Array.toList_reverse, List.reverse_reverse] at harray
  rw [composed_eq_applied (applied_reverse heap ref)]
  exact harray.earlier (heap.size_le_newArray _)

theorem GivesPair.ne_error {result : Except RuntimeError (Value × Heap)} {value : Value}
    {items : List Value} (h : heap.GivesPair result value items) (failure : RuntimeError) :
    result ≠ .error failure := by
  obtain ⟨_, _, _, hresult, _⟩ := h
  rw [hresult]
  exact nofun

theorem pop_fails_iff :
    (∃ failure, pop.applied [.array ref] heap = .error failure) ↔ heap.items ref = #[] := by
  constructor
  · rintro ⟨failure, hfailure⟩
    by_contra hnonempty
    have hlist : (heap.items ref).toList ≠ [] := by simpa using hnonempty
    have hpair := givesPair_pop (List.dropLast_append_getLast hlist).symm
    exact hpair.ne_error failure hfailure
  · intro hempty
    exact ⟨_, applied_pop_of_empty hempty⟩

theorem shift_fails_iff :
    (∃ failure, shift.applied [.array ref] heap = .error failure) ↔ heap.items ref = #[] := by
  constructor
  · rintro ⟨failure, hfailure⟩
    by_contra hnonempty
    have hlist : (heap.items ref).toList ≠ [] := by simpa using hnonempty
    obtain ⟨first, rest, hitems⟩ := List.exists_cons_of_ne_nil hlist
    exact (givesPair_shift hitems).ne_error failure hfailure
  · intro hempty
    exact ⟨_, applied_shift_of_empty hempty⟩

/-- Two slices that meet are the parts of a list. The second one is of the same array, which the
first one has left as it was. -/
theorem slice_append {lowest place highest : Number} {count : Nat}
    (hcell : ref.index < heap.arrays.size) (hlowest : integerOf? lowest = some 0)
    (hplace : integerOf? place = some (count : Int))
    (hhighest : integerOf? highest = some ((heap.items ref).size : Int))
    (hcount : count ≤ (heap.items ref).size) :
    ∃ front middle back after,
      slice.applied [.array ref, .number lowest, .number place] heap =
        .ok (.array front, middle) ∧
      slice.applied [.array ref, .number place, .number highest] middle =
        .ok (.array back, after) ∧
      heap.arrays.size ≤ front.index ∧ heap.arrays.size ≤ back.index ∧
      (after.items front).toList ++ (after.items back).toList = (heap.items ref).toList := by
  let front := (heap.items ref).extract 0 count
  let back := (heap.items ref).extract count (heap.items ref).size
  let middle := (heap.newArray front).2
  have hsame : middle.items ref = heap.items ref := heap.items_newArray_of_lt front hcell
  have hfirst : Collections.slice (heap.items ref) 0 count = .ok front :=
    if_pos (by omega)
  have hsecond : Collections.slice (middle.items ref) count (heap.items ref).size = .ok back := by
    rw [hsame]
    exact if_pos (by omega)
  refine ⟨⟨heap.arrays.size⟩, middle, ⟨middle.arrays.size⟩, (middle.newArray back).2, ?_, ?_,
    Nat.le_refl _, heap.size_le_newArray front, ?_⟩
  · rw [applied_slice heap ref hlowest hplace, hfirst]
    rfl
  · rw [applied_slice middle ref hplace hhighest, hsecond]
    rfl
  · rw [heap.items_made_earlier front back, middle.items_made back, ← Array.toList_append]
    simp [front, back]

theorem len_exact (h : (heap.items ref).size ≤ 2 ^ 53) :
    ∃ number, len.applied [.array ref] heap = .ok (.number number, heap) ∧
      integerOf? number = some ((heap.items ref).size : Int) :=
  ⟨.ofFloat (.ofNat (heap.items ref).size), rfl, integerOf?_ofNat h⟩

theorem obeysListLaws (hcell : ref.index < heap.arrays.size) : heap.ObeysListLaws ref where
  pop_push := givesPair_pop_push
  shift_unshift := givesPair_shift_unshift
  reverse_reverse := givesArray_reverse_reverse
  pop_last := givesPair_pop
  shift_reverse := givesPair_shift_reverse
  shift_first := givesPair_shift
  pop_fails := pop_fails_iff
  shift_fails := shift_fails_iff
  slice_succeeds hlower hupper := by
    rw [applied_slice heap ref hlower hupper]
    exact exists_slice_iff
  slice_append := slice_append hcell
  len_exact := len_exact

end

end Heap

open Heap CollectionOperation Interpreter

/-- **Edits of arrays.** The edits of an array obey the laws of lists. Whatever a collection
function gives, the cells that there were are as before; an array that it gives is in a new cell; and
when arrays in new cells are written to later, each old array stays as it is. A call from a script
does just this. -/
theorem array_edits_obey_list_laws (heap : Heap) (ref : ArrayRef)
    (hcell : ref.index < heap.arrays.size) :
    heap.ObeysListLaws ref ∧
    (∀ operation arguments value after,
      CollectionOperation.applied operation arguments heap = .ok (value, after) →
        after.Extends heap ∧
        (∀ made, value = .array made → heap.arrays.size ≤ made.index) ∧
        ∀ later, after.WritesFrom heap.arrays.size later →
          ∀ old, old.index < heap.arrays.size → later.items old = heap.items old) ∧
    ∀ (fuel : Nat) (state : State) (function : FunctionRef) (native : Native)
      (operation : CollectionOperation) (arguments : List Value), state.heap = heap →
      heap.callable? function = some (.native native) →
      native.operation = .collection operation → native.arity.accepts arguments.length →
      state.callDepth < state.maxCallDepth →
        (ofFuel (fuel + 1)).call (.function function) arguments state =
          match operation.applied arguments heap with
          | .ok (value, after) => .ok value { state with heap := after }
          | .error failure => .error failure state := by
  refine ⟨obeysListLaws hcell, ?_, ?_⟩
  · intro operation arguments value after happlied
    have hextends := (allocates_applied happlied).extends
    refine ⟨hextends, ?_, ?_⟩
    · rintro made rfl
      exact size_le_of_applied happlied
    · intro later hlater old hold
      calc later.items old
          = after.items old := hlater.items_eq hold (hold.trans_le hextends.size_le)
        _ = heap.items old := hextends.items_eq hold
  · rintro fuel state function native operation arguments rfl hcallable hoperation harity hdepth
    exact call_collection fuel hcallable hoperation harity hdepth

/-- The function `push`, and an array of two values. -/
def editedState : State :=
  { State.blank with
    heap := ⟨#[#[.boolean true, .nil]], #[],
      #[.native ⟨"push", .exactly 2, .collection .push⟩]⟩ }

theorem array_edits_obey_list_laws_editedState :
    (0 : Nat) < editedState.heap.arrays.size ∧
    (∃ made after,
      push.applied [.array ⟨0⟩, .string "last"] editedState.heap = .ok (.array made, after) ∧
      (ofFuel 1).call (.function ⟨0⟩) [.array ⟨0⟩, .string "last"] editedState =
        .ok (.array made) { editedState with heap := after } ∧
      (after.setItem made 0 .nil).items ⟨0⟩ = #[.boolean true, .nil]) ∧
    editedState.heap.GivesPair
      (pop.composed push [.array ⟨0⟩, .string "last"] editedState.heap) (.string "last")
      [.boolean true, .nil] := by
  have hcell : (⟨0⟩ : ArrayRef).index < editedState.heap.arrays.size := by decide
  obtain ⟨hlaws, hnew, hcall⟩ := array_edits_obey_list_laws editedState.heap ⟨0⟩ hcell
  have hpush := applied_push editedState.heap ⟨0⟩ (.string "last")
  obtain ⟨-, hfresh, hwrites⟩ := hnew _ _ _ _ hpush
  refine ⟨hcell, ⟨_, _, hpush, ?_, ?_⟩, hlaws.pop_push (.string "last")⟩
  · exact hcall 0 editedState ⟨0⟩ _ _ _ rfl rfl rfl rfl (by decide)
  · exact hwrites _ (.setItem .refl (hfresh _ rfl) 0 .nil) ⟨0⟩ hcell

end ScriptEngine
