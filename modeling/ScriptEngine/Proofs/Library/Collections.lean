import ScriptEngine.Library.Dispatch
import ScriptEngine.Proofs.Execution.Callbacks
import ScriptEngine.Proofs.Library.RoundTrip

/-!
# Results of the collection functions

A collection function reads the heap and gives a scalar or an array that it has made. So whatever
there was in the heap is as it was, and no array that is given is one that there was. A call of the
function from a script gives the same.
-/

namespace ScriptEngine

open Collections

/-- A scalar, or an array that is made for the result. -/
def LibraryResult.IsMade : LibraryResult → Prop
  | .value scalar => ∀ ref, scalar ≠ .array ref
  | .array _ => True
  | .taken _ _ => True
  | .hash _ _ => False
  | .document _ => False

/-- If there is a result, then it is made. -/
def Makes (result : Except RuntimeError LibraryResult) : Prop :=
  ∀ made, result = .ok made → made.IsMade

theorem makes_ok {made : LibraryResult} (h : made.IsMade) : Makes (.ok made) := by
  intro other hother
  rwa [← Except.ok.inj hother]

theorem makes_error (failure : RuntimeError) : Makes (.error failure) := by
  intro made hmade
  cases hmade

theorem makes_bind {α : Type} {next : α → Except RuntimeError LibraryResult}
    (h : ∀ value, Makes (next value)) (result : Except RuntimeError α) :
    Makes (result >>= next) := by
  cases result with
  | ok value => exact h value
  | error failure => exact makes_error failure

namespace CollectionOperation

theorem makes_apply (operation : CollectionOperation) (arguments : List Value) (heap : Heap) :
    Makes (operation.apply arguments heap) := by
  have hnumber (number : Number) : Makes (.ok (.value (.number number))) :=
    makes_ok fun ref => nofun
  have htext (text : String) : Makes (.ok (.value (.string text))) := makes_ok fun ref => nofun
  have harray (items : Array Value) : Makes (.ok (.array items)) := makes_ok trivial
  have htaken (value : Value) (left : Array Value) : Makes (.ok (.taken value left)) :=
    makes_ok trivial
  cases operation with
  | len => exact makes_bind (fun _ => makes_bind (fun _ => hnumber _) _) _
  | push => exact makes_bind (fun _ => makes_bind (fun _ => harray _) _) _
  | unshift => exact makes_bind (fun _ => makes_bind (fun _ => harray _) _) _
  | pop =>
      refine makes_bind (fun items => ?_) _
      split
      · exact htaken _ _
      · exact makes_error _
  | shift =>
      refine makes_bind (fun items => ?_) _
      split
      · exact htaken _ _
      · exact makes_error _
  | join => exact makes_bind (fun _ => makes_bind (fun _ => htext _) _) _
  | split => exact makes_bind (fun _ => makes_bind (fun _ => harray _) _) _
  | index => exact makes_bind (fun _ => makes_bind (fun _ => hnumber _) _) _
  | slice =>
      refine makes_bind (fun _ => makes_bind (fun _ => makes_bind (fun _ => ?_) _) _) _
      exact makes_bind (fun _ => harray _) _
  | reverse => exact makes_bind (fun _ => harray _) _
  | keys => exact makes_bind (fun _ => harray _) _
  | values => exact makes_bind (fun _ => harray _) _

/-- What a collection function gives, and the heap with its containers made. -/
def applied (operation : CollectionOperation) (arguments : List Value) (heap : Heap) :
    Except RuntimeError (Value × Heap) :=
  (operation.apply arguments heap).map heap.realize

/-- What a collection function makes of what another one gives. -/
def composed (operation inner : CollectionOperation) (arguments : List Value) (heap : Heap) :
    Except RuntimeError (Value × Heap) :=
  (inner.applied arguments heap).bind fun result => operation.applied [result.1] result.2

variable {operation inner : CollectionOperation} {arguments : List Value} {heap after : Heap}
  {value : Value}

theorem composed_eq_applied {result : Value × Heap}
    (h : inner.applied arguments heap = .ok result) :
    operation.composed inner arguments heap = operation.applied [result.1] result.2 := by
  rw [composed, h]
  rfl

theorem exists_of_applied_eq_ok (h : operation.applied arguments heap = .ok (value, after)) :
    ∃ result, operation.apply arguments heap = .ok result ∧
      heap.realize result = (value, after) := by
  unfold applied at h
  cases hresult : operation.apply arguments heap with
  | error failure =>
      rw [hresult] at h
      cases h
  | ok result =>
      rw [hresult] at h
      exact ⟨result, rfl, Except.ok.inj h⟩

/-- A collection function only adds to the heap. -/
theorem allocates_applied (h : operation.applied arguments heap = .ok (value, after)) :
    heap.Allocates after := by
  obtain ⟨result, -, hrealize⟩ := exists_of_applied_eq_ok h
  have hallocates := heap.allocates_realize result
  rwa [hrealize] at hallocates

/-- An array that a collection function gives was not there before. -/
theorem size_le_of_applied {made : ArrayRef}
    (h : operation.applied arguments heap = .ok (.array made, after)) :
    heap.arrays.size ≤ made.index := by
  obtain ⟨result, hresult, hrealize⟩ := exists_of_applied_eq_ok h
  have hmade := makes_apply operation arguments heap result hresult
  cases result with
  | value value =>
      cases hrealize
      exact absurd rfl (hmade made)
  | array items =>
      cases hrealize
      exact Nat.le_refl _
  | taken value left =>
      cases hrealize
      simp
  | hash entries inner => exact hmade.elim
  | document document => exact hmade.elim

end CollectionOperation

/-- A call of a collection function from a script gives what the function gives. Only the heap is
another one after it. -/
theorem Interpreter.call_collection {state : State} {function : FunctionRef} {native : Native}
    {operation : CollectionOperation} {arguments : List Value} (fuel : Nat)
    (hcallable : state.heap.callable? function = some (.native native))
    (hoperation : native.operation = .collection operation)
    (harity : native.arity.accepts arguments.length)
    (hdepth : state.callDepth < state.maxCallDepth) :
    (ofFuel (fuel + 1)).call (.function function) arguments state =
      match operation.applied arguments state.heap with
      | .ok (value, heap) => .ok value { state with heap := heap }
      | .error failure => .error failure state := by
  rw [call_native fuel hcallable harity hdepth, hoperation]
  change realized (.ofExcept (operation.apply arguments state.heap) (enterLevel state)) = _
  unfold CollectionOperation.applied
  cases operation.apply arguments state.heap with
  | ok result => rfl
  | error failure => rfl

/-! ### New arrays -/

namespace Heap

/-- The result is an array with these items that was not there before. -/
def GivesArray (heap : Heap) (result : Except RuntimeError (Value × Heap)) (items : List Value) :
    Prop :=
  ∃ made after, result = .ok (.array made, after) ∧ heap.arrays.size ≤ made.index ∧
    (after.items made).toList = items

/-- The result is an array of a value and an array with these items. Neither of the two arrays was
there before. -/
def GivesPair (heap : Heap) (result : Except RuntimeError (Value × Heap)) (value : Value)
    (items : List Value) : Prop :=
  ∃ made rest after, result = .ok (.array made, after) ∧
    heap.arrays.size ≤ made.index ∧ heap.arrays.size ≤ rest.index ∧
    (after.items made).toList = [value, .array rest] ∧ (after.items rest).toList = items

variable {heap later : Heap} {result : Except RuntimeError (Value × Heap)} {items : List Value}

theorem size_le_newArray (heap : Heap) (items : Array Value) :
    heap.arrays.size ≤ (heap.newArray items).2.arrays.size := by
  simp [newArray]

theorem items_made (heap : Heap) (items : Array Value) :
    (heap.newArray items).2.items ⟨heap.arrays.size⟩ = items := by
  rw [heap.items_newArray, if_pos rfl]

theorem items_made_earlier (heap : Heap) (items others : Array Value) :
    ((heap.newArray items).2.newArray others).2.items ⟨heap.arrays.size⟩ = items := by
  have hcell : (⟨heap.arrays.size⟩ : ArrayRef).index < (heap.newArray items).2.arrays.size := by
    simp [newArray]
  rw [items_newArray_of_lt _ others hcell, heap.items_made]

theorem givesArray_newArray (heap : Heap) (items : Array Value) :
    heap.GivesArray (.ok (heap.newArray items)) items.toList := by
  refine ⟨⟨heap.arrays.size⟩, (heap.newArray items).2, rfl, Nat.le_refl _, ?_⟩
  rw [heap.items_made]

theorem givesPair_taken (heap : Heap) (value : Value) (left : Array Value) :
    heap.GivesPair (.ok (heap.realize (.taken value left))) value left.toList := by
  let middle := (heap.newArray left).2
  let pair := #[value, .array ⟨heap.arrays.size⟩]
  refine ⟨⟨middle.arrays.size⟩, ⟨heap.arrays.size⟩, (middle.newArray pair).2, rfl,
    heap.size_le_newArray left, Nat.le_refl _, ?_, ?_⟩
  · rw [middle.items_made]
  · rw [heap.items_made_earlier]

/-- What is new in a later heap is new in an earlier one. -/
theorem GivesArray.earlier (h : later.GivesArray result items)
    (hsize : heap.arrays.size ≤ later.arrays.size) : heap.GivesArray result items := by
  obtain ⟨made, after, hresult, hmade, hitems⟩ := h
  exact ⟨made, after, hresult, hsize.trans hmade, hitems⟩

theorem GivesPair.earlier {value : Value} (h : later.GivesPair result value items)
    (hsize : heap.arrays.size ≤ later.arrays.size) : heap.GivesPair result value items := by
  obtain ⟨made, rest, after, hresult, hmade, hrest, hpair⟩ := h
  exact ⟨made, rest, after, hresult, hsize.trans hmade, hsize.trans hrest, hpair⟩

end Heap

end ScriptEngine
