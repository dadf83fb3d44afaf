import ScriptEngine.Proofs.Execution.Advance
import ScriptEngine.Proofs.Library.Plain
import ScriptEngine.Proofs.Library.Reading

/-!
# Runs that carry over

Two runs from states that differ in a way that the first run does not notice, and end in states that
differ in the same way. A `Transfer` says how the states differ, what becomes of errors, and which
states the first run passes through. It may be lenient about stack overflows: then nothing is said
about the second run if the first one ends in such an error.
-/

namespace ScriptEngine

/-- A change of states that nothing but calls and names of the program may notice, with what follows
for errors. Heaps keep their arrays and hashes, and functions print as before. -/
structure Transfer where
  state : State → State
  error : RuntimeError → RuntimeError
  admits : State → Prop
  lenient : Prop
  error_of_isPlain {failure : RuntimeError} (h : failure.IsPlain) : error failure = failure
  admits_of_eq {start after : State} (h : admits start)
    (hcallDepth : after.callDepth = start.callDepth)
    (hmaxCallDepth : after.maxCallDepth = start.maxCallDepth)
    (hsink : after.world.sink = start.world.sink) : admits after
  world_state (start : State) : (state start).world = start.world
  heap_state (start : State) :
    (state start).heap = start.heap.withFunctions (state start).heap.functions
  printFunction_state (start : State) :
    (state start).heap.printFunction = start.heap.printFunction
  state_withWorld (start : State) (world : World) :
    state { start with world := world } = { state start with world := world }
  state_withHeap {start : State} {heap : Heap} (h : heap.functions = start.heap.functions) :
    state { start with heap := heap } =
      { state start with heap := heap.withFunctions (state start).heap.functions }

namespace Outcome

variable {α : Type}

/-- The step ends with a stack overflow. -/
def Overflows : Outcome α → Prop
  | error failure _ => failure.kind = .stackOverflow
  | _ => False

end Outcome

namespace Transfer

/-- What becomes of the way a step ends. -/
def outcome (transfer : Transfer) {α : Type} : Outcome α → Outcome α
  | .ok value after => .ok value (transfer.state after)
  | .error failure after => .error (transfer.error failure) (transfer.state after)
  | .aborted => .aborted
  | .outOfFuel => .outOfFuel

/-- The second step ends like the first one, up to what the transfer says. -/
structure Carries (transfer : Transfer) {α : Type} (left right : Outcome α) : Prop where
  ends : left.Ends transfer.admits
  agrees : right = transfer.outcome left ∨ transfer.lenient ∧ left.Overflows

namespace Carries

variable {transfer : Transfer} {α β : Type} {start : State}

theorem ok (h : transfer.admits start) (value : α) :
    transfer.Carries (.ok value start) (.ok value (transfer.state start)) :=
  ⟨h, .inl rfl⟩

theorem error (h : transfer.admits start) {failure : RuntimeError} (hplain : failure.IsPlain) :
    transfer.Carries (.error failure start : Outcome α)
      (.error failure (transfer.state start)) := by
  refine ⟨h, .inl ?_⟩
  rw [outcome, transfer.error_of_isPlain hplain]

theorem aborted : transfer.Carries (.aborted : Outcome α) .aborted :=
  ⟨trivial, .inl rfl⟩

theorem outOfFuel : transfer.Carries (.outOfFuel : Outcome α) .outOfFuel :=
  ⟨trivial, .inl rfl⟩

theorem ofExcept (h : transfer.admits start) {result : Except RuntimeError α}
    (hresult : FailsPlainly result) :
    transfer.Carries (Outcome.ofExcept result start)
      (Outcome.ofExcept result (transfer.state start)) := by
  cases result with
  | ok value => exact ok h value
  | error failure => exact error h (hresult failure rfl).isPlain

theorem andThen {left right : Outcome α} {leftNext rightNext : α → State → Outcome β}
    (h : transfer.Carries left right)
    (hnext : ∀ value after, transfer.admits after →
      transfer.Carries (leftNext value after) (rightNext value (transfer.state after))) :
    transfer.Carries (left.andThen leftNext) (right.andThen rightNext) := by
  obtain ⟨hends, rfl | ⟨hlenient, hoverflow⟩⟩ := h
  · cases left with
    | ok value after => exact hnext value after hends
    | error failure after => exact ⟨hends, .inl rfl⟩
    | aborted => exact aborted
    | outOfFuel => exact outOfFuel
  · -- The first step has overflowed, so that nothing is known of the second.
    cases left with
    | error failure after => exact ⟨hends, .inr ⟨hlenient, hoverflow⟩⟩
    | _ => exact hoverflow.elim

theorem map {left right : Outcome α} (h : transfer.Carries left right) (transform : α → β) :
    transfer.Carries (left.map transform) (right.map transform) :=
  h.andThen fun value _ hafter => ok hafter (transform value)

end Carries

end Transfer

end ScriptEngine
