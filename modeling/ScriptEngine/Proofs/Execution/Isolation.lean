import ScriptEngine.Proofs.Execution.Frames
import ScriptEngine.Proofs.Library.Carrying

/-!
# Calls do not see the frames of their caller

A step ignores the local frames if other ones in their place change nothing but that they are still
there afterwards. Calls are such steps: a sub or a block runs in a frame of its own, and a library
function looks at no frame, whatever its callbacks do.
-/

namespace ScriptEngine

open Outcome

def State.withLocals (locals : List Frame) (state : State) : State :=
  { state with scopes := state.scopes.restore locals }

/-- The states differ at most in their local frames. -/
structure State.AgreesBeyondLocals (first second : State) : Prop where
  globals : first.scopes.globals = second.scopes.globals
  heap : first.heap = second.heap
  world : first.world = second.world
  callDepth : first.callDepth = second.callDepth
  maxCallDepth : first.maxCallDepth = second.maxCallDepth

namespace State

@[simp]
theorem withLocals_heap (locals : List Frame) (state : State) :
    (state.withLocals locals).heap = state.heap := rfl

theorem agreesBeyondLocals_withLocals (locals : List Frame) (state : State) :
    state.AgreesBeyondLocals (state.withLocals locals) :=
  ⟨rfl, rfl, rfl, rfl, rfl⟩

theorem AgreesBeyondLocals.eq_withLocals {first second : State}
    (h : first.AgreesBeyondLocals second) : second = first.withLocals second.scopes.locals := by
  obtain ⟨hglobals, hheap, hworld, hcallDepth, hmaxCallDepth⟩ := h
  unfold withLocals Scopes.restore
  rw [hglobals, hheap, hworld, hcallDepth, hmaxCallDepth]

end State

/-- Both steps end alike, with the same value or error, and in related states. -/
def Outcome.Agrees {α : Type} (related : State → State → Prop) : Outcome α → Outcome α → Prop
  | ok value state, ok other after => value = other ∧ related state after
  | error failure state, error other after => failure = other ∧ related state after
  | aborted, aborted => True
  | outOfFuel, outOfFuel => True
  | _, _ => False

theorem Outcome.agrees_mapState {α : Type} {related : State → State → Prop}
    {change : State → State} (hchange : ∀ state, related state (change state))
    (outcome : Outcome α) : outcome.Agrees related (outcome.mapState change) := by
  cases outcome with
  | ok value state => exact ⟨rfl, hchange state⟩
  | error failure state => exact ⟨rfl, hchange state⟩
  | aborted => trivial
  | outOfFuel => trivial

/-- Other local frames make no difference to a step, and it leaves them alone. -/
def IgnoresLocals {α : Type} (step : State → Outcome α) : Prop :=
  ∀ locals state, step (state.withLocals locals) = (step state).mapState (.withLocals locals)

namespace IgnoresLocals

variable {α β : Type}

theorem error (failure : RuntimeError) :
    IgnoresLocals (Outcome.error failure : State → Outcome α) :=
  fun _ _ => rfl

theorem andThen {step : State → Outcome α} {next : α → State → Outcome β}
    (h : IgnoresLocals step) (hnext : ∀ value, IgnoresLocals (next value)) :
    IgnoresLocals fun state => (step state).andThen next := by
  intro locals state
  simp only [h locals state]
  cases step state with
  | ok value after => exact hnext value locals after
  | error failure after => rfl
  | aborted => rfl
  | outOfFuel => rfl

theorem mapState {step : State → Outcome α} (h : IgnoresLocals step) {change : State → State}
    (hchange : ∀ locals state,
      change (state.withLocals locals) = (change state).withLocals locals) :
    IgnoresLocals fun state => (step state).mapState change := by
  intro locals state
  simp only [h locals state]
  cases step state with
  | ok value after => exact congrArg (Outcome.ok value) (hchange locals after)
  | error failure after => exact congrArg (Outcome.error failure) (hchange locals after)
  | aborted => rfl
  | outOfFuel => rfl

end IgnoresLocals

/-! ### Library functions -/

/-- Other local frames in place of those of a state. -/
def Transfer.withLocals (locals : List Frame) : Transfer where
  state := State.withLocals locals
  error := id
  admits _ := True
  lenient := False
  error_of_isPlain _ := id_eq _
  admits_of_eq _ _ _ _ := trivial
  world_state _ := rfl
  heap_state _ := rfl
  printFunction_state _ := rfl
  state_withWorld _ _ := rfl
  state_withHeap {start heap} h :=
    congrArg (fun functions =>
      { start.withLocals locals with heap := heap.withFunctions functions }) h

theorem IgnoresLocals.carries {α : Type} {step : State → Outcome α} (h : IgnoresLocals step)
    (locals : List Frame) (state : State) :
    (Transfer.withLocals locals).Carries (step state) (step (state.withLocals locals)) := by
  rw [h locals state]
  cases step state with
  | ok value after => exact ⟨trivial, .inl rfl⟩
  | error failure after => exact ⟨trivial, .inl rfl⟩
  | aborted => exact .aborted
  | outOfFuel => exact .outOfFuel

theorem ignoresLocals_of_carries {α : Type} {step : State → Outcome α}
    (h : ∀ locals state,
      (Transfer.withLocals locals).Carries (step state) (step (state.withLocals locals))) :
    IgnoresLocals step := by
  intro locals state
  have hagrees := (h locals state).agrees.resolve_right fun hlenient => hlenient.1
  rw [hagrees]
  cases step state <;> rfl

theorem State.realize_ignoresLocals (result : LibraryResult) :
    IgnoresLocals fun state => state.realize result :=
  fun _ _ => rfl

/-- A library function looks at local frames at most through `call`. -/
theorem Operation.perform_ignoresLocals (operation : Operation) {call : Caller}
    (hcall : ∀ callee arguments, IgnoresLocals (call callee arguments)) (arguments : List Value) :
    IgnoresLocals (operation.perform call arguments) := by
  refine ignoresLocals_of_carries fun locals state => ?_
  exact operation.carries_perform
    (fun callee arguments start _ => (hcall callee arguments).carries locals start) trivial
    arguments

/-! ### Calls -/

namespace Interpreter

variable {interpreter : Interpreter}

/-- A call of a sub takes nothing from the frames of its caller, since its body has a frame of its
own, with the arguments in it. -/
theorem callSub_ignoresLocals (interpreter : Interpreter) (name : Option String)
    (parameters : List String) (body : List Stmt) (arguments : List Value) :
    IgnoresLocals (interpreter.callSub name parameters body arguments) := by
  intro locals state
  unfold callSub
  by_cases harguments : arguments.length < parameters.length
  · simp only [harguments, if_true]
    rfl
  · simp only [harguments, if_false]
    change ((interpreter.executeBody body (state.enterCall _).1).mapState _).andThen _ = _
    cases interpreter.executeBody body (state.enterCall (.ofList (parameters.zip arguments))).1 with
    | ok flow after => cases flow <;> rfl
    | error failure after => rfl
    | aborted => rfl
    | outOfFuel => rfl

theorem callBlock_ignoresLocals (interpreter : Interpreter) (body : Expr)
    (arguments : List Value) : IgnoresLocals (interpreter.callBlock body arguments) := by
  intro locals state
  cases arguments with
  | nil => rfl
  | cons value rest =>
      change (interpreter.evaluate body (state.enterCall _).1).mapState _ =
        ((interpreter.evaluate body (state.enterCall _).1).mapState _).mapState _
      cases interpreter.evaluate body (state.enterCall [(blockParameter, value)]).1 with
      | ok value after => rfl
      | error failure after => rfl
      | aborted => rfl
      | outOfFuel => rfl

theorem callNative_ignoresLocals
    (hcall : ∀ callee arguments, IgnoresLocals (interpreter.call callee arguments))
    (native : Native) (arguments : List Value) :
    IgnoresLocals (interpreter.callNative native arguments) := by
  unfold callNative
  by_cases harity : native.arity.accepts arguments.length
  · simp only [harity, if_true]
    exact (native.operation.perform_ignoresLocals hcall arguments).andThen
      State.realize_ignoresLocals
  · simp only [harity]
    exact .error _

theorem callCallable_ignoresLocals
    (hcall : ∀ callee arguments, IgnoresLocals (interpreter.call callee arguments))
    (callable : Callable) (arguments : List Value) :
    IgnoresLocals (interpreter.callCallable callable arguments) := by
  cases callable with
  | sub name parameters body =>
      exact interpreter.callSub_ignoresLocals name parameters body arguments
  | block body => exact interpreter.callBlock_ignoresLocals body arguments
  | native native => exact callNative_ignoresLocals hcall native arguments

theorem callValue_ignoresLocals
    (hcall : ∀ callee arguments, IgnoresLocals (interpreter.call callee arguments))
    (callee : Value) (arguments : List Value) :
    IgnoresLocals (interpreter.callValue callee arguments) := by
  intro locals state
  cases callee with
  | function ref =>
      unfold callValue
      change ite (state.maxCallDepth ≤ state.callDepth) _ _ = _
      by_cases hdepth : state.maxCallDepth ≤ state.callDepth
      · simp only [hdepth, if_true]
        rfl
      · simp only [hdepth, if_false, State.withLocals_heap]
        cases state.heap.callable? ref with
        | none => rfl
        | some callable =>
            have hcallable := callCallable_ignoresLocals hcall callable arguments
            exact hcallable.mapState (fun _ _ => rfl) locals (enterLevel state)
  | _ => rfl

/-- Whatever a call does, the local frames of its caller make no difference to it. -/
theorem call_ignoresLocals (fuel : Nat) (callee : Value) (arguments : List Value) :
    IgnoresLocals ((ofFuel fuel).call callee arguments) := by
  induction fuel generalizing callee arguments with
  | zero => exact fun _ _ => rfl
  | succ fuel ih => exact callValue_ignoresLocals ih callee arguments

end Interpreter

open Interpreter

/-- **Calls are isolated.** In two states that differ at most in their local frames, a call ends
alike, with the same value or error, and in states that again differ at most in these. -/
theorem calls_isolated (fuel : Nat) (callee : Value) (arguments : List Value)
    (first second : State) (h : first.AgreesBeyondLocals second) :
    ((ofFuel fuel).call callee arguments first).Agrees State.AgreesBeyondLocals
      ((ofFuel fuel).call callee arguments second) := by
  rw [h.eq_withLocals, call_ignoresLocals fuel callee arguments second.scopes.locals first]
  exact agrees_mapState (State.agreesBeyondLocals_withLocals second.scopes.locals) _

/-- A sub that reads a name which only one of two callers has among its own. -/
def readingHeap : Heap :=
  ⟨#[], #[], #[.sub (some "read") [] [.returns .first (some (.name .first "x"))]]⟩

theorem calls_isolated_readingHeap :
    let first := State.initial readingHeap State.blank.world
    let second := first.withLocals [[("x", .nil)]]
    first.AgreesBeyondLocals second ∧
      ((ofFuel 9).call (.function ⟨0⟩) [] first).Agrees State.AgreesBeyondLocals
        ((ofFuel 9).call (.function ⟨0⟩) [] second) := by
  intro first second
  have h : first.AgreesBeyondLocals second :=
    State.agreesBeyondLocals_withLocals [[("x", .nil)]] first
  exact ⟨h, calls_isolated 9 (.function ⟨0⟩) [] first second h⟩

end ScriptEngine
