import ScriptEngine.Proofs.Execution.Runs
import ScriptEngine.Registry.Basic

/-!
# Local frames and the call depth

A call gives its caller back exactly the local frames that it found, at the call depth that it
found, whether it succeeds or fails. A statement or expression keeps the number of local frames and
the call depth. So a session is back at top level between any two of its steps.
-/

namespace ScriptEngine

namespace Scopes

theorem length_of_assignIn {name : String} {value : Value} {frames after : List Frame}
    (h : assignIn name value frames = some after) : after.length = frames.length := by
  induction frames generalizing after with
  | nil => simp [assignIn] at h
  | cons frame outer ih =>
      unfold assignIn at h
      split at h
      · rw [← Option.some.inj h]
        rfl
      · obtain ⟨rest, hrest, rfl⟩ := Option.map_eq_some_iff.mp h
        rw [List.length_cons, List.length_cons, ih hrest]

theorem length_locals_of_assign? {scopes after : Scopes} {name : String} {value : Value}
    (h : scopes.assign? name value = some after) :
    after.locals.length = scopes.locals.length := by
  unfold assign? at h
  split at h
  · rename_i locals hlocals
    rw [← Option.some.inj h]
    exact length_of_assignIn hlocals
  · split at h
    · rw [← Option.some.inj h]
    · simp at h

theorem length_locals_bind (scopes : Scopes) (name : String) (value : Value) :
    (scopes.bind name value).locals.length = scopes.locals.length := by
  unfold bind
  split
  · rename_i hlocals
    rw [hlocals]
    rfl
  · rfl

end Scopes

namespace Advances

variable {regime : Regime} {activity : Activity} {before after : State}

theorem callDepth_eq (h : Advances regime activity before after) :
    after.callDepth = before.callDepth := by
  induction h with
  | refl => rfl
  | trans _ _ ihfirst ihsecond => exact ihsecond.trans ihfirst
  | frame _ _ ih => exact ih
  | level _ _ ih =>
      rw [Interpreter.leaveLevel, ih]
      rfl
  | _ => rfl

theorem length_locals (h : Advances regime activity before after) :
    after.scopes.locals.length = before.scopes.locals.length := by
  induction h with
  | refl => rfl
  | trans _ _ ihfirst ihsecond => exact ihsecond.trans ihfirst
  | assign _ h => exact Scopes.length_locals_of_assign? h
  | bind state value _ => exact state.scopes.length_locals_bind _ value
  | level _ _ ih => exact ih
  | _ => rfl

/-- Nothing that a library function or a call does reaches the frames of the caller. -/
theorem locals_eq (h : Advances regime .hosting before after) :
    after.scopes.locals = before.scopes.locals := by
  generalize hactivity : Activity.hosting = activity at h
  induction h with
  | trans _ _ ihfirst ihsecond => exact (ihsecond hactivity).trans (ihfirst hactivity)
  | assign hne => exact absurd hactivity.symm hne
  | bind => exact absurd hactivity nofun
  | level _ _ ih => exact ih rfl
  | _ => rfl

end Advances

/-- No call is active. -/
def State.IsAtTopLevel (state : State) : Prop :=
  state.scopes.locals = [] ∧ state.callDepth = 0

theorem Advances.isAtTopLevel {regime : Regime} {activity : Activity} {before after : State}
    (h : Advances regime activity before after) (hbefore : before.IsAtTopLevel) :
    after.IsAtTopLevel := by
  refine ⟨?_, h.callDepth_eq.trans hbefore.2⟩
  apply List.eq_nil_of_length_eq_zero
  rw [h.length_locals, hbefore.1]
  rfl

theorem Registry.isAtTopLevel_install {state : State} (registry : Registry)
    (h : state.IsAtTopLevel) : (registry.install state).IsAtTopLevel := by
  unfold install
  induction registry.entries generalizing state with
  | nil => exact h
  | cons entry rest ih => exact ih h

open Interpreter

/-- The states between the steps of a session, in which an embedding program makes values, defines
names and sets the limit of the call depth, and runs programs, expressions, statements and calls.
A step that fails leaves a state as well. -/
inductive Session : State → Prop
  | initial (heap : Heap) (world : World) : Session (.initial heap world)
  | allocate {state : State} {heap : Heap} (h : Session state)
      (hheap : state.heap.Allocates heap) : Session { state with heap := heap }
  | define {state : State} (name : String) (value : Value) (h : Session state) :
      Session (state.defineGlobal name value)
  | install {state : State} (registry : Registry) (h : Session state) :
      Session (registry.install state)
  | limit {state : State} (depth : Nat) (h : Session state) :
      Session { state with maxCallDepth := depth }
  | world {state : State} (world : World) (h : Session state) :
      Session { state with world := world }
  | run {state after : State} {fuel : Nat} {program : Program} (h : Session state)
      (hend : ((ofFuel fuel).run program state).state? = some after) : Session after
  | evaluate {state after : State} {fuel : Nat} {expression : Expr} (h : Session state)
      (hend : ((ofFuel fuel).evaluate expression state).state? = some after) : Session after
  | execute {state after : State} {fuel : Nat} {statement : Stmt} (h : Session state)
      (hend : ((ofFuel fuel).execute statement state).state? = some after) : Session after
  | call {state after : State} {fuel : Nat} {callee : Value} {arguments : List Value}
      (h : Session state)
      (hend : ((ofFuel fuel).call callee arguments state).state? = some after) : Session after

theorem Session.isAtTopLevel {state : State} (h : Session state) : state.IsAtTopLevel := by
  induction h with
  | initial => exact ⟨rfl, rfl⟩
  | allocate _ _ ih => exact ih
  | define _ _ _ ih => exact ih
  | install registry _ ih => exact registry.isAtTopLevel_install ih
  | limit _ _ ih => exact ih
  | world _ _ ih => exact ih
  | run _ hend ih =>
      exact (((isAdvancing_ofFuel _).run _ _).of_state? hend).isAtTopLevel ih
  | evaluate _ hend ih =>
      exact (((isAdvancing_ofFuel _).evaluate _ _).of_state? hend).isAtTopLevel ih
  | execute _ hend ih =>
      exact (((isAdvancing_ofFuel _).execute _ _).of_state? hend).isAtTopLevel ih
  | call _ hend ih =>
      exact (((isAdvancing_ofFuel _).call _ _ _).of_state? hend).isAtTopLevel ih

/-- **Calls are balanced.** A call leaves the local frames of its caller and the call depth as they
were, and a statement or expression the number of local frames and the call depth, whether they
succeed or fail; so every step of a session starts at top level. -/
theorem calls_balanced :
    (∀ fuel callee arguments state, ((ofFuel fuel).call callee arguments state).Ends fun after =>
      after.scopes.locals = state.scopes.locals ∧ after.callDepth = state.callDepth) ∧
    (∀ fuel statement state, ((ofFuel fuel).execute statement state).Ends fun after =>
      after.scopes.locals.length = state.scopes.locals.length ∧
        after.callDepth = state.callDepth) ∧
    (∀ fuel expression state, ((ofFuel fuel).evaluate expression state).Ends fun after =>
      after.scopes.locals.length = state.scopes.locals.length ∧
        after.callDepth = state.callDepth) ∧
    (∀ fuel program state, state.IsAtTopLevel →
      ((ofFuel fuel).run program state).Ends State.IsAtTopLevel) ∧
    ∀ state, Session state → state.IsAtTopLevel := by
  refine ⟨fun fuel callee arguments state => ?_, fun fuel statement state => ?_,
    fun fuel expression state => ?_, fun fuel program state hstate => ?_,
    fun state hstate => hstate.isAtTopLevel⟩
  · exact ((isAdvancing_ofFuel fuel).call callee arguments state).imp fun after hafter =>
      ⟨hafter.locals_eq, hafter.callDepth_eq⟩
  · exact ((isAdvancing_ofFuel fuel).execute statement state).imp fun after hafter =>
      ⟨hafter.length_locals, hafter.callDepth_eq⟩
  · exact ((isAdvancing_ofFuel fuel).evaluate expression state).imp fun after hafter =>
      ⟨hafter.length_locals, hafter.callDepth_eq⟩
  · exact ((isAdvancing_ofFuel fuel).run program state).imp fun after hafter =>
      hafter.isAtTopLevel hstate

/-- The sub `fail` declares a name of its own and fails after that. -/
def failingProgram : Program :=
  [.sub .first "fail" []
    [.declare .first "x" none, .returns .first (some (.name .first "unbound"))],
    .call .first (.name .first "fail") []]

def State.blank : State :=
  .initial .empty ⟨"", .working, .empty, [], [], 0, .ascending⟩

theorem calls_balanced_failingProgram :
    State.blank.IsAtTopLevel ∧
      ∃ failure after, (ofFuel 9).run failingProgram .blank = .error failure after ∧
        after.IsAtTopLevel := by
  have hblank : State.blank.IsAtTopLevel := ⟨rfl, rfl⟩
  have hend := calls_balanced.2.2.2.1 9 failingProgram .blank hblank
  exact ⟨hblank, _, _, rfl, hend⟩

end ScriptEngine
