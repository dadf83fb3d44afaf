import ScriptEngine.Execution.Run
import ScriptEngine.Proofs.Execution.Regime
import ScriptEngine.Proofs.Value.Growth

/-!
# How a run changes a state

A run changes a state only in the few ways that `Advances` lists, whatever program it runs and
however it ends. A property of states which each of these changes keeps is kept by all runs: the
interpreter itself need not be looked at again. What an interpreter stores and fails with besides is
left to a regime.
-/

namespace ScriptEngine

/-- Cells have been added to a heap, one after another. -/
inductive Heap.Allocates : Heap → Heap → Prop
  | refl (heap : Heap) : Allocates heap heap
  | newArray {first second : Heap} (items : Array Value) (h : Allocates first second) :
      Allocates first (second.newArray items).2
  | newHash {first second : Heap} (table : Table) (h : Allocates first second) :
      Allocates first (second.newHash table).2
  | newFunction {first second : Heap} (callable : Callable) (h : Allocates first second) :
      Allocates first (second.newFunction callable).2

theorem Heap.Allocates.grows {added : String → Prop} {before after : Heap}
    (h : before.Allocates after) : before.Grows added after := by
  induction h with
  | refl => exact .refl before
  | newArray items _ ih => exact ih.trans (Heap.grows_newArray _ items)
  | newHash table _ ih => exact ih.trans (Heap.grows_newHash _ table)
  | newFunction callable _ ih =>
      exact ⟨ih.arrays, ih.hashes, ih.size_items, ih.keeps, ih.adds⟩

theorem Heap.Allocates.callable?_eq_some {before after : Heap} (h : before.Allocates after)
    {ref : FunctionRef} {callable : Callable} (hbefore : before.callable? ref = some callable) :
    after.callable? ref = some callable := by
  induction h with
  | refl => exact hbefore
  | newArray items _ ih => exact ih
  | newHash table _ ih => exact ih
  | @newFunction second added _ ih =>
      have hcell : ref.index < second.functions.size := (Array.getElem?_eq_some_iff.mp ih).1
      have hold : (second.functions.push added)[ref.index]? = second.functions[ref.index]? := by
        rw [Array.getElem?_push, if_neg (Nat.ne_of_lt hcell)]
      exact hold.trans ih

/-- The flow is meant for a loop around the statement. -/
def Flow.isLoopControl : Flow → Bool
  | normal => false
  | returns _ => false
  | breaks => true
  | next => true

/-- Who changes a state: a library function, an expression or a statement. Each may do all that
those before it may. A statement may bind the given names in the innermost frame. -/
inductive Activity
  | hosting
  | evaluating
  | executing (names : String → Prop)

namespace Activity

theorem evaluating_ne_hosting : evaluating ≠ hosting :=
  nofun

theorem executing_ne_hosting {names : String → Prop} : executing names ≠ hosting :=
  nofun

/-- All that the first activity may do, the second one may do as well. -/
def IsWithin : Activity → Activity → Prop
  | hosting, _ => True
  | evaluating, hosting => False
  | evaluating, _ => True
  | executing names, executing others => ∀ name, names name → others name
  | executing _, _ => False

end Activity

/-- The changes that a run makes. A call works on a frame of its own (`frame`), one level further
down (`level`), and gives the frames of its caller back. -/
inductive Advances (regime : Regime) : Activity → State → State → Prop
  | refl (activity : Activity) (state : State) : Advances regime activity state state
  | trans {activity : Activity} {first second third : State}
      (hfirst : Advances regime activity first second)
      (hsecond : Advances regime activity second third) : Advances regime activity first third
  | world (activity : Activity) (state : State) (world : World) :
      Advances regime activity state { state with world := world }
  | allocate (activity : Activity) {state : State} {heap : Heap} (h : state.heap.Allocates heap)
      (hadmits : regime.Admits state.heap → regime.Admits heap) :
      Advances regime activity state { state with heap := heap }
  | writeItem {activity : Activity} (hactivity : activity ≠ .hosting) (state : State)
      (ref : ArrayRef) (slot : Nat) (value : Value) :
      Advances regime activity state { state with heap := state.heap.setItem ref slot value }
  | writeEntry {activity : Activity} (hactivity : activity ≠ .hosting) {state : State}
      {ref : HashRef} {key : Key} (value : Value)
      (h : (state.heap.table ref).contains key ∨
        ∃ property, regime.property property ∧ key = .string property) :
      Advances regime activity state { state with heap := state.heap.setEntry ref key value }
  | assign {activity : Activity} {state : State} {name : String} {value : Value} {scopes : Scopes}
      (hactivity : activity ≠ .hosting) (h : state.scopes.assign? name value = some scopes) :
      Advances regime activity state { state with scopes := scopes }
  | bind {names : String → Prop} (state : State) {name : String} (value : Value)
      (h : names name) : Advances regime (.executing names) state (state.bind name value)
  | frame (activity : Activity) {inner : Activity} {state after : State} {frame : Frame}
      (h : Advances regime inner (state.enterCall frame).1 after) :
      Advances regime activity state (after.leaveCall (state.enterCall frame).2)
  | level (activity : Activity) {state after : State}
      (h : Advances regime .hosting (Interpreter.enterLevel state) after) :
      Advances regime activity state (Interpreter.leaveLevel after)

namespace Advances

variable {regime : Regime} {activity : Activity} {first second third : State}

/-- What one activity may do, each activity that it is within may do as well. -/
theorem weaken {stronger : Activity} (h : Advances regime activity first second)
    (hwithin : activity.IsWithin stronger) : Advances regime stronger first second := by
  have hhosting : stronger = .hosting → activity = .hosting := by
    rintro rfl
    cases activity with
    | hosting => rfl
    | evaluating => exact hwithin.elim
    | executing => exact hwithin.elim
  induction h with
  | refl => exact .refl _ _
  | trans _ _ ihfirst ihsecond =>
      exact (ihfirst hwithin hhosting).trans (ihsecond hwithin hhosting)
  | world => exact .world _ _ _
  | allocate _ h hadmits => exact .allocate _ h hadmits
  | writeItem hactivity =>
      exact .writeItem (fun hstronger => hactivity (hhosting hstronger)) _ _ _ _
  | writeEntry hactivity value h =>
      exact .writeEntry (fun hstronger => hactivity (hhosting hstronger)) value h
  | assign hactivity h => exact .assign (fun hstronger => hactivity (hhosting hstronger)) h
  | bind state value h =>
      cases stronger with
      | hosting => exact hwithin.elim
      | evaluating => exact hwithin.elim
      | executing names => exact .bind state value (hwithin _ h)
  | frame _ h => exact .frame _ h
  | level _ h => exact .level _ h

/-- A run stores nothing but what its regime admits. -/
theorem admits (h : Advances regime activity first second) (hfirst : regime.Admits first.heap) :
    regime.Admits second.heap := by
  induction h with
  | trans _ _ ihfirst ihsecond => exact ihsecond (ihfirst hfirst)
  | allocate _ _ hadmits => exact hadmits hfirst
  | frame _ _ ih => exact ih hfirst
  | level _ _ ih => exact ih hfirst
  | _ => exact hfirst

/-- Containers keep their shape in a run, but for new members of hashes. -/
theorem grows (h : Advances regime activity first second) :
    first.heap.Grows regime.property second.heap := by
  induction h with
  | trans _ _ ihfirst ihsecond => exact ihfirst.trans ihsecond
  | allocate _ h => exact h.grows
  | writeItem _ state ref slot value => exact state.heap.grows_setItem ref slot value
  | writeEntry _ value h => exact Heap.grows_setEntry _ value h
  | frame _ _ ih => exact ih
  | level _ _ ih => exact ih
  | _ => exact .refl _

/-- A function stays what it is, whatever runs. -/
theorem callable?_eq_some (h : Advances regime activity first second) {ref : FunctionRef}
    {callable : Callable} (hfirst : first.heap.callable? ref = some callable) :
    second.heap.callable? ref = some callable := by
  induction h with
  | trans _ _ ihfirst ihsecond => exact ihsecond (ihfirst hfirst)
  | allocate _ h _ => exact h.callable?_eq_some hfirst
  | frame _ _ ih => exact ih hfirst
  | level _ _ ih => exact ih hfirst
  | _ => exact hfirst

end Advances

namespace Outcome

variable {α β : Type} {regime : Regime} {activity : Activity} {start : State}

theorem andThen_congr {outcome : Outcome α} {first second : α → State → Outcome β}
    (h : ∀ value state, outcome = .ok value state → first value state = second value state) :
    outcome.andThen first = outcome.andThen second := by
  cases outcome with
  | ok value state => exact h value state rfl
  | _ => rfl

/-- The state that a step ends with, whether it succeeds or fails. -/
def state? : Outcome α → Option State
  | ok _ state => some state
  | error _ state => some state
  | aborted => none
  | outOfFuel => none

/-- The state that a step ends with has a property. -/
def Ends (holds : State → Prop) : Outcome α → Prop
  | ok _ state => holds state
  | error _ state => holds state
  | aborted => True
  | outOfFuel => True

theorem Ends.imp {outcome : Outcome α} {holds weaker : State → Prop} (h : outcome.Ends holds)
    (himp : ∀ state, holds state → weaker state) : outcome.Ends weaker := by
  cases outcome with
  | ok value state => exact himp state h
  | error failure state => exact himp state h
  | aborted => trivial
  | outOfFuel => trivial

theorem Ends.of_state? {outcome : Outcome α} {holds : State → Prop} (h : outcome.Ends holds)
    {state : State} (hstate : outcome.state? = some state) : holds state := by
  cases outcome with
  | ok value after => exact Option.some.inj hstate ▸ h
  | error failure after => exact Option.some.inj hstate ▸ h
  | aborted => simp [state?] at hstate
  | outOfFuel => simp [state?] at hstate

/-- If the step fails, then with an error that has a property. -/
def Fails (holds : RuntimeError → Prop) : Outcome α → Prop
  | error failure _ => holds failure
  | _ => True

theorem Fails.imp {outcome : Outcome α} {holds weaker : RuntimeError → Prop}
    (h : outcome.Fails holds) (himp : ∀ failure, holds failure → weaker failure) :
    outcome.Fails weaker := by
  cases outcome with
  | error failure state => exact himp failure h
  | _ => trivial

/-- If the step succeeds, then with a value that has a property. -/
def Gives (holds : α → Prop) : Outcome α → Prop
  | ok value _ => holds value
  | _ => True

theorem Gives.of_eq {outcome : Outcome α} {holds : α → Prop} (h : outcome.Gives holds)
    {value : α} {state : State} (heq : outcome = .ok value state) : holds value := by
  rw [heq] at h
  exact h

theorem Gives.imp {outcome : Outcome α} {holds weaker : α → Prop} (h : outcome.Gives holds)
    (himp : ∀ value, holds value → weaker value) : outcome.Gives weaker := by
  cases outcome with
  | ok value state => exact himp value h
  | _ => trivial

theorem Gives.of_forall {holds : α → Prop} (h : ∀ value, holds value) (outcome : Outcome α) :
    outcome.Gives holds := by
  cases outcome with
  | ok value state => exact h value
  | _ => trivial

theorem Gives.andThen {outcome : Outcome α} {next : α → State → Outcome β} {holds : α → Prop}
    {others : β → Prop} (h : outcome.Gives holds)
    (hnext : ∀ value state, holds value → (next value state).Gives others) :
    (outcome.andThen next).Gives others := by
  cases outcome with
  | ok value state => exact hnext value state h
  | _ => trivial

theorem gives_andThen {next : α → State → Outcome β} {holds : β → Prop} (outcome : Outcome α)
    (hnext : ∀ value state, (next value state).Gives holds) : (outcome.andThen next).Gives holds :=
  (Gives.of_forall (fun _ => trivial) outcome).andThen fun value state _ => hnext value state

theorem gives_map {holds : β → Prop} (outcome : Outcome α) {transform : α → β}
    (h : ∀ value, holds (transform value)) : (outcome.map transform).Gives holds :=
  gives_andThen outcome fun value _ => h value

theorem Gives.locatedAt {outcome : Outcome α} {holds : α → Prop} (h : outcome.Gives holds)
    (position : Position) : (outcome.locatedAt position).Gives holds := by
  cases outcome <;> exact h

theorem Gives.mapState {outcome : Outcome α} {holds : α → Prop} (h : outcome.Gives holds)
    (change : State → State) : (outcome.mapState change).Gives holds := by
  cases outcome <;> exact h

/-- A step that keeps to a regime and changes the state only as an activity may, provided that the
callables at hand are admitted. -/
def AdvancesFrom (regime : Regime) (activity : Activity) (start : State) (outcome : Outcome α) :
    Prop :=
  regime.Admits start.heap →
    outcome.Ends (Advances regime activity start) ∧ outcome.Fails regime.failure

namespace AdvancesFrom

theorem ok (value : α) : (Outcome.ok value start).AdvancesFrom regime activity start :=
  fun _ => ⟨.refl activity start, trivial⟩

theorem error {failure : RuntimeError} (h : regime.failure failure) :
    (Outcome.error failure start : Outcome α).AdvancesFrom regime activity start :=
  fun _ => ⟨.refl activity start, h⟩

theorem ordinary {failure : RuntimeError} (h : failure.IsOrdinary) :
    (Outcome.error failure start : Outcome α).AdvancesFrom regime activity start :=
  error (regime.failure_of_isOrdinary h)

theorem aborted : (Outcome.aborted : Outcome α).AdvancesFrom regime activity start :=
  fun _ => ⟨trivial, trivial⟩

theorem outOfFuel : (Outcome.outOfFuel : Outcome α).AdvancesFrom regime activity start :=
  fun _ => ⟨trivial, trivial⟩

theorem ofExcept {result : Except RuntimeError α} (h : FailsPlainly result) :
    (Outcome.ofExcept result start).AdvancesFrom regime activity start := by
  cases result with
  | ok value => exact ok value
  | error failure => exact ordinary (h failure rfl)

/-- A step from a state that has been reached already. -/
theorem after {middle : State} {outcome : Outcome α}
    (hmiddle : Advances regime activity start middle)
    (h : outcome.AdvancesFrom regime activity middle) :
    outcome.AdvancesFrom regime activity start := by
  intro hstart
  obtain ⟨hends, hfails⟩ := h (hmiddle.admits hstart)
  exact ⟨hends.imp fun _ hafter => hmiddle.trans hafter, hfails⟩

/-- What follows a step has to keep to the regime only for what the step gives. -/
theorem andThen_of_eq {outcome : Outcome α} {next : α → State → Outcome β}
    (h : outcome.AdvancesFrom regime activity start)
    (hnext : ∀ value state, outcome = .ok value state → Advances regime activity start state →
      (next value state).AdvancesFrom regime activity state) :
    (outcome.andThen next).AdvancesFrom regime activity start := by
  intro hstart
  cases outcome with
  | ok value state =>
      have hstate := (h hstart).1
      exact after hstate (hnext value state rfl hstate) hstart
  | error failure state => exact h hstart
  | aborted => exact aborted hstart
  | outOfFuel => exact outOfFuel hstart

theorem andThen {outcome : Outcome α} {next : α → State → Outcome β}
    (h : outcome.AdvancesFrom regime activity start)
    (hnext : ∀ value state, (next value state).AdvancesFrom regime activity state) :
    (outcome.andThen next).AdvancesFrom regime activity start :=
  h.andThen_of_eq fun value state _ _ => hnext value state

/-- What follows a computation that leaves the state alone starts where that did. -/
theorem ofExcept_andThen {result : Except RuntimeError α} {next : α → State → Outcome β}
    (h : FailsPlainly result)
    (hnext : ∀ value, (next value start).AdvancesFrom regime activity start) :
    ((Outcome.ofExcept result start).andThen next).AdvancesFrom regime activity start := by
  cases result with
  | ok value => exact hnext value
  | error failure => exact ordinary (h failure rfl)

theorem map {outcome : Outcome α} (h : outcome.AdvancesFrom regime activity start)
    (transform : α → β) : (outcome.map transform).AdvancesFrom regime activity start :=
  h.andThen fun value _ => ok (transform value)

theorem locatedAt {outcome : Outcome α} (h : outcome.AdvancesFrom regime activity start)
    (position : Position) : (outcome.locatedAt position).AdvancesFrom regime activity start := by
  intro hstart
  cases outcome with
  | error failure state =>
      obtain ⟨hends, hfails⟩ := h hstart
      exact ⟨hends, regime.failure_locatedAt hfails position⟩
  | _ => exact h hstart

theorem weaken {stronger : Activity} {outcome : Outcome α}
    (h : outcome.AdvancesFrom regime activity start) (hwithin : activity.IsWithin stronger) :
    outcome.AdvancesFrom regime stronger start := by
  intro hstart
  obtain ⟨hends, hfails⟩ := h hstart
  exact ⟨hends.imp fun _ hafter => hafter.weaken hwithin, hfails⟩

theorem of_hosting {outcome : Outcome α} (h : outcome.AdvancesFrom regime .hosting start) :
    outcome.AdvancesFrom regime activity start :=
  h.weaken trivial

theorem executing_of_evaluating {names : String → Prop} {outcome : Outcome α}
    (h : outcome.AdvancesFrom regime .evaluating start) :
    outcome.AdvancesFrom regime (.executing names) start :=
  h.weaken trivial

/-- A call in a frame of its own, after which the frames of the caller come back. -/
theorem inFrame {inner : Activity} {frame : Frame} {outcome : Outcome α}
    (h : outcome.AdvancesFrom regime inner (start.enterCall frame).1) :
    (outcome.mapState (State.leaveCall (start.enterCall frame).2)).AdvancesFrom regime activity
      start := by
  intro hstart
  obtain ⟨hends, hfails⟩ := h hstart
  cases outcome with
  | ok value state => exact ⟨.frame activity hends, trivial⟩
  | error failure state => exact ⟨.frame activity hends, hfails⟩
  | aborted => exact aborted hstart
  | outOfFuel => exact outOfFuel hstart

theorem inLevel {outcome : Outcome α}
    (h : outcome.AdvancesFrom regime .hosting (Interpreter.enterLevel start)) :
    (outcome.mapState Interpreter.leaveLevel).AdvancesFrom regime activity start := by
  intro hstart
  obtain ⟨hends, hfails⟩ := h hstart
  cases outcome with
  | ok value state => exact ⟨.level activity hends, trivial⟩
  | error failure state => exact ⟨.level activity hends, hfails⟩
  | aborted => exact aborted hstart
  | outOfFuel => exact outOfFuel hstart

end AdvancesFrom

end Outcome

end ScriptEngine
