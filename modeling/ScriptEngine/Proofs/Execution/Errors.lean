import ScriptEngine.Proofs.Execution.Agreeing
import ScriptEngine.Proofs.Execution.Joining
import ScriptEngine.Proofs.Execution.Raising

/-!
# Errors

An error is raised at one point of a run, gets the place of the innermost node that knows one, and
is handed on from there as it is. That a run comes to a point is said by stopping there: it makes a
difference. That the error is handed on is then a comparison of the run with the one that is
stopped, which part for good where the error is raised, and that it has been raised somewhere is a
comparison of both with a run that is cut short at each failure.
-/

namespace ScriptEngine

open Outcome Interpreter

/-- The step fails with this error. -/
def Outcome.FailsWith {α : Type} (outcome : Outcome α) (failure : RuntimeError) : Prop :=
  ∃ after, outcome = .error failure after

theorem Outcome.failsWith_map_iff {α β : Type} {outcome : Outcome α} {transform : α → β}
    {failure : RuntimeError} :
    (outcome.map transform).FailsWith failure ↔ outcome.FailsWith failure := by
  cases outcome with
  | error other state => exact exists_congr fun after => by simp [Outcome.map, Outcome.andThen]
  | _ => simp [FailsWith, Outcome.map, Outcome.andThen]

namespace Interpreter

/-- Does what there is to do and forgets what it gives. -/
def perform (interpreter : Interpreter) (task : Task) (state : State) : Outcome Unit :=
  match task with
  | .evaluate expression => (interpreter.evaluate expression state).map fun _ => ()
  | .execute statement => (interpreter.execute statement state).map fun _ => ()
  | .call callee arguments => (interpreter.call callee arguments state).map fun _ => ()

/-- Does what there is to do by the rule for it, with an interpreter for the parts. -/
def carryOut (interpreter : Interpreter) (task : Task) (state : State) : Outcome Unit :=
  match task with
  | .evaluate expression =>
    ((interpreter.evaluateExpr expression state).locatedAt expression.position).map fun _ => ()
  | .execute statement =>
    ((interpreter.executeStmt statement state).locatedAt statement.position).map fun _ => ()
  | .call callee arguments => (interpreter.callValue callee arguments state).map fun _ => ()

theorem perform_ofFuel_succ (fuel : Nat) (task : Task) (state : State) :
    (ofFuel (fuel + 1)).perform task state = (ofFuel fuel).carryOut task state := by
  cases task <;> rfl

/-- What is done with an interpreter comes to a point with a property: stopping at these points, and
wherever else, makes a difference. -/
def ComesTo {α : Type} (fuel active : Nat) (work : Interpreter → Outcome α)
    (reached : Point → Prop) : Prop :=
  ∀ holds : Point → Bool, (∀ point, reached point → ¬ holds point) →
    ∃ failure, work (stoppingUnless holds failure fuel active) ≠ work (ofFuel fuel)

theorem MatchesUnless.perform {parting : Parting} {first second : Interpreter}
    (h : first.MatchesUnless parting second) (task : Task) (state : State) :
    (first.perform task state).MatchesUnless parting (second.perform task state) := by
  cases task with
  | evaluate expression => exact (h.evaluate expression state).map _
  | execute statement => exact (h.execute statement state).map _
  | call callee arguments => exact (h.call callee arguments state).map _

theorem MatchesUnless.carryOut {parting : Parting} {first second : Interpreter}
    (h : first.MatchesUnless parting second) (task : Task) (state : State) :
    (first.carryOut task state).MatchesUnless parting (second.carryOut task state) := by
  cases task with
  | evaluate expression => exact ((h.evaluateExpr expression state).locatedAt _).map _
  | execute statement => exact ((h.executeStmt statement state).locatedAt _).map _
  | call callee arguments => exact (h.callValue callee arguments state).map _

theorem MatchesUnless.run {parting : Parting} {first second : Interpreter}
    (h : first.MatchesUnless parting second) (program : Program) (state : State) :
    (first.run program state).MatchesUnless parting (second.run program state) := by
  rw [run_eq, run_eq]
  exact (h.runStatements program state).andThen fun _ _ => .refl _

end Interpreter

namespace Point

/-- What is done at the point ends, with enough fuel, with the error, and this has a place. -/
def FailsWith (point : Point) (failure : RuntimeError) : Prop :=
  failure.position ≠ none ∧
    ∃ fuel, ((ofFuel fuel).perform point.task point.state).FailsWith failure

/-- The rule for what is done at the point raises the error, with a place, and none of the parts of
the node fails before that. -/
def Raises (point : Point) (failure : RuntimeError) : Prop :=
  failure.position ≠ none ∧
    ∃ fuel, ((unfailing fuel).carryOut point.task point.state).FailsWith failure

theorem Raises.failsWith {point : Point} {failure : RuntimeError} (h : point.Raises failure) :
    point.FailsWith failure := by
  obtain ⟨hplace, fuel, after, hrule⟩ := h
  refine ⟨hplace, fuel + 1, after, ?_⟩
  rw [perform_ofFuel_succ]
  have hmatches := (matches_unfailing fuel).carryOut point.task point.state
  rw [hrule] at hmatches
  exact hmatches.eq_of_finished nofun

/-- What is raised at a node has its place, or that of a part that the node checks. -/
theorem Raises.placed {point : Point} {failure : RuntimeError} (h : point.Raises failure) :
    ∃ code ∈ point.task.code?, failure.IsPlacedIn (code.position :: code.checkedPlaces) := by
  obtain ⟨hplace, fuel, after, hrule⟩ := h
  have hunfailing := isUnfailing_unfailing fuel
  have hplaced {α : Type} {outcome : Outcome α} {code : Code}
      (hfails : outcome.FailsWithin code.checkedPlaces)
      (heq : (outcome.locatedAt code.position).FailsWith failure) :
      failure.IsPlacedIn (code.position :: code.checkedPlaces) := by
    obtain ⟨after, heq⟩ := heq
    have hlocated : (outcome.locatedAt code.position).FailsWithin
        (code.position :: code.checkedPlaces) :=
      (hfails.mono (List.subset_cons_self _ _)).locatedAt List.mem_cons_self
    rw [heq] at hlocated
    exact hlocated
  obtain ⟨task, active, state⟩ := point
  cases task with
  | evaluate expression =>
      exact ⟨_, rfl, hplaced (hunfailing.evaluateExpr expression state)
        (failsWith_map_iff.mp ⟨after, hrule⟩)⟩
  | execute statement =>
      exact ⟨_, rfl, hplaced (hunfailing.executeStmt statement state)
        (failsWith_map_iff.mp ⟨after, hrule⟩)⟩
  | call callee arguments =>
      -- The error of a call has no place as yet.
      have hcall := (hunfailing.callValue callee arguments state).map fun _ => ()
      change ((unfailing fuel).callValue callee arguments state).map _ = _ at hrule
      rw [hrule] at hcall
      exact absurd (RuntimeError.IsPlacedIn.position_eq_none hcall) hplace

end Point

/-! ### Places -/

theorem Outcome.fails_locatedAt {α : Type} (outcome : Outcome α) (position : Position) :
    (outcome.locatedAt position).Fails (·.position ≠ none) := by
  cases outcome with
  | error failure state => exact failure.position_locatedAt_ne_none position
  | _ => trivial

theorem Callable.relocate_eq_self {move : Position → Position} {callable : Callable}
    (h : Code.AreFixed move callable.parts) : callable.relocate move = callable := by
  cases callable with
  | sub name parameters body => exact congrArg _ (Stmt.relocateAll_eq_self body h)
  | block body =>
      exact congrArg _ (body.relocate_eq_self (Code.AreFixed.cons_iff.mp h).1)
  | native => rfl

theorem Heap.relocate_eq_self {move : Position → Position} {heap : Heap}
    (h : ∀ position, heap.HasPlace position → move position = position) :
    heap.relocate move = heap := by
  have hmap : heap.functions.map (Callable.relocate move) = heap.functions := by
    refine (Array.map_congr_left fun callable hcallable => ?_).trans (Array.map_id _)
    refine Callable.relocate_eq_self fun part hpart position hplace => ?_
    exact h position ⟨callable, hcallable, part, hpart, hplace⟩
  exact congrArg heap.withFunctions hmap

/-- The error has a place that the code or a stored function has. -/
def RuntimeError.ComesFrom (error : RuntimeError) (code : Code) (heap : Heap) : Prop :=
  ∃ position, error.position = some position ∧
    (code.HasPlace position ∨ heap.HasPlace position)

/-- A step fails with no place from elsewhere: such a place could be moved, which would move it in
the error and nowhere else. -/
theorem Outcome.comesFrom_of_carries {α : Type} {outcome : Outcome α} {code : Code} {state : State}
    (hplaced : outcome.Fails (·.position ≠ none))
    (h : ∀ move, code.IsFixed move → state.relocate move = state →
      ((Revision.moved move state.world.sink).transfer 0).Carries outcome outcome) :
    outcome.Fails (·.ComesFrom code state.heap) := by
  cases outcome with
  | error failure after =>
      obtain ⟨position, hposition⟩ := Option.ne_none_iff_exists'.mp hplaced
      refine ⟨position, hposition, ?_⟩
      by_contra hnowhere
      obtain ⟨hcode, hheap⟩ := not_or.mp hnowhere
      let move (place : Position) : Position := if place = position then place.down 1 else place
      have hfixed {place : Position} (hne : place ≠ position) : move place = place := if_neg hne
      have hstate : state.relocate move = state := by
        have hmoved := Heap.relocate_eq_self fun place hplace =>
          hfixed fun heq => hheap (heq ▸ hplace)
        exact congrArg (fun heap => { state with heap := heap }) hmoved
      have hcarries := h move (fun place hplace => hfixed fun heq => hcode (heq ▸ hplace)) hstate
      have hsame : failure = failure.relocate move :=
        (Outcome.error.inj (hcarries.agrees.resolve_right And.left)).1
      have hmoved : position = position.down 1 := by
        have hplaces := congrArg RuntimeError.position hsame
        rw [RuntimeError.relocate, hposition] at hplaces
        exact (Option.some.inj hplaces).trans (if_pos rfl)
      have hline : position.line = position.line + 1 := congrArg Position.line hmoved
      omega
  | _ => trivial

namespace Interpreter

/-- Whatever a node fails with has a place, and it is one of the node or of a stored function. -/
theorem comesFrom_perform (fuel : Nat) (state : State) {task : Task} {code : Code}
    (hcode : code ∈ task.code?) :
    ((ofFuel fuel).perform task state).Fails (·.ComesFrom code state.heap) := by
  cases fuel with
  | zero => cases task <;> trivial
  | succ fuel =>
      have hrelates (move : Position → Position) :=
        relates_moved move state.world.sink (fuel + 1)
      have hadmits (move : Position → Position) :
          (Revision.moved move state.world.sink).admits 0 state := rfl
      cases task with
      | evaluate expression =>
          cases Option.mem_some_iff.mp hcode
          refine comesFrom_of_carries ((fails_locatedAt _ _).map _) fun move hfixed hstate => ?_
          have hcarries := (hrelates move).evaluate expression (hadmits move)
          change Transfer.Carries _ _ ((ofFuel (fuel + 1)).evaluate (expression.relocate move)
            (state.relocate move)) at hcarries
          rw [expression.relocate_eq_self hfixed, hstate] at hcarries
          exact hcarries.map _
      | execute statement =>
          cases Option.mem_some_iff.mp hcode
          refine comesFrom_of_carries ((fails_locatedAt _ _).map _) fun move hfixed hstate => ?_
          have hcarries := (hrelates move).execute statement (hadmits move)
          change Transfer.Carries _ _ ((ofFuel (fuel + 1)).execute (statement.relocate move)
            (state.relocate move)) at hcarries
          rw [statement.relocate_eq_self hfixed, hstate] at hcarries
          exact hcarries.map _
      | call callee arguments => exact absurd hcode (Option.not_mem_none code)

end Interpreter

/-! ### Stops -/

namespace Outcome

/-- The step is lost: it fails with an error that has a place and a property, or is cut short. -/
def IsLost {α : Type} (holds : RuntimeError → Prop) : Outcome α → Prop
  | ok _ _ => False
  | error failure _ => failure.position ≠ none ∧ holds failure
  | aborted => False
  | outOfFuel => True

variable {α : Type} {outcome : Outcome α} {failure : RuntimeError}

theorem FailsWith.isLost {holds : RuntimeError → Prop} (h : outcome.FailsWith failure)
    (hplace : failure.position ≠ none) (hfailure : holds failure) : outcome.IsLost holds := by
  obtain ⟨after, rfl⟩ := h
  exact ⟨hplace, hfailure⟩

theorem IsLost.failsWith (h : outcome.IsLost (· = failure)) :
    outcome.FailsWith failure ∨ outcome = .outOfFuel := by
  cases outcome with
  | error other after =>
      cases h.2
      exact .inl ⟨after, rfl⟩
  | outOfFuel => exact .inr rfl
  | _ => exact h.elim

theorem IsLost.ne_error {after : State} (h : outcome.IsLost (· ≠ failure)) :
    outcome ≠ .error failure after := by
  rintro rfl
  exact h.2 rfl

theorem isLost_map_iff {β : Type} {transform : α → β} {holds : RuntimeError → Prop} :
    (outcome.map transform).IsLost holds ↔ outcome.IsLost holds := by
  cases outcome <;> exact Iff.rfl

variable {holds : RuntimeError → Prop}

theorem IsLost.andThen {β : Type} (h : outcome.IsLost holds) (next : α → State → Outcome β) :
    (outcome.andThen next).IsLost holds := by
  cases outcome with
  | ok value state => exact h.elim
  | aborted => exact h.elim
  | _ => exact h

theorem IsLost.mapState (h : outcome.IsLost holds) (change : State → State) :
    (outcome.mapState change).IsLost holds := by
  cases outcome <;> exact h

/-- An error with a place is not changed by anything that is done after it. -/
theorem IsLost.locatedAt (h : outcome.IsLost holds) (position : Position) :
    (outcome.locatedAt position).IsLost holds := by
  cases outcome with
  | error failure state =>
      rw [Outcome.locatedAt, failure.locatedAt_of_position h.1]
      exact h
  | _ => exact h

end Outcome

/-- The second step may be lost, whatever the first one does. -/
def Parting.lost (holds : RuntimeError → Prop) : Parting where
  admits _ second := second.IsLost holds
  andThen h _ other := h.andThen other
  mapState h change := h.mapState change
  locatedAt h position := h.locatedAt position

namespace Interpreter

variable {holds : Point → Bool} {other : RuntimeError}

/-- What fails with enough fuel fails so with any fuel, unless it is cut short. -/
theorem isLost_perform {point : Point} {failure : RuntimeError} (h : point.FailsWith failure)
    (fuel : Nat) : ((ofFuel fuel).perform point.task point.state).IsLost (· = failure) := by
  obtain ⟨hplace, more, hfails⟩ := h
  have hlost : ((ofFuel more).perform point.task point.state).IsLost (· = failure) :=
    hfails.isLost hplace rfl
  rcases Nat.le_total fuel more with hle | hle
  · rcases (matches_ofFuel hle).perform point.task point.state with heq | hcut
    · rwa [heq]
    · rw [hcut]
      trivial
  · have hfinished : (ofFuel more).perform point.task point.state ≠ .outOfFuel := by
      obtain ⟨after, heq⟩ := hfails
      exact heq ▸ nofun
    rwa [((matches_ofFuel hle).perform point.task point.state).eq_of_finished hfinished]

/-- What is stopped only where an error is about to be returned is not told from what fails with
this error, unless it is not stopped at all. -/
theorem matches_ofFuel_of_stops {failure : RuntimeError}
    (hstops : ∀ point, ¬ holds point → point.FailsWith failure) (fuel active : Nat) :
    (stoppingUnless holds other fuel active).MatchesUnless (.lost (· = failure)) (ofFuel fuel) := by
  have hstopped {α : Type} (fuel : Nat) {point : Point} {stopped outcome : Outcome α}
      (hrule : stopped.MatchesUnless (.lost (· = failure)) outcome)
      (hperform : (ofFuel fuel).perform point.task point.state = outcome.map fun _ => ()) :
      (point.stopUnless holds other stopped).MatchesUnless (.lost (· = failure)) outcome := by
    unfold Point.stopUnless
    split
    · exact hrule
    · next hpoint =>
        have hlost := isLost_perform (hstops point hpoint) fuel
        rw [hperform] at hlost
        exact .inr (isLost_map_iff.mp hlost)
  induction fuel generalizing active with
  | zero => exact ⟨fun _ _ => .refl _, fun _ _ => .refl _, fun _ _ _ => .refl _, .inl rfl⟩
  | succ fuel ih =>
      exact
        { evaluate := fun expression state => hstopped (fuel + 1)
            (((ih active).evaluateExpr expression state).locatedAt _) rfl
          execute := fun statement state => hstopped (fuel + 1)
            (((ih active).executeStmt statement state).locatedAt _) rfl
          call := fun callee arguments state => hstopped (fuel + 1)
            ((ih (active + 1)).callValue callee arguments state) rfl
          rounds := .inl rfl }

/-- Where an error has come up, nothing but that error comes of it. -/
theorem failsWith_of_comesTo {α : Type} {work : Interpreter → Outcome α}
    (hwork : ∀ {parting first second}, first.MatchesUnless parting second →
      (work first).MatchesUnless parting (work second))
    {fuel active : Nat} {failure : RuntimeError}
    (h : ComesTo fuel active work (·.FailsWith failure)) :
    (work (ofFuel fuel)).FailsWith failure ∨ work (ofFuel fuel) = .outOfFuel := by
  classical
  obtain ⟨other, hne⟩ := h (fun point => decide ¬ point.FailsWith failure) fun point hpoint =>
    by simpa using hpoint
  have hstops (point : Point) (hpoint : ¬ decide (¬ point.FailsWith failure) = true) :
      point.FailsWith failure := by
    simpa using hpoint
  exact ((hwork (matches_ofFuel_of_stops hstops fuel active)).resolve_left hne).failsWith

/-! ### Where errors are raised -/

section

variable {failure : RuntimeError} (hother : other.position ≠ none) (hne : other ≠ failure)
include hother hne

/-- Stopping with another error keeps a run from failing with this one, unless it is not stopped. -/
theorem ofFuel_matches_stopping (fuel active : Nat) :
    (ofFuel fuel).MatchesUnless (.lost (· ≠ failure)) (stoppingUnless holds other fuel active) := by
  have hstopped {α : Type} {point : Point} {outcome stopped : Outcome α}
      (hrule : outcome.MatchesUnless (.lost (· ≠ failure)) stopped) :
      outcome.MatchesUnless (.lost (· ≠ failure)) (point.stopUnless holds other stopped) := by
    unfold Point.stopUnless
    split
    · exact hrule
    · exact .inr ⟨hother, hne⟩
  induction fuel generalizing active with
  | zero => exact ⟨fun _ _ => .refl _, fun _ _ => .refl _, fun _ _ _ => .refl _, .inl rfl⟩
  | succ fuel ih =>
      exact
        { evaluate := fun expression state =>
            hstopped (((ih active).evaluateExpr expression state).locatedAt _)
          execute := fun statement state =>
            hstopped (((ih active).executeStmt statement state).locatedAt _)
          call := fun callee arguments state =>
            hstopped ((ih (active + 1)).callValue callee arguments state)
          rounds := .inl rfl }

/-- A run that is stopped wherever an error is about to be raised does not fail with it inside of a
node: it does there what is done by a run that is cut short at each failure. -/
theorem unfailing_matches_stopping (hstops : ∀ point, point.Raises failure → ¬ holds point)
    (fuel active : Nat) :
    (unfailing fuel).MatchesUnless (.lost (· ≠ failure))
      (stoppingUnless holds other fuel active) := by
  have hstopped {α : Type} {point : Point} {outcome stopped : Outcome α}
      (hrule : holds point → outcome.MatchesUnless (.lost (· ≠ failure)) stopped) :
      outcome.MatchesUnless (.lost (· ≠ failure)) (point.stopUnless holds other stopped) := by
    unfold Point.stopUnless
    split
    · next hpoint => exact hrule hpoint
    · exact .inr ⟨hother, hne⟩
  have hwithout {α : Type} (fuel : Nat) {point : Point} {outcome stopped : Outcome α}
      {position : Position} (hrule : outcome.MatchesUnless (.lost (· ≠ failure)) stopped)
      (hcarry : (unfailing fuel).carryOut point.task point.state =
        (outcome.locatedAt position).map fun _ => ())
      (hpoint : holds point) :
      outcome.withoutFailure.MatchesUnless (.lost (· ≠ failure)) (stopped.locatedAt position) := by
    rcases hrule with rfl | hlost
    · cases outcome with
      | error raised state =>
          have hplace := raised.position_locatedAt_ne_none position
          refine .inr ⟨hplace, ?_⟩
          rintro rfl
          exact hstops point ⟨hplace, fuel, state, hcarry⟩ hpoint
      | _ => exact .inl rfl
    · exact .inr (IsLost.locatedAt hlost position)
  induction fuel generalizing active with
  | zero => exact ⟨fun _ _ => .refl _, fun _ _ => .refl _, fun _ _ _ => .refl _, .inl rfl⟩
  | succ fuel ih =>
      exact
        { evaluate := fun expression state =>
            hstopped (hwithout fuel ((ih active).evaluateExpr expression state) rfl)
          execute := fun statement state =>
            hstopped (hwithout fuel ((ih active).executeStmt statement state) rfl)
          call := fun callee arguments state =>
            hstopped fun _ => (ih (active + 1)).callValue callee arguments state
          rounds := .inl rfl }

/-- Stopped wherever an error is about to be raised, no statement fails with it. -/
theorem fails_ne_of_stops (hstops : ∀ point, point.Raises failure → ¬ holds point)
    (fuel active : Nat) (statement : Stmt) (state : State) :
    ((stoppingUnless holds other fuel active).execute statement state).Fails (· ≠ failure) := by
  have hmatches :=
    (unfailing_matches_stopping hother hne hstops fuel active).execute statement state
  have hunfailing := (isUnfailing_unfailing fuel).execute statement state
  rcases hmatches with heq | hlost
  · rw [heq] at hunfailing
    exact hunfailing.imp fun _ => False.elim
  · cases hrun : (stoppingUnless holds other fuel active).execute statement state with
    | error raised after =>
        rw [hrun] at hlost
        exact hlost.2
    | _ => trivial

end

end Interpreter

/-! ### Programs -/

/-- The error for a statement of the program itself that does not hand over to the next one. -/
def Flow.misplacement? : Flow → Option RuntimeError
  | normal => none
  | returns _ => some .returnOutsideFunction
  | breaks => some .loopControlOutsideLoop
  | next => some .loopControlOutsideLoop

namespace Interpreter

/-- A statement of the program itself, reached after those before it, ends with a flow that has no
place there, and this is the error. -/
def Misplaces (interpreter : Interpreter) (program : Program) (state : State)
    (failure : RuntimeError) : Prop :=
  ∃ earlier statement later before flow error after,
    program = earlier ++ statement :: later ∧
    interpreter.runStatements earlier state = .ok () before ∧
    interpreter.execute statement before = .ok flow after ∧
    flow.misplacement? = some error ∧ failure = error.locatedAt statement.position

theorem runStatements_cons (interpreter : Interpreter) (statement : Stmt) (rest : Program)
    (state : State) :
    interpreter.runStatements (statement :: rest) state =
      (interpreter.execute statement state).andThen fun flow after =>
        match flow.misplacement? with
        | none => interpreter.runStatements rest after
        | some misplaced => .error (misplaced.locatedAt statement.position) after := by
  refine andThen_congr fun flow after _ => ?_
  cases flow <;> rfl

/-- If statements fail, but not because one of them does, then one of them is misplaced. -/
theorem misplaces_of_runStatements {interpreter : Interpreter} {program : Program}
    {state last : State} {failure : RuntimeError}
    (hexecute : ∀ statement state, (interpreter.execute statement state).Fails (· ≠ failure))
    (h : interpreter.runStatements program state = .error failure last) :
    interpreter.Misplaces program state failure := by
  induction program generalizing state with
  | nil => cases h
  | cons statement rest ih =>
      rw [runStatements_cons] at h
      cases hrun : interpreter.execute statement state with
      | ok flow after =>
          rw [hrun] at h
          cases hflow : flow.misplacement? with
          | none =>
              simp only [Outcome.andThen, hflow] at h
              obtain ⟨earlier, other, later, before, ending, error, middle, hrest, hearlier,
                hother⟩ := ih h
              refine ⟨statement :: earlier, other, later, before, ending, error, middle,
                congrArg _ hrest, ?_, hother⟩
              rw [runStatements_cons, hrun, Outcome.andThen, hflow]
              exact hearlier
          | some misplaced =>
              simp only [Outcome.andThen, hflow] at h
              exact ⟨[], statement, rest, state, flow, misplaced, after, rfl, rfl, hrun, hflow,
                (Outcome.error.inj h).1.symm⟩
      | error raised after =>
          have hraised := hexecute statement state
          rw [hrun] at h hraised
          exact absurd (Outcome.error.inj h).1 hraised
      | aborted =>
          rw [hrun] at h
          cases h
      | outOfFuel =>
          rw [hrun] at h
          cases h

theorem Misplaces.of_matches {first second : Interpreter} {holds : RuntimeError → Prop}
    (hmatches : first.MatchesUnless (.lost holds) second) {program : Program} {state : State}
    {failure : RuntimeError} (h : second.Misplaces program state failure) :
    first.Misplaces program state failure := by
  have hok {α : Type} {outcome other : Outcome α} {value : α} {after : State}
      (hother : outcome.MatchesUnless (.lost holds) other) (heq : other = .ok value after) :
      outcome = .ok value after := by
    rw [heq] at hother
    exact hother.resolve_right id
  obtain ⟨earlier, statement, later, before, flow, error, after, hprogram, hearlier, hrun, hflow⟩ :=
    h
  have hearlier := hok (hmatches.runStatements earlier state) hearlier
  have hrun := hok (hmatches.execute statement before) hrun
  exact ⟨earlier, statement, later, before, flow, error, after, hprogram, hearlier, hrun, hflow⟩

/-- What a run fails with has been raised: by a failing flush, by a misplaced statement, or at a
point that the run comes to. -/
theorem raised_of_run {fuel : Nat} {program : Program} {state after : State}
    {failure : RuntimeError} (h : (ofFuel fuel).run program state = .error failure after) :
    (∃ last, (ofFuel fuel).runStatements program state = .ok () last ∧
      last.flush = .error failure after) ∨
    (ofFuel fuel).Misplaces program state failure ∨
    ComesTo fuel 0 (·.run program state) (·.Raises failure) := by
  cases hstatements : (ofFuel fuel).runStatements program state with
  | ok value last =>
      rw [run_eq, hstatements] at h
      exact .inl ⟨last, rfl, h⟩
  | error raised last =>
      refine .inr (or_iff_not_imp_right.mpr fun hnowhere => ?_)
      unfold ComesTo at hnowhere
      push Not at hnowhere
      obtain ⟨holds, hstops, hsame⟩ := hnowhere
      let other : RuntimeError := ⟨failure.kind, failure.message ++ ".", some .first⟩
      have hother : other.position ≠ none := nofun
      have hne : other ≠ failure := by
        intro heq
        have hmessage : failure.message ++ "." = failure.message :=
          congrArg RuntimeError.message heq
        simpa using congrArg String.length hmessage
      have hmatches : (ofFuel fuel).MatchesUnless (.lost (· ≠ failure))
          (stoppingUnless holds other fuel 0) := ofFuel_matches_stopping hother hne fuel 0
      have hraised : raised = failure ∧ last = after := by
        rw [run_eq, hstatements] at h
        exact Outcome.error.inj h
      have hstopped : (stoppingUnless holds other fuel 0).runStatements program state =
          .error failure last := by
        rcases hmatches.runStatements program state with heq | hlost
        · rw [← heq, hstatements, hraised.1]
        · have hrun : ((stoppingUnless holds other fuel 0).run program state).IsLost
              (· ≠ failure) := by
            rw [run_eq]
            exact IsLost.andThen hlost _
          exact absurd ((hsame other).trans h) hrun.ne_error
      have hfails := fails_ne_of_stops hother hne hstops fuel 0
      exact .of_matches hmatches (misplaces_of_runStatements hfails hstopped)
  | aborted =>
      rw [run_eq, hstatements] at h
      exact nomatch h
  | outOfFuel =>
      rw [run_eq, hstatements] at h
      exact nomatch h

end Interpreter

/-- **Errors have places and travel unchanged.** Whatever a node fails with has the place of a node
in it or in a stored function. If what is done comes to a point that ends with an error, then it
fails with this error, whatever calls, blocks, loops and callbacks lie between. So a run fails with
what is raised first: with a failing flush after its last statement, with a misplaced `return`,
`break` or `next` among its statements, or with an error that is raised at a point it comes to,
which gets the place of the node there or of a part that this node checks. -/
theorem errors_travel_unchanged (fuel : Nat) :
    (∀ task, ∀ code ∈ task.code?, ∀ state,
      ((ofFuel fuel).perform task state).Fails (·.ComesFrom code state.heap)) ∧
    (∀ active failure task state,
      ComesTo fuel active (·.perform task state) (·.FailsWith failure) →
        ((ofFuel fuel).perform task state).FailsWith failure ∨
          (ofFuel fuel).perform task state = .outOfFuel) ∧
    (∀ failure program state,
      ComesTo fuel 0 (·.run program state) (·.FailsWith failure) →
        ((ofFuel fuel).run program state).FailsWith failure ∨
          (ofFuel fuel).run program state = .outOfFuel) ∧
    (∀ failure program state after, (ofFuel fuel).run program state = .error failure after →
      (∃ last, (ofFuel fuel).runStatements program state = .ok () last ∧
        last.flush = .error failure after) ∨
      (ofFuel fuel).Misplaces program state failure ∨
      ComesTo fuel 0 (·.run program state) (·.Raises failure)) ∧
    ∀ point failure, Point.Raises point failure →
      point.FailsWith failure ∧
        ∃ code ∈ point.task.code?, failure.IsPlacedIn (code.position :: code.checkedPlaces) := by
  refine ⟨fun task code hcode state => comesFrom_perform fuel state hcode,
    fun active failure task state h => ?_, fun failure program state h => ?_,
    fun failure program state after h => raised_of_run h,
    fun point failure h => ⟨h.failsWith, h.placed⟩⟩
  · exact failsWith_of_comesTo (fun hmatches => hmatches.perform task state) h
  · exact failsWith_of_comesTo (fun hmatches => hmatches.run program state) h

/-- A state in which `map` is bound. -/
def mappingState : State :=
  { State.blank with
    scopes := ⟨[("map", .function ⟨0⟩)], []⟩
    heap := ⟨#[], #[], #[.native ⟨"map", .exactly 2, .callback .map⟩]⟩ }

/-- A call of `map` with a sub that fails in a loop, at a name that is not bound. -/
def mappingProgram : Program :=
  [.call ⟨1, 1⟩ (.name ⟨1, 1⟩ "map") [.array ⟨1, 5⟩ [.nil ⟨1, 6⟩],
    .function ⟨1, 12⟩ ["item"] [.loop ⟨2, 1⟩ .whenTrue (.boolean ⟨2, 7⟩ true)
      [.call ⟨3, 1⟩ (.name ⟨3, 1⟩ "unbound") []]]]]

theorem errors_travel_unchanged_mapping :
    let failure : RuntimeError := ⟨.undefinedVariable, "'unbound' is not defined", some ⟨3, 1⟩⟩
    ((ofFuel 12).run mappingProgram mappingState).FailsWith failure ∧
      ComesTo 12 0 (·.run mappingProgram mappingState) (·.Raises failure) := by
  intro failure
  obtain ⟨-, -, hreturned, hraised, hpoints⟩ := errors_travel_unchanged 12
  have hrun : ∃ after, (ofFuel 12).run mappingProgram mappingState = .error failure after :=
    ⟨_, rfl⟩
  obtain ⟨after, hrun⟩ := hrun
  have hcomes : ComesTo 12 0 (·.run mappingProgram mappingState) (·.Raises failure) := by
    rcases hraised failure mappingProgram mappingState after hrun with
      ⟨last, -, hflush⟩ | ⟨_, _, _, _, flow, _, _, _, _, _, hflow, herror⟩ | hcomes
    · unfold State.flush at hflush
      split at hflush
      · exact nomatch congrArg RuntimeError.kind (Outcome.error.inj hflush).1
      · exact nomatch hflush
    · have hkind := congrArg RuntimeError.kind herror
      cases flow <;> cases hflow <;> exact nomatch hkind
    · exact hcomes
  have hfails : ComesTo 12 0 (·.run mappingProgram mappingState) (·.FailsWith failure) := by
    refine fun holds hstops => hcomes holds fun point hpoint => hstops point ?_
    exact (hpoints point failure hpoint).1
  have hends := hreturned failure mappingProgram mappingState hfails
  exact ⟨hends.resolve_right (hrun ▸ nofun), hcomes⟩

end ScriptEngine
