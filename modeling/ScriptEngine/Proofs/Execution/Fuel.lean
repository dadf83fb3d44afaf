import ScriptEngine.Proofs.Execution.Parting

/-!
# Fuel

Fuel decides how far a run gets and nothing else: a run that was not cut short goes the same way
with more fuel. So how a statement ends, given enough fuel, does not depend on the fuel.
-/

namespace ScriptEngine

open Outcome Interpreter

/-- The first step may be cut short, whatever the second one does. -/
def Parting.cutShort : Parting where
  admits first _ := first = .outOfFuel
  andThen h _ _ := by rw [h]; rfl
  mapState h _ := by rw [h]; rfl
  locatedAt h _ := by rw [h]; rfl

theorem Outcome.MatchesUnless.eq_of_finished {α : Type} {first second : Outcome α}
    (h : first.MatchesUnless .cutShort second) (hfirst : first ≠ .outOfFuel) : second = first :=
  (h.resolve_right hfirst).symm

/-- More fuel makes no difference to what was not cut short. -/
theorem Interpreter.matches_ofFuel {fuel more : Nat} (h : fuel ≤ more) :
    (ofFuel fuel).MatchesUnless .cutShort (ofFuel more) := by
  induction fuel generalizing more with
  | zero =>
      exact
        { evaluate := fun _ _ => .inr rfl
          execute := fun _ _ => .inr rfl
          call := fun _ _ _ => .inr rfl
          rounds := .inr ⟨Nat.zero_le _, fun _ => rfl⟩ }
  | succ fuel ih =>
      obtain ⟨more, rfl⟩ := Nat.exists_eq_succ_of_ne_zero (Nat.ne_zero_of_lt h)
      have hparts := ih (Nat.le_of_succ_le_succ h)
      exact
        { evaluate := fun expression state => (hparts.evaluateExpr expression state).locatedAt _
          execute := fun statement state => (hparts.executeStmt statement state).locatedAt _
          call := hparts.callValue
          rounds := .inr ⟨Nat.le_of_succ_le_succ h, fun _ => rfl⟩ }

namespace Stmt

/-- With enough fuel, the statement ends so. -/
def Executes (statement : Stmt) (state : State) (outcome : Outcome Flow) : Prop :=
  outcome ≠ .outOfFuel ∧ ∃ fuel, (ofFuel fuel).execute statement state = outcome

/-- A statement ends in one way at most. -/
theorem Executes.unique {statement : Stmt} {state : State} {outcome other : Outcome Flow}
    (h : statement.Executes state outcome) (hother : statement.Executes state other) :
    outcome = other := by
  obtain ⟨hfinished, fuel, rfl⟩ := h
  obtain ⟨hotherFinished, more, rfl⟩ := hother
  rcases Nat.le_total fuel more with hle | hle
  · exact (((matches_ofFuel hle).execute statement state).eq_of_finished hfinished).symm
  · exact ((matches_ofFuel hle).execute statement state).eq_of_finished hotherFinished

/-- In every state, the statements end alike: with the same flow or the same error, and in the same
state, or neither of them ends. -/
def RunsLike (first second : Stmt) : Prop :=
  ∀ state outcome, first.Executes state outcome ↔ second.Executes state outcome

/-- Whatever the first statement does with some fuel, the second one does with enough fuel. -/
def IsFollowedBy (first second : Stmt) : Prop :=
  ∀ fuel state, ∃ more,
    ((ofFuel fuel).execute first state).MatchesUnless .cutShort ((ofFuel more).execute second state)

theorem IsFollowedBy.executes {first second : Stmt} (h : first.IsFollowedBy second) {state : State}
    {outcome : Outcome Flow} (hfirst : first.Executes state outcome) :
    second.Executes state outcome := by
  obtain ⟨hfinished, fuel, rfl⟩ := hfirst
  obtain ⟨more, hmatches⟩ := h fuel state
  exact ⟨hfinished, more, hmatches.eq_of_finished hfinished⟩

/-- It is enough to compare what the rules for both statements do. -/
theorem IsFollowedBy.of_rule {first second : Stmt} (hposition : first.position = second.position)
    (surplus : Nat)
    (h : ∀ fuel state, ((ofFuel fuel).executeStmt first state).MatchesUnless .cutShort
      ((ofFuel (fuel + surplus)).executeStmt second state)) : first.IsFollowedBy second := by
  intro fuel state
  cases fuel with
  | zero => exact ⟨0, .inr rfl⟩
  | succ fuel =>
      refine ⟨fuel + surplus + 1, ?_⟩
      change ((((ofFuel fuel).executeStmt first state).locatedAt first.position).MatchesUnless _
        (((ofFuel (fuel + surplus)).executeStmt second state).locatedAt second.position))
      rw [hposition]
      exact (h fuel state).locatedAt second.position

theorem RunsLike.of_isFollowedBy {first second : Stmt} (h : first.IsFollowedBy second)
    (hback : second.IsFollowedBy first) : first.RunsLike second :=
  fun _ _ => ⟨h.executes, hback.executes⟩

end Stmt

end ScriptEngine
