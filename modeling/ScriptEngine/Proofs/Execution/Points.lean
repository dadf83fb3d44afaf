import ScriptEngine.Execution.Run
import ScriptEngine.Proofs.Program.Code

/-!
# Points of a run

That something holds at every point of a run is said with an interpreter that stops where it does
not hold. This interpreter counts the active calls by itself, so that the depth that a state holds
can be compared with their number.
-/

namespace ScriptEngine

/-- What an interpreter is about to do. -/
inductive Task
  | evaluate (expression : Expr)
  | execute (statement : Stmt)
  | call (callee : Value) (arguments : List Value)

/-- A point of a run: what is about to be done, within how many calls, and in which state. -/
structure Point where
  task : Task
  active : Nat
  state : State

namespace Point

/-- A callable is about to be called. -/
def isInvocation (point : Point) : Bool :=
  match point.task with
  | .call (.function _) _ => true
  | _ => false

/-- A statement is about to be executed that binds a name in the innermost frame. -/
def Declares (point : Point) (name : String) : Prop :=
  ∃ statement, point.task = .execute statement ∧ statement.declaredName? = some name

/-- An assignment to a member is about to be executed. -/
def AssignsMember (point : Point) (property : String) : Prop :=
  ∃ statement, point.task = .execute statement ∧ statement.assignedMember? = some property

/-- What is done at a point, unless it is a point to stop at. -/
def stopUnless {α : Type} (point : Point) (holds : Point → Bool) (failure : RuntimeError)
    (outcome : Outcome α) : Outcome α :=
  if holds point then outcome else .error failure point.state

end Point

namespace Interpreter

/-- The interpreter `ofFuel fuel` within so many active calls, but for that it stops with a failure
at a point where a property does not hold. -/
def stoppingUnless (holds : Point → Bool) (failure : RuntimeError) : Nat → Nat → Interpreter
  | 0, _ => ofFuel 0
  | fuel + 1, active =>
    { evaluate := fun expression state =>
        Point.stopUnless ⟨.evaluate expression, active, state⟩ holds failure
          (((stoppingUnless holds failure fuel active).evaluateExpr expression state).locatedAt
            expression.position)
      execute := fun statement state =>
        Point.stopUnless ⟨.execute statement, active, state⟩ holds failure
          (((stoppingUnless holds failure fuel active).executeStmt statement state).locatedAt
            statement.position)
      call := fun callee arguments state =>
        Point.stopUnless ⟨.call callee arguments, active, state⟩ holds failure
          ((stoppingUnless holds failure fuel (active + 1)).callValue callee arguments state)
      rounds := fuel }

/-- An interpreter that has nowhere to stop is the one that is stopped. -/
theorem stoppingUnless_true (failure : RuntimeError) (fuel active : Nat) :
    stoppingUnless (fun _ => true) failure fuel active = ofFuel fuel := by
  induction fuel generalizing active with
  | zero => rfl
  | succ fuel ih =>
      unfold stoppingUnless
      simp only [ih]
      rfl

/-- A property holds at every point of a run: with whatever failure one stops where it does not
hold, the run ends as it does. -/
def Throughout (fuel : Nat) (program : Program) (state : State) (holds : Point → Bool) : Prop :=
  ∀ failure, (stoppingUnless holds failure fuel 0).run program state =
    (ofFuel fuel).run program state

end Interpreter

end ScriptEngine
