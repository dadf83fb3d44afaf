import ScriptEngine.Proofs.Execution.Raising

/-!
# Negated conditions

A statement that tests a condition the other way does what it does with the condition negated. All
that a statement takes from its condition is whether to go on, so that two conditions that tell it
the same make no difference, in any interpreter and for any body. The negation costs one more level
of fuel, so that the loops are compared round by round with as much fuel as the later one needs.
-/

namespace ScriptEngine

open Outcome Interpreter

variable {parting : Parting}

/-- The place of a node changes nothing in an error that already has one. -/
theorem Outcome.locatedAt_map_locatedAt {α β : Type} (outcome : Outcome α) (transform : α → β)
    (position other : Position) :
    ((outcome.locatedAt position).map transform).locatedAt other =
      (outcome.locatedAt position).map transform := by
  cases outcome with
  | error failure state =>
      have hplace := failure.position_locatedAt_ne_none position
      exact congrArg (Outcome.error · state) (RuntimeError.locatedAt_of_position hplace other)
  | _ => rfl

namespace Interpreter

/-- What a statement learns from its condition. -/
def test (interpreter : Interpreter) (sense : Sense) (condition : Expr) (state : State) :
    Outcome Bool :=
  (interpreter.evaluate condition state).map sense.holds

/-- A statement learns the same from both conditions, or the interpreters part. -/
def TestsLike (parting : Parting) (first second : Interpreter) (sense other : Sense)
    (condition otherwise : Expr) : Prop :=
  ∀ state, (first.test sense condition state).MatchesUnless parting
    (second.test other otherwise state)

namespace TestsLike

variable {first second : Interpreter} {sense other : Sense} {condition otherwise : Expr}
  (htest : TestsLike parting first second sense other condition otherwise)
include htest

/-- What the condition decides about is done alike if both alternatives are. -/
theorem select {α : Type} {accepted refused : State → Outcome α}
    {others rest : State → Outcome α} (state : State)
    (haccepted : ∀ after, (accepted after).MatchesUnless parting (others after))
    (hrefused : ∀ after, (refused after).MatchesUnless parting (rest after)) :
    ((first.evaluate condition state).andThen fun value after =>
      if sense.holds value then accepted after else refused after).MatchesUnless parting
    ((second.evaluate otherwise state).andThen fun value after =>
      if other.holds value then others after else rest after) := by
  have hbranches (found : Bool) (after : State) :
      (if found then accepted after else refused after).MatchesUnless parting
        (if found then others after else rest after) := by
    split
    · exact haccepted after
    · exact hrefused after
  have hdecided := (htest state).andThen hbranches
  unfold test at hdecided
  revert hdecided
  cases first.evaluate condition state <;> cases second.evaluate otherwise state <;> exact id

variable (h : first.MatchesUnless parting second)
include h

theorem executeConditional (body : List Stmt) (alternatives : List Branch)
    (fallback : Option (List Stmt)) (state : State) :
    (first.executeConditional sense condition body alternatives fallback state).MatchesUnless
      parting (second.executeConditional other otherwise body alternatives fallback state) :=
  htest.select state (h.executeBody body) (h.executeFirst _ alternatives fallback)

theorem executeLoop (body : List Stmt) {fewer rounds : Nat}
    (hrounds : parting.AdmitsRounds fewer rounds) (state : State) :
    (first.executeLoop sense condition body fewer state).MatchesUnless parting
      (second.executeLoop other otherwise body rounds state) := by
  induction fewer generalizing rounds state with
  | zero =>
      rcases hrounds with rfl | ⟨-, hcuts⟩
      · exact .refl _
      · exact .inr (hcuts _)
  | succ fewer ih =>
      obtain ⟨left, rfl, hleft⟩ := hrounds.exists_pred
      refine htest.select state (fun after => ?_) fun after => .refl _
      refine (h.executeBody body after).andThen fun flow after => ?_
      split
      · exact .refl _
      · exact ih hleft after

theorem executePostLoop (body : List Stmt) {fewer rounds : Nat}
    (hrounds : parting.AdmitsRounds fewer rounds) (state : State) :
    (first.executePostLoop sense body condition fewer state).MatchesUnless parting
      (second.executePostLoop other body otherwise rounds state) := by
  induction fewer generalizing rounds state with
  | zero =>
      rcases hrounds with rfl | ⟨-, hcuts⟩
      · exact .refl _
      · exact .inr (hcuts _)
  | succ fewer ih =>
      obtain ⟨left, rfl, hleft⟩ := hrounds.exists_pred
      refine (h.executeBody body state).andThen fun flow after => ?_
      split
      · exact .refl _
      · exact htest.select after (ih hleft) fun after => .refl _

end TestsLike

/-- A negation gives whether its operand is falsy. An error keeps the place that the operand gave
it. -/
theorem evaluate_not (fuel : Nat) (place : Position) (condition : Expr) (state : State) :
    (ofFuel (fuel + 1)).evaluate (.unary place .not condition) state =
      ((ofFuel fuel).evaluate condition state).map fun value => .boolean !value.isTruthy := by
  cases fuel with
  | zero => rfl
  | succ fuel =>
      exact locatedAt_map_locatedAt ((ofFuel fuel).evaluateExpr condition state) _
        condition.position place

theorem test_not (fuel : Nat) (place : Position) (condition : Expr) (state : State) :
    (ofFuel (fuel + 1)).test .whenTrue (.unary place .not condition) state =
      (ofFuel fuel).test .whenFalse condition state := by
  unfold test
  rw [evaluate_not]
  cases (ofFuel fuel).evaluate condition state <;> rfl

/-- With one more level of fuel, the negated condition tells the same. -/
theorem testsLike_not (fuel : Nat) (place : Position) (condition : Expr) :
    TestsLike .cutShort (ofFuel fuel) (ofFuel (fuel + 1)) .whenFalse .whenTrue condition
      (.unary place .not condition) := by
  intro state
  rw [test_not]
  exact .refl _

/-- The condition tells the same as the negated one does with as much fuel. -/
theorem testsLike_of_not (fuel : Nat) (place : Position) (condition : Expr) :
    TestsLike .cutShort (ofFuel fuel) (ofFuel fuel) .whenTrue .whenFalse
      (.unary place .not condition) condition := by
  intro state
  cases fuel with
  | zero => exact .refl _
  | succ fuel =>
      rw [test_not]
      exact ((matches_ofFuel (Nat.le_succ fuel)).evaluate condition state).map _

end Interpreter

/-- **The negated and the listed forms agree with the basic ones.** A statement that runs its body
unless or until a condition holds ends like the one that runs it if or while the negated condition
does, and a choice among cases ends like a conditional whose alternatives are the remaining cases:
in every state, for every condition and all bodies, with the same flow or the same error and its
place, and in the same state, or neither of the two ends. -/
theorem negated_forms_agree (position place : Position) (condition : Expr) (body : List Stmt)
    (alternatives : List Branch) (fallback : Option (List Stmt)) :
    let negated := Expr.unary place .not condition
    (Stmt.conditional position .whenFalse condition body alternatives fallback).RunsLike
      (.conditional position .whenTrue negated body alternatives fallback) ∧
    (Stmt.loop position .whenFalse condition body).RunsLike
      (.loop position .whenTrue negated body) ∧
    (Stmt.postLoop position .whenFalse body condition).RunsLike
      (.postLoop position .whenTrue body negated) ∧
    (Stmt.choose position (.mk condition body :: alternatives) fallback).RunsLike
      (.conditional position .whenTrue condition body alternatives fallback) := by
  intro negated
  have hnot (fuel : Nat) := testsLike_not fuel place condition
  have hback (fuel : Nat) := testsLike_of_not fuel place condition
  have hmore (fuel : Nat) : (ofFuel fuel).MatchesUnless .cutShort (ofFuel (fuel + 1)) :=
    matches_ofFuel (Nat.le_succ fuel)
  have hsame (fuel : Nat) : (ofFuel fuel).MatchesUnless .cutShort (ofFuel fuel) :=
    matches_ofFuel (Nat.le_refl fuel)
  refine ⟨.of_isFollowedBy (.of_rule rfl 1 fun fuel state => ?_)
      (.of_rule rfl 0 fun fuel state => ?_),
    .of_isFollowedBy (.of_rule rfl 1 fun fuel state => ?_) (.of_rule rfl 0 fun fuel state => ?_),
    .of_isFollowedBy (.of_rule rfl 1 fun fuel state => ?_) (.of_rule rfl 0 fun fuel state => ?_),
    .of_isFollowedBy (.of_rule rfl 0 fun fuel state => .refl _)
      (.of_rule rfl 0 fun fuel state => .refl _)⟩
  · exact (hnot fuel).executeConditional (hmore fuel) body alternatives fallback state
  · exact (hback fuel).executeConditional (hsame fuel) body alternatives fallback state
  · exact (hnot fuel).executeLoop (hmore fuel) body (hmore fuel).rounds state
  · exact (hback fuel).executeLoop (hsame fuel) body (hsame fuel).rounds state
  · exact (hnot fuel).executePostLoop (hmore fuel) body (hmore fuel).rounds state
  · exact (hback fuel).executePostLoop (hsame fuel) body (hsame fuel).rounds state

end ScriptEngine
