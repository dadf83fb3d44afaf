import ScriptEngine.Proofs.Execution.Frames
import ScriptEngine.Proofs.Execution.Points
import ScriptEngine.Proofs.Execution.RevisedRuns

/-!
# The limit of the call depth

The limit is exact: never are more calls active than it allows, and a stack overflow is raised where
a callable is invoked while as many are active, and nowhere else. Otherwise it is invisible: a run
that does without a stack overflow goes the same way under every higher limit.
-/

namespace ScriptEngine

namespace Revision

/-- Nothing is changed. The depth that a state holds counts the active calls, and these are as many
as the limit allows. -/
def within (depth : Nat) (lenient : Prop) : Revision where
  move := id
  limit := id
  error := id
  admits active state :=
    state.callDepth = active ∧ active ≤ depth ∧ state.maxCallDepth = depth
  lenient := lenient
  error_of_isPlain _ := rfl
  error_locatedAt _ _ := rfl
  admits_of_eq := by
    rintro active start after ⟨hdepth, hactive, hmax⟩ hcallDepth hmaxCallDepth -
    exact ⟨hcallDepth.trans hdepth, hactive, hmaxCallDepth.trans hmax⟩
  admits_enterLevel := by
    rintro active start ⟨hdepth, hactive, hmax⟩ hlt
    exact ⟨congrArg (· + 1) hdepth, by omega, hmax⟩
  admits_leaveLevel := by
    rintro active start ⟨hdepth, hactive, hmax⟩
    exact ⟨congrArg (· - 1) hdepth, by omega, hmax⟩
  lt_limit _ hlt := hlt

/-- An error in place of a stack overflow. -/
def disguise (failure : RuntimeError) : RuntimeError :=
  if failure.kind = .stackOverflow then { failure with kind := .host } else failure

theorem kind_disguise (failure : RuntimeError) : (disguise failure).kind ≠ .stackOverflow := by
  unfold disguise
  split
  · exact nofun
  · assumption

/-- Every stack overflow is disguised as another error. -/
def disguised (depth : Nat) : Revision :=
  { within depth False with
    error := disguise
    error_of_isPlain := fun h => if_neg h.kind
    error_locatedAt := fun failure position => by
      by_cases h : failure.kind = .stackOverflow
      · simp only [disguise, RuntimeError.locatedAt, h, if_true]
        rfl
      · simp only [disguise, RuntimeError.locatedAt, h, if_false]
        rfl }

/-- A higher limit, for states with one of `depth`. -/
def raised {depth limit : Nat} (h : depth ≤ limit) : Revision where
  move := id
  limit _ := limit
  error := id
  admits _ state := state.maxCallDepth = depth
  lenient := True
  error_of_isPlain _ := rfl
  error_locatedAt _ _ := rfl
  admits_of_eq hstart _ hmax _ := hmax.trans hstart
  admits_enterLevel hstart _ := hstart
  admits_leaveLevel hstart := hstart
  lt_limit hstart hlt := Nat.lt_of_lt_of_le (hstart ▸ hlt) h

theorem state_raised {depth limit : Nat} (h : depth ≤ limit) (start : State) :
    (raised h).state start = { start with maxCallDepth := limit } :=
  congrArg (fun heap => { start with heap := heap, maxCallDepth := limit })
    start.heap.relocate_id

/-- Nothing is moved, and limits stay as they are. -/
structure IsStill (revision : Revision) : Prop where
  move : revision.move = id
  limit : revision.limit = id

namespace IsStill

variable {revision : Revision} (h : revision.IsStill) {active : Nat} {left right : Interpreter}
  {start : State}
include h

theorem state_eq (start : State) : revision.state start = start := by
  unfold state
  rw [h.move, h.limit, start.heap.relocate_id]
  rfl

theorem relates (hrounds : right.rounds = left.rounds)
    (hevaluate : ∀ expression start, revision.admits active start →
      (revision.transfer active).Carries (left.evaluate expression start)
        (right.evaluate expression start))
    (hexecute : ∀ statement start, revision.admits active start →
      (revision.transfer active).Carries (left.execute statement start)
        (right.execute statement start))
    (hcall : ∀ callee arguments start, revision.admits active start →
      (revision.transfer active).Carries (left.call callee arguments start)
        (right.call callee arguments start)) :
    revision.Relates active left right where
  evaluate expression start hstart := by
    rw [h.move, expression.relocate_id, h.state_eq]
    exact hevaluate expression start hstart
  execute statement start hstart := by
    rw [h.move, statement.relocate_id, h.state_eq]
    exact hexecute statement start hstart
  call callee arguments start hstart := by
    rw [h.state_eq]
    exact hcall callee arguments start hstart
  rounds := hrounds

section

variable {α : Type} {point : Point} {holds : Point → Bool} {failure : RuntimeError}
  {first second : Outcome α}

omit h in
/-- A stop that does not come. -/
theorem passing (hpoint : holds point)
    (hcarries : (revision.transfer active).Carries first second) :
    (revision.transfer active).Carries first (point.stopUnless holds failure second) := by
  unfold Point.stopUnless
  rw [if_pos hpoint]
  exact hcarries

/-- A stop of both interpreters. -/
theorem stopping (hpoint : revision.admits active point.state) (hplain : failure.IsPlain)
    (hcarries : holds point → (revision.transfer active).Carries first second) :
    (revision.transfer active).Carries (point.stopUnless holds failure first)
      (point.stopUnless holds failure second) := by
  unfold Point.stopUnless
  split
  · next hholds => exact hcarries hholds
  · have hstop : (revision.transfer active).Carries (.error failure point.state : Outcome α)
        (.error failure (revision.state point.state)) := .error hpoint hplain
    rw [h.state_eq] at hstop
    exact hstop

end

variable (hrelates : revision.Relates active left right) (hstart : revision.admits active start)

theorem callValue (hrelates : revision.Relates (active + 1) left right)
    (hstart : revision.admits active start) (callee : Value) (arguments : List Value)
    (hrefused : ∀ ref, callee = .function ref → start.maxCallDepth ≤ start.callDepth →
      revision.lenient ∨ revision.error (.stackOverflow start.maxCallDepth) =
        .stackOverflow start.maxCallDepth) :
    (revision.transfer active).Carries (left.callValue callee arguments start)
      (right.callValue callee arguments start) := by
  have hcarries := hrelates.callValue callee arguments hstart fun ref hcallee hdepth =>
    (hrefused ref hcallee hdepth).imp_right fun herror => ⟨congrFun h.limit _, herror⟩
  rw [h.state_eq] at hcarries
  exact hcarries

include hrelates hstart

theorem evaluateExpr (expression : Expr) :
    (revision.transfer active).Carries
      ((left.evaluateExpr expression start).locatedAt expression.position)
      ((right.evaluateExpr expression start).locatedAt expression.position) := by
  have hcarries := (hrelates.evaluateExpr expression hstart).locatedAt expression.position_relocate
  rw [h.move, expression.relocate_id, h.state_eq] at hcarries
  exact hcarries

theorem executeStmt (statement : Stmt) :
    (revision.transfer active).Carries
      ((left.executeStmt statement start).locatedAt statement.position)
      ((right.executeStmt statement start).locatedAt statement.position) := by
  have hcarries := (hrelates.executeStmt statement hstart).locatedAt statement.position_relocate
  rw [h.move, statement.relocate_id, h.state_eq] at hcarries
  exact hcarries

theorem run (program : Program) :
    (revision.transfer active).Carries (left.run program start) (right.run program start) := by
  have hcarries := hrelates.run program hstart
  rw [h.move, Stmt.relocateAll_id, h.state_eq] at hcarries
  exact hcarries

end IsStill

theorem isStill_within (depth : Nat) (lenient : Prop) : (within depth lenient).IsStill :=
  ⟨rfl, rfl⟩

theorem isStill_disguised (depth : Nat) : (disguised depth).IsStill :=
  ⟨rfl, rfl⟩

end Revision

namespace Interpreter

theorem callValue_refused (interpreter : Interpreter) (ref : FunctionRef) (arguments : List Value)
    {state : State} (h : state.maxCallDepth ≤ state.callDepth) :
    interpreter.callValue (.function ref) arguments state =
      .error (.stackOverflow state.maxCallDepth) state :=
  if_pos h

variable {holds : Point → Bool} {failure : RuntimeError} {depth : Nat}

/-- A stop is not noticed if it only comes where a call is refused, and nothing is to be said about
stack overflows. -/
theorem relates_stoppingUnless {lenient : Prop} (failure : RuntimeError)
    (hholds : ∀ point, (Revision.within depth lenient).admits point.active point.state →
      holds point ∨ lenient ∧ point.isInvocation ∧ point.active = depth) (fuel active : Nat) :
    (Revision.within depth lenient).Relates active (ofFuel fuel)
      (stoppingUnless holds failure fuel active) := by
  have hstill := Revision.isStill_within depth lenient
  induction fuel generalizing active with
  | zero =>
      exact hstill.relates rfl (fun _ _ _ => .outOfFuel) (fun _ _ _ => .outOfFuel)
        (fun _ _ _ _ => .outOfFuel)
  | succ fuel ih =>
      refine hstill.relates rfl (fun expression start hstart => ?_)
        (fun statement start hstart => ?_) (fun callee arguments start hstart => ?_)
      · have hpoint : holds ⟨.evaluate expression, active, start⟩ :=
          (hholds _ hstart).resolve_right fun h => nomatch h.2.1
        exact Revision.IsStill.passing hpoint (hstill.evaluateExpr (ih active) hstart expression)
      · have hpoint : holds ⟨.execute statement, active, start⟩ :=
          (hholds _ hstart).resolve_right fun h => nomatch h.2.1
        exact Revision.IsStill.passing hpoint (hstill.executeStmt (ih active) hstart statement)
      · rcases hholds ⟨.call callee arguments, active, start⟩ hstart with
          hpoint | ⟨hlenient, hinvocation, hactive⟩
        · have hcall := hstill.callValue (ih (active + 1)) hstart callee arguments
            fun _ _ _ => .inr rfl
          exact Revision.IsStill.passing hpoint hcall
        · -- A stop in place of a call that is refused: the run overflows here.
          cases callee with
          | function ref =>
              have hfull : start.maxCallDepth ≤ start.callDepth := by
                rw [hstart.1, hstart.2.2]
                exact Nat.le_of_eq hactive.symm
              have hleft : (ofFuel (fuel + 1)).call (.function ref) arguments start =
                  .error (.stackOverflow start.maxCallDepth) start :=
                callValue_refused _ ref arguments hfull
              rw [hleft]
              exact ⟨hstart, .inr ⟨hlenient, rfl⟩⟩
          | _ => exact nomatch hinvocation

/-- Where stops come in place of refused calls, the run has no stack overflow. -/
theorem relates_disguised (hholds : ∀ point, holds point →
    point.isInvocation → point.active ≠ depth) (hfailure : failure.IsPlain) (fuel active : Nat) :
    (Revision.disguised depth).Relates active (stoppingUnless holds failure fuel active)
      (stoppingUnless holds failure fuel active) := by
  have hstill := Revision.isStill_disguised depth
  induction fuel generalizing active with
  | zero =>
      exact hstill.relates rfl (fun _ _ _ => .outOfFuel) (fun _ _ _ => .outOfFuel)
        (fun _ _ _ _ => .outOfFuel)
  | succ fuel ih =>
      refine hstill.relates rfl (fun expression start hstart => ?_)
        (fun statement start hstart => ?_) (fun callee arguments start hstart => ?_)
      · exact hstill.stopping hstart hfailure fun _ =>
          hstill.evaluateExpr (ih active) hstart expression
      · exact hstill.stopping hstart hfailure fun _ =>
          hstill.executeStmt (ih active) hstart statement
      · refine hstill.stopping hstart hfailure fun hpoint =>
          hstill.callValue (ih (active + 1)) hstart callee arguments ?_
        -- No call is refused here, since the run would have stopped before it.
        rintro ref rfl hfull
        obtain ⟨hdepth, hactive, hmax⟩ := hstart
        have hlevel : active = depth := by omega
        exact absurd hlevel (hholds _ hpoint rfl)

/-- A stop that the run passes without notice, unless it ends in a stack overflow. -/
theorem run_stoppingUnless (lenient : Prop) {state : State} (hstate : state.callDepth = 0)
    (failure : RuntimeError)
    (hholds : ∀ point, (Revision.within state.maxCallDepth lenient).admits point.active
      point.state → holds point ∨ lenient ∧ point.isInvocation ∧ point.active = state.maxCallDepth)
    (fuel : Nat) (program : Program) :
    (stoppingUnless holds failure fuel 0).run program state = (ofFuel fuel).run program state ∨
      lenient ∧ ((ofFuel fuel).run program state).Overflows := by
  have hstill := Revision.isStill_within state.maxCallDepth lenient
  have hadmits : (Revision.within state.maxCallDepth lenient).admits 0 state :=
    ⟨hstate, Nat.zero_le _, rfl⟩
  have hrun := hstill.run (relates_stoppingUnless failure hholds fuel 0) hadmits program
  refine hrun.agrees.imp_left fun hagrees => ?_
  rw [hagrees]
  cases (ofFuel fuel).run program state with
  | ok value after => exact congrArg (Outcome.ok value) (hstill.state_eq after)
  | error failure after => exact congrArg (Outcome.error failure) (hstill.state_eq after)
  | aborted => rfl
  | outOfFuel => rfl

/-- Where the run stops in place of refused calls, it has no stack overflow. -/
theorem not_overflows_stoppingUnless {state : State} (hstate : state.callDepth = 0)
    (hholds : ∀ point, holds point → point.isInvocation → point.active ≠ state.maxCallDepth)
    (hfailure : failure.IsPlain) (fuel : Nat) (program : Program) :
    ¬ ((stoppingUnless holds failure fuel 0).run program state).Overflows := by
  intro hoverflow
  have hstill := Revision.isStill_disguised state.maxCallDepth
  have hadmits : (Revision.disguised state.maxCallDepth).admits 0 state :=
    ⟨hstate, Nat.zero_le _, rfl⟩
  have hrun := hstill.run (relates_disguised hholds hfailure fuel 0) hadmits program
  have hagrees := hrun.agrees.resolve_right fun h => h.1
  -- The run is its own disguise, and a stack overflow is not.
  cases hstopped : (stoppingUnless holds failure fuel 0).run program state with
  | error error after =>
      rw [hstopped] at hagrees hoverflow
      have herror : error = Revision.disguise error := (Outcome.error.inj hagrees).1
      exact Revision.kind_disguise error (herror ▸ hoverflow)
  | _ =>
      rw [hstopped] at hoverflow
      exact hoverflow

/-- A higher limit is not noticed, unless the run ends in a stack overflow. -/
theorem run_raised {state : State} {limit : Nat} (h : state.maxCallDepth ≤ limit) (fuel : Nat)
    (program : Program) :
    (ofFuel fuel).run program { state with maxCallDepth := limit } =
        ((ofFuel fuel).run program state).mapState (fun after =>
          { after with maxCallDepth := limit }) ∨
      ((ofFuel fuel).run program state).Overflows := by
  have hkeeps : (Revision.raised h).KeepsRefusals := fun _ => .inl trivial
  have hadmits : (Revision.raised h).admits 0 state := rfl
  have hmove : (Revision.raised h).move = id := rfl
  have hrun := (hkeeps.relates_ofFuel fuel 0).run program hadmits
  rw [hmove, Stmt.relocateAll_id, Revision.state_raised] at hrun
  refine hrun.agrees.imp (fun hagrees => ?_) fun hoverflow => hoverflow.2
  rw [hagrees]
  cases (ofFuel fuel).run program state with
  | ok value after => exact congrArg (Outcome.ok value) (Revision.state_raised h after)
  | error failure after => exact congrArg (Outcome.error failure) (Revision.state_raised h after)
  | aborted => rfl
  | outOfFuel => rfl

end Interpreter

open Interpreter

/-- **The call limit is exact and otherwise invisible.** In a run that starts with no call active,
the state holds the number of active calls at every point, and these are never more than the limit
allows. A call of a callable is refused if as many are active, and the run ends in a stack overflow
just if it comes to such a call. Otherwise it ends in the same way under every higher limit. -/
theorem callLimit_exact (fuel : Nat) (program : Program) (state : State)
    (hstate : state.callDepth = 0) :
    (Throughout fuel program state fun point =>
      point.state.callDepth = point.active ∧ point.state.maxCallDepth = state.maxCallDepth ∧
        point.active ≤ state.maxCallDepth) ∧
    (∀ inner ref arguments full, full.maxCallDepth = full.callDepth →
      (ofFuel (inner + 1)).call (.function ref) arguments full =
        .error (.stackOverflow full.maxCallDepth) full) ∧
    (((ofFuel fuel).run program state).Overflows ↔
      ¬ Throughout fuel program state fun point =>
        ¬ (point.isInvocation ∧ point.active = state.maxCallDepth)) ∧
    ∀ limit, state.maxCallDepth ≤ limit → ¬ ((ofFuel fuel).run program state).Overflows →
      (ofFuel fuel).run program { state with maxCallDepth := limit } =
        ((ofFuel fuel).run program state).mapState fun after =>
          { after with maxCallDepth := limit } := by
  refine ⟨?_, ?_, ⟨?_, ?_⟩, ?_⟩
  · intro failure
    refine (run_stoppingUnless False hstate failure ?_ fuel program).resolve_right fun h => h.1
    intro point hpoint
    obtain ⟨hdepth, hactive, hmax⟩ := hpoint
    exact .inl (decide_eq_true ⟨hdepth, hmax, hactive⟩)
  · intro inner ref arguments full hfull
    exact callValue_refused _ ref arguments (Nat.le_of_eq hfull)
  · intro hoverflow hthroughout
    have hplain : (RuntimeError.host "stopped").IsPlain := ⟨nofun, rfl⟩
    rw [← hthroughout (.host "stopped")] at hoverflow
    refine not_overflows_stoppingUnless hstate ?_ hplain fuel program hoverflow
    intro point hpoint hinvocation hactive
    exact of_decide_eq_true hpoint ⟨hinvocation, hactive⟩
  · intro hstop
    refine Classical.byContradiction fun hoverflow => hstop fun failure => ?_
    refine (run_stoppingUnless True hstate failure ?_ fuel program).resolve_right
      fun h => hoverflow h.2
    intro point hpoint
    by_cases hinvocation : point.isInvocation ∧ point.active = state.maxCallDepth
    · exact .inr ⟨trivial, hinvocation⟩
    · exact .inl (decide_eq_true hinvocation)
  · intro limit hlimit hoverflow
    exact (run_raised hlimit fuel program).resolve_right hoverflow

/-- The sub `outer` calls the sub `inner`. -/
def nestedProgram : Program :=
  [.sub .first "inner" [] [], .sub .first "outer" [] [.call .first (.name .first "inner") []],
    .call .first (.name .first "outer") []]

theorem callLimit_exact_nestedProgram :
    let limited (limit : Nat) : State := { State.blank with maxCallDepth := limit }
    State.blank.callDepth = 0 ∧ ((ofFuel 9).run nestedProgram (limited 1)).Overflows ∧
      ¬ (Throughout 9 nestedProgram (limited 1) fun point =>
        ¬ (point.isInvocation ∧ point.active = 1)) ∧
      ¬ ((ofFuel 9).run nestedProgram (limited 2)).Overflows ∧
      (ofFuel 9).run nestedProgram (limited 256) =
        ((ofFuel 9).run nestedProgram (limited 2)).mapState fun after =>
          { after with maxCallDepth := 256 } := by
  intro limited
  have hshort := callLimit_exact 9 nestedProgram (limited 1) rfl
  have hlong := callLimit_exact 9 nestedProgram (limited 2) rfl
  have hoverflow : ((ofFuel 9).run nestedProgram (limited 1)).Overflows := rfl
  have hsuccess : ¬ ((ofFuel 9).run nestedProgram (limited 2)).Overflows := id
  exact ⟨rfl, hoverflow, hshort.2.2.1.mp hoverflow, hsuccess,
    hlong.2.2.2 256 (by decide) hsuccess⟩

end ScriptEngine
