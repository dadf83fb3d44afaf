import ScriptEngine.Proofs.Execution.Agreeing
import ScriptEngine.Proofs.Execution.Frames
import ScriptEngine.Proofs.Program.Yielding

/-!
# Parsed programs have targets

Whatever parses is grammatical, and a run of it never comes to an assignment or a step without a
name, an index or a member to write to. The subs and blocks that it stores are parts of parsed
programs as well, so that this goes on for all programs that are run after it.
-/

namespace ScriptEngine

/-- All that is executed and stored is grammatical. -/
def Regime.grammatical : Regime where
  code := Code.IsGrammatical
  callable := Callable.IsGrammatical
  property _ := True
  failure _ := True
  code_of_part h := h.parts _
  code_of_callable h := h _
  callable_of_made h := h.made
  failure_of_isOrdinary _ := trivial
  failure_stackOverflow _ := trivial
  failure_locatedAt _ _ := trivial

/-- An assignment or a step that is about to be done has a target. -/
def Point.hasTarget (point : Point) : Bool :=
  match point.task with
  | .evaluate (.step _ _ target _) => target.isAssignable
  | .execute (.assign _ target _) => target.isAssignable
  | .execute (.step _ _ target _) => target.isAssignable
  | _ => true

theorem Point.hasTarget_of_isGrammatical (point : Point)
    (h : ∀ code ∈ point.task.code?, code.IsGrammatical) : point.hasTarget := by
  obtain ⟨task, active, state⟩ := point
  unfold hasTarget
  split
  · next htask => exact (h _ (congrArg Task.code? htask)).isRegular
  · next htask => exact (h _ (congrArg Task.code? htask)).isRegular
  · next htask => exact (h _ (congrArg Task.code? htask)).isRegular
  · rfl

namespace Interpreter

theorem follows_grammatical (fuel : Nat) : (ofFuel fuel).Follows .grammatical fun _ => True := by
  have hconfines (fuel active : Nat) :
      (stoppingUnless (fun _ => true) .invalidTarget fuel active).Confines .grammatical :=
    fun _ _ => .of_forall (fun _ _ _ => trivial) _
  have h := follows_stoppingUnless (fun _ _ => True) trivial (fun _ _ _ _ => trivial)
    (fun _ _ _ _ => trivial) hconfines fuel 0
  rwa [stoppingUnless_true] at h

end Interpreter

open Interpreter

/-- A state after parsed texts have been run in it one after another. In between an embedding
program may change it at will, but the functions that it adds are library functions. -/
inductive Scripted : State → Prop
  | initial (world : World) : Scripted (.initial .empty world)
  | embed {state other : State} (h : Scripted state)
      (hfunctions : ∀ callable ∈ other.heap.functions,
        callable ∈ state.heap.functions ∨ ∃ native, callable = .native native) : Scripted other
  | run {state after : State} {source : String} {program : Program} {fuel : Nat}
      (h : Scripted state) (hparse : Program.parse source = .ok program)
      (hend : ((ofFuel fuel).run program state).state? = some after) : Scripted after
  | execute {state after : State} {source : String} {statement : Stmt} {fuel : Nat}
      (h : Scripted state) (hparse : Stmt.parse source = .ok statement)
      (hend : ((ofFuel fuel).execute statement state).state? = some after) : Scripted after
  | evaluate {state after : State} {source : String} {found : Expr × Bool} {fuel : Nat}
      (h : Scripted state) (hparse : Expr.parse source = .ok found)
      (hend : ((ofFuel fuel).evaluate found.1 state).state? = some after) : Scripted after
  | call {state after : State} {callee : Value} {arguments : List Value} {fuel : Nat}
      (h : Scripted state)
      (hend : ((ofFuel fuel).call callee arguments state).state? = some after) : Scripted after

theorem all_grammatical {program : Program}
    (h : ∀ statement ∈ program, statement.IsGrammatical) :
    Regime.grammatical.All (Code.ofBody program) := by
  intro part hpart
  obtain ⟨statement, hstatement, rfl⟩ := List.mem_map.mp hpart
  exact h statement hstatement

theorem Outcome.isGrammatical_of_state? {α : Type} {activity : Activity} {state after : State}
    {outcome : Outcome α} (houtcome : outcome.AdvancesFrom .grammatical activity state)
    (hstate : state.heap.IsGrammatical) (hend : outcome.state? = some after) :
    after.heap.IsGrammatical :=
  ((houtcome hstate).1.of_state? hend).admits hstate

/-- All subs and blocks that parsed texts have stored are grammatical. -/
theorem Scripted.isGrammatical {state : State} (h : Scripted state) :
    state.heap.IsGrammatical := by
  induction h with
  | initial =>
      intro callable hcallable
      exact absurd hcallable (Array.not_mem_empty callable)
  | embed _ hfunctions ih =>
      intro callable hcallable
      rcases hfunctions callable hcallable with hold | ⟨native, rfl⟩
      · exact ih callable hold
      · exact Code.AreGrammatical.nil
  | @run state after source program fuel _ hparse hend ih =>
      have hprogram := Program.isSound_parse source
      rw [hparse] at hprogram
      have hrun := (follows_grammatical fuel).run (all_grammatical hprogram)
        (fun _ _ _ => .of_forall (fun _ => .inr fun _ => trivial) _) state
      exact Outcome.isGrammatical_of_state? hrun ih hend
  | @execute state after source statement fuel _ hparse hend ih =>
      have hstatement := Stmt.isSound_parse source
      rw [hparse] at hstatement
      have hexecute := (follows_grammatical fuel).execute hstatement state
      exact Outcome.isGrammatical_of_state? hexecute ih hend
  | @evaluate state after source found fuel _ hparse hend ih =>
      have hfound := Expr.isSound_parse source
      rw [hparse] at hfound
      have hevaluate := (follows_grammatical fuel).evaluate hfound state
      exact Outcome.isGrammatical_of_state? hevaluate ih hend
  | @call state after callee arguments fuel _ hend ih =>
      have hcall := (follows_grammatical fuel).call callee arguments state
      exact Outcome.isGrammatical_of_state? hcall ih hend

/-- **Whatever parses is fit to run.** No text is refused for a numeral. What is parsed, as a
program, a statement or an expression, is grammatical at every depth. A program that was parsed
never comes to an assignment or a step without a target, neither in its own code nor in the subs and
blocks that texts before it have stored. -/
theorem parsed_fit_to_run (source : String) :
    IsSoundParse (fun program => (∀ statement ∈ program, statement.IsGrammatical) ∧
      ∀ fuel state, Scripted state → Throughout fuel program state Point.hasTarget)
        (Program.parse source) ∧
    IsSoundParse Stmt.IsGrammatical (Stmt.parse source) ∧
    IsSoundParse (fun found => found.1.IsGrammatical) (Expr.parse source) ∧
    (∀ statement ∈ (Program.parsePartially source).1, statement.IsGrammatical) ∧
      ∀ error ∈ (Program.parsePartially source).2, ¬ error.IsNumberFault := by
  refine ⟨?_, Stmt.isSound_parse source, Expr.isSound_parse source,
    Program.isGrammatical_parsePartially source⟩
  have hprogram := Program.isSound_parse source
  revert hprogram
  cases Program.parse source with
  | error error => exact id
  | ok program =>
      intro hprogram
      refine ⟨hprogram, fun fuel state hstate => ?_⟩
      have hcode : Regime.grammatical.All (Code.ofBody program) := all_grammatical hprogram
      exact throughout_of_follows follows_grammatical Point.hasTarget_of_isGrammatical fuel hcode
        hstate.isGrammatical

/-- A sub that assigns to a name and then to a member. -/
def storingSource : String :=
  "my x; sub set { x = [:]; x.a = true; }"

def storingProgram : Program :=
  [.declare ⟨1, 1⟩ "x" none, .sub ⟨1, 7⟩ "set" []
    [.assign ⟨1, 17⟩ (.name ⟨1, 17⟩ "x") (.hash ⟨1, 21⟩ []),
      .assign ⟨1, 26⟩ (.member ⟨1, 26⟩ (.name ⟨1, 26⟩ "x") "a") (.boolean ⟨1, 32⟩ true)]]

/-- The sub that one text has stored is called by the next. -/
theorem parsed_fit_to_run_storingSource :
    ∃ calling state after, Program.parse storingSource = .ok storingProgram ∧
      Program.parse "set();" = .ok calling ∧
      (ofFuel 9).run storingProgram .blank = .ok () state ∧ Scripted state ∧
      Throughout 12 calling state Point.hasTarget ∧
      (ofFuel 12).run calling state = .ok () after := by
  have hstoring : Program.parse storingSource = .ok storingProgram := by
    cbv
  have hcalling : Program.parse "set();" = .ok [.call ⟨1, 1⟩ (.name ⟨1, 1⟩ "set") []] := by
    cbv
  have hrun : ∃ state, (ofFuel 9).run storingProgram .blank = .ok () state ∧
      ∃ after, (ofFuel 12).run [.call ⟨1, 1⟩ (.name ⟨1, 1⟩ "set") []] state = .ok () after :=
    ⟨_, rfl, _, rfl⟩
  obtain ⟨state, hstate, after, hafter⟩ := hrun
  have hend : ((ofFuel 9).run storingProgram .blank).state? = some state := by
    rw [hstate]
    rfl
  have hscripted : Scripted state := .run (.initial _) hstoring hend
  have hfit := (parsed_fit_to_run "set();").1
  rw [hcalling] at hfit
  exact ⟨_, state, after, hstoring, hcalling, hstate, hscripted, hfit.2 12 state hscripted, hafter⟩

end ScriptEngine
