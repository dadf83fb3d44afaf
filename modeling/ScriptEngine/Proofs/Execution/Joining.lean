import ScriptEngine.Proofs.Execution.Frames
import ScriptEngine.Proofs.Execution.RevisedRuns
import ScriptEngine.Proofs.Program.Joining

/-!
# Scripts one after the other

A run of a program with its places moved is the run of the program itself with the places moved. So
the run of two joined programs differs from the runs of both, one after the other, only in places.
To tell which places these are, tags say where a place comes from: those of the second program get
one tag, and those that the state has before its run, be it from the first program or from an
earlier one, get another.
-/

namespace ScriptEngine

theorem Callable.relocate_relocate (move after : Position → Position) (callable : Callable) :
    (callable.relocate move).relocate after = callable.relocate (after ∘ move) := by
  cases callable with
  | sub name parameters body => exact congrArg _ (Stmt.relocateAll_relocateAll move after body)
  | block body => exact congrArg _ (body.relocate_relocate move after)
  | native => rfl

theorem Heap.relocate_relocate (move after : Position → Position) (heap : Heap) :
    (heap.relocate move).relocate after = heap.relocate (after ∘ move) := by
  have hcallables : Callable.relocate after ∘ Callable.relocate move =
      Callable.relocate (after ∘ move) :=
    funext (Callable.relocate_relocate move after)
  unfold relocate withFunctions
  simp only [Array.map_map, hcallables]

/-- The error with its place moved. -/
def RuntimeError.relocate (move : Position → Position) (error : RuntimeError) : RuntimeError :=
  { error with position := error.position.map move }

/-- The state with each place in the body of a function moved. -/
def State.relocate (move : Position → Position) (state : State) : State :=
  { state with heap := state.heap.relocate move }

theorem State.relocate_relocate (move after : Position → Position) (state : State) :
    (state.relocate move).relocate after = state.relocate (after ∘ move) :=
  congrArg (fun heap => { state with heap := heap }) (state.heap.relocate_relocate move after)

theorem State.relocate_id (state : State) : state.relocate id = state :=
  congrArg (fun heap => { state with heap := heap }) state.heap.relocate_id

namespace Outcome

variable {α : Type} (move : Position → Position)

/-- The places in what a step leaves behind are moved. -/
def relocate : Outcome α → Outcome α
  | ok value state => ok value (state.relocate move)
  | error failure state => error (failure.relocate move) (state.relocate move)
  | aborted => aborted
  | outOfFuel => outOfFuel

end Outcome

/-- The places are moved and nothing else is changed, in states with a given sink. -/
def Revision.moved (move : Position → Position) (sink : Sink) : Revision where
  move := move
  limit := id
  error := RuntimeError.relocate move
  admits _ state := state.world.sink = sink
  lenient := False
  error_of_isPlain := by
    intro failure h
    unfold RuntimeError.relocate
    rw [h.position]
    obtain ⟨kind, message, position⟩ := failure
    exact congrArg _ h.position.symm
  error_locatedAt := by
    intro failure position
    obtain ⟨kind, message, place⟩ := failure
    cases place <;> rfl
  admits_of_eq h _ _ hsink := hsink.trans h
  admits_enterLevel h _ := h
  admits_leaveLevel h := h
  lt_limit _ hdepth := hdepth

namespace Interpreter

theorem relates_moved (move : Position → Position) (sink : Sink) (fuel : Nat) :
    (Revision.moved move sink).Relates 0 (ofFuel fuel) (ofFuel fuel) := by
  have hkeeps : (Revision.moved move sink).KeepsRefusals := fun _ => .inr ⟨rfl, rfl⟩
  exact hkeeps.relates_ofFuel fuel 0

/-- Moved places make no difference to a run but that they are moved afterwards. -/
theorem run_relocate (move : Position → Position) (fuel : Nat) (program : Program)
    (state : State) :
    (ofFuel fuel).run (Stmt.relocateAll move program) (state.relocate move) =
      ((ofFuel fuel).run program state).relocate move := by
  have hadmits : (Revision.moved move state.world.sink).admits 0 state := rfl
  have hrun := (relates_moved move state.world.sink fuel).run program hadmits
  have hagrees := hrun.agrees.resolve_right fun h => h.1
  refine hagrees.trans ?_
  cases (ofFuel fuel).run program state <;> rfl

/-- Whatever a program does, the sink stays as it is. -/
theorem ends_runStatements (fuel : Nat) (program : Program) (state : State) :
    ((ofFuel fuel).runStatements program state).Ends fun after =>
      after.world.sink = state.world.sink := by
  have hadmits : (Revision.moved id state.world.sink).admits 0 state := rfl
  exact ((relates_moved id state.world.sink fuel).runStatements program hadmits).ends

/-- Without a failing flush, the statements are all that a run does. -/
theorem run_eq_runStatements {state : State} (h : state.world.sink ≠ .failingFlush) (fuel : Nat)
    (program : Program) :
    (ofFuel fuel).run program state = (ofFuel fuel).runStatements program state := by
  have hends := ends_runStatements fuel program state
  rw [run_eq]
  cases hrun : (ofFuel fuel).runStatements program state with
  | ok value after =>
      rw [hrun] at hends
      have hsink : after.world.sink ≠ .failingFlush := hends ▸ h
      exact if_neg hsink
  | _ => rfl

theorem runStatements_append (interpreter : Interpreter) (program others : Program)
    (state : State) :
    interpreter.runStatements (program ++ others) state =
      (interpreter.runStatements program state).andThen fun _ after =>
        interpreter.runStatements others after := by
  induction program generalizing state with
  | nil => rfl
  | cons statement rest ih =>
      simp only [List.cons_append, runStatements]
      cases interpreter.execute statement state with
      | ok flow after =>
          cases flow with
          | normal => exact ih after
          | _ => rfl
      | _ => rfl

/-- Two programs that run as one run one after the other. -/
theorem run_append {state : State} (h : state.world.sink ≠ .failingFlush) (fuel : Nat)
    (program others : Program) :
    (ofFuel fuel).run (program ++ others) state =
      ((ofFuel fuel).run program state).andThen fun _ after => (ofFuel fuel).run others after := by
  calc (ofFuel fuel).run (program ++ others) state
      = (((ofFuel fuel).runStatements program state).andThen fun _ after =>
          (ofFuel fuel).runStatements others after).andThen fun _ after => after.flush := by
        rw [run_eq, runStatements_append]
    _ = ((ofFuel fuel).runStatements program state).andThen fun _ after =>
          (ofFuel fuel).run others after := by
        simp only [run_eq]
        cases (ofFuel fuel).runStatements program state <;> rfl
    _ = ((ofFuel fuel).run program state).andThen fun _ after =>
          (ofFuel fuel).run others after := by
        rw [run_eq_runStatements h]

end Interpreter

/-! ### Where a place comes from -/

namespace Position

/-- The place with the tag of the places that are there before a program runs. -/
def tagEarlier (position : Position) : Position :=
  ⟨2 * position.line, position.column⟩

/-- The place with the tag of the places of the program. -/
def tagOwn (position : Position) : Position :=
  ⟨2 * position.line + 1, position.column⟩

/-- The place without its tag. -/
def untag (position : Position) : Position :=
  ⟨position.line / 2, position.column⟩

/-- The place without its tag, so many lines further down if it is one of the program. -/
def settle (lines : Nat) (position : Position) : Position :=
  if position.line % 2 = 1 then position.untag.down lines else position.untag

theorem untag_comp_tagEarlier : untag ∘ tagEarlier = id := by
  funext position
  refine congrArg (Position.mk · position.column) ?_
  change 2 * position.line / 2 = position.line
  omega

theorem untag_comp_tagOwn : untag ∘ tagOwn = id := by
  funext position
  refine congrArg (Position.mk · position.column) ?_
  change (2 * position.line + 1) / 2 = position.line
  omega

theorem settle_comp_tagEarlier (lines : Nat) : settle lines ∘ tagEarlier = id := by
  funext position
  have heven : (tagEarlier position).line % 2 ≠ 1 := by
    change 2 * position.line % 2 ≠ 1
    omega
  exact (if_neg heven).trans (congrFun untag_comp_tagEarlier position)

theorem settle_comp_tagOwn (lines : Nat) : settle lines ∘ tagOwn = down lines := by
  funext position
  have hodd : (tagOwn position).line % 2 = 1 := by
    change (2 * position.line + 1) % 2 = 1
    omega
  exact (if_pos hodd).trans (congrArg (down lines) (congrFun untag_comp_tagOwn position))

end Position

open Interpreter

/-- The run of a tagged program after which the places are moved further. With the places that were
there before it back where they were, it starts in the state itself. -/
theorem relocate_run_tagged {move : Position → Position} (hmove : move ∘ Position.tagEarlier = id)
    (fuel : Nat) (program : Program) (state : State) :
    ((ofFuel fuel).run (Stmt.relocateAll .tagOwn program) (state.relocate .tagEarlier)).relocate
        move =
      (ofFuel fuel).run (Stmt.relocateAll (move ∘ .tagOwn) program) state := by
  calc ((ofFuel fuel).run (Stmt.relocateAll .tagOwn program) (state.relocate .tagEarlier)).relocate
        move
      = (ofFuel fuel).run (Stmt.relocateAll move (Stmt.relocateAll .tagOwn program))
          ((state.relocate .tagEarlier).relocate move) := (run_relocate move fuel _ _).symm
    _ = (ofFuel fuel).run (Stmt.relocateAll (move ∘ .tagOwn) program)
          (state.relocate (move ∘ .tagEarlier)) := by
        rw [Stmt.relocateAll_relocateAll, State.relocate_relocate]
    _ = (ofFuel fuel).run (Stmt.relocateAll (move ∘ .tagOwn) program) state := by
        rw [hmove, State.relocate_id]

/-- **Scripts compose by concatenation.** Two scripts with a line break between them parse to the
statements of the first followed by those of the second, these so many lines further down. If the
sink can be flushed, then the joined program runs like the first program and, if that succeeds, the
second one after it: both runs are one run of the tagged second program, in which the places that
have the tag of the second program go further down for the joined program, and no other. -/
theorem scripts_join (first second : String) (program others : Program)
    (hfirst : Program.parse first = .ok program) (hsecond : Program.parse second = .ok others) :
    let lines := first.toList.count '\n' + 1
    let joined := program ++ Stmt.relocateAll (Position.down lines) others
    Program.parse (first ++ "\n" ++ second) = .ok joined ∧
    ∀ fuel state, state.world.sink ≠ .failingFlush →
      let tagged (after : State) : Outcome Unit :=
        (ofFuel fuel).run (Stmt.relocateAll .tagOwn others) (after.relocate .tagEarlier)
      ((ofFuel fuel).run joined state =
        ((ofFuel fuel).run program state).andThen fun _ after =>
          (tagged after).relocate (.settle lines)) ∧
      (((ofFuel fuel).run program state).andThen fun _ after => (ofFuel fuel).run others after) =
        ((ofFuel fuel).run program state).andThen fun _ after =>
          (tagged after).relocate .untag := by
  intro lines joined
  refine ⟨Program.parse_join hfirst hsecond, fun fuel state hsink => ?_⟩
  intro tagged
  refine ⟨?_, ?_⟩
  · rw [run_append hsink]
    congr 1
    funext _ after
    rw [relocate_run_tagged (Position.settle_comp_tagEarlier lines), Position.settle_comp_tagOwn]
  · congr 1
    funext _ after
    rw [relocate_run_tagged Position.untag_comp_tagEarlier, Position.untag_comp_tagOwn,
      Stmt.relocateAll_id]

/-- The sub `f` calls what is not bound. -/
def definingSource : String :=
  "sub f() \x7b x(); \x7d"

def callingSource : String :=
  "\nf();"

theorem scripts_join_calling :
    ∃ program others, Program.parse definingSource = .ok program ∧
      Program.parse callingSource = .ok others ∧ State.blank.world.sink ≠ .failingFlush ∧
      let joined := program ++ Stmt.relocateAll (Position.down 1) others
      Program.parse (definingSource ++ "\n" ++ callingSource) = .ok joined ∧
      (ofFuel 9).run joined .blank =
        ((ofFuel 9).run program .blank).andThen fun _ after =>
          ((ofFuel 9).run (Stmt.relocateAll .tagOwn others)
            (after.relocate .tagEarlier)).relocate (.settle 1) := by
  have hfirst : Program.parse definingSource = .ok
      [.sub ⟨1, 1⟩ "f" [] [.call ⟨1, 11⟩ (.name ⟨1, 11⟩ "x") []]] := by cbv
  have hsecond : Program.parse callingSource = .ok [.call ⟨2, 1⟩ (.name ⟨2, 1⟩ "f") []] := by cbv
  have hsink : State.blank.world.sink ≠ .failingFlush := by decide
  have hlines : definingSource.toList.count '\n' + 1 = 1 := by decide
  have hjoin := scripts_join definingSource callingSource _ _ hfirst hsecond
  rw [hlines] at hjoin
  exact ⟨_, _, hfirst, hsecond, hsink, hjoin.1, (hjoin.2 9 .blank hsink).1⟩

end ScriptEngine
