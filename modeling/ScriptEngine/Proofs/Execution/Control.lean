import ScriptEngine.Proofs.Execution.Frames
import ScriptEngine.Proofs.Program.Placement

/-!
# Control stays where it belongs

In a program whose control transfers are placed well no `return` leaves the subs and no `break` or
`next` the loops, through whatever statements, calls and callbacks control passes. A statement ends
with a flow that its place allows, by induction on the fuel. That the subs called are placed well is
an invariant of the heap.
-/

namespace ScriptEngine

namespace Place

/-- A statement at the place may end with the flow. -/
def Allows (place : Place) : Flow → Prop
  | .normal => True
  | .returns _ => place.inSub
  | .breaks => place.inLoop
  | .next => place.inLoop

variable {place : Place} {flow result : Flow}

/-- A loop takes what is meant for it. -/
theorem allows_afterRound (h : place.loopBody.Allows flow)
    (hround : flow.afterRound = some result) : place.Allows result := by
  cases flow with
  | normal => exact nomatch hround
  | returns value =>
      rw [← Option.some.inj hround]
      exact h
  | breaks =>
      rw [← Option.some.inj hround]
      trivial
  | next => exact nomatch hround

theorem eq_normal_of_allows (h : outermost.Allows flow) : flow = .normal := by
  cases flow with
  | normal => rfl
  | _ => exact nomatch h

theorem not_isLoopControl_of_allows (h : subBody.Allows flow) : ¬ flow.isLoopControl := by
  cases flow with
  | normal => exact nofun
  | returns value => exact nofun
  | breaks => exact nomatch h
  | next => exact nomatch h

end Place

open Outcome

namespace Interpreter

theorem allows_executeDeclare (interpreter : Interpreter) (place : Place) (name : String)
    (value : Option Expr) (state : State) :
    (interpreter.executeDeclare name value state).Gives place.Allows := by
  unfold executeDeclare
  split
  · trivial
  · exact gives_andThen _ fun value after => gives_map _ fun _ => trivial

theorem allows_executeSub (place : Place) (name : String) (parameters : List String)
    (body : List Stmt) (state : State) :
    (executeSub name parameters body state).Gives place.Allows := by
  unfold executeSub
  exact gives_andThen (state.newFunction _) fun value after => gives_map _ fun _ => trivial

/-- A statement ends with a flow that its place allows. -/
def KeepsPlaces (interpreter : Interpreter) : Prop :=
  ∀ {place : Place} {statement : Stmt}, statement.isPlaced place → ∀ state,
    (interpreter.execute statement state).Gives place.Allows

namespace KeepsPlaces

variable {interpreter : Interpreter} (h : interpreter.KeepsPlaces) {place : Place}
include h

theorem executeBody {body : List Stmt} (hbody : Stmt.arePlaced place body) (state : State) :
    (interpreter.executeBody body state).Gives place.Allows := by
  induction body generalizing state with
  | nil => trivial
  | cons statement rest ih =>
      rw [Stmt.arePlaced, Bool.and_eq_true] at hbody
      refine (h hbody.1 state).andThen fun flow after hflow => ?_
      cases flow with
      | normal => exact ih hbody.2 after
      | returns value => exact hflow
      | breaks => exact hflow
      | next => exact hflow

theorem executeFallback {fallback : Option (List Stmt)}
    (hfallback : Stmt.isPlacedFallback place fallback) (state : State) :
    (interpreter.executeFallback fallback state).Gives place.Allows := by
  cases fallback with
  | none => trivial
  | some body => exact h.executeBody hfallback state

theorem executeFirst (accepts : Value → Bool) {branches : List Branch}
    {fallback : Option (List Stmt)} (hbranches : Branch.arePlaced place branches)
    (hfallback : Stmt.isPlacedFallback place fallback) (state : State) :
    (interpreter.executeFirst accepts branches fallback state).Gives place.Allows := by
  induction branches generalizing state with
  | nil => exact h.executeFallback hfallback state
  | cons branch rest ih =>
      obtain ⟨condition, body⟩ := branch
      simp only [Branch.arePlaced, Bool.and_eq_true] at hbranches
      refine gives_andThen _ fun value after => ?_
      split
      · exact h.executeBody hbranches.1.2 after
      · exact ih hbranches.2 after

theorem executeConditional (sense : Sense) (condition : Expr) {body : List Stmt}
    {alternatives : List Branch} {fallback : Option (List Stmt)}
    (hbody : Stmt.arePlaced place body) (halternatives : Branch.arePlaced place alternatives)
    (hfallback : Stmt.isPlacedFallback place fallback) (state : State) :
    (interpreter.executeConditional sense condition body alternatives fallback state).Gives
      place.Allows := by
  refine gives_andThen _ fun value after => ?_
  split
  · exact h.executeBody hbody after
  · exact h.executeFirst _ halternatives hfallback after

theorem executeLoop (sense : Sense) (condition : Expr) {body : List Stmt}
    (hbody : Stmt.arePlaced place.loopBody body) (rounds : Nat) (state : State) :
    (interpreter.executeLoop sense condition body rounds state).Gives place.Allows := by
  induction rounds generalizing state with
  | zero => trivial
  | succ rounds ih =>
      refine gives_andThen _ fun value after => ?_
      split
      · refine (h.executeBody hbody after).andThen fun flow after hflow => ?_
        split
        · next hround => exact Place.allows_afterRound hflow hround
        · exact ih after
      · trivial

theorem executePostLoop (sense : Sense) (condition : Expr) {body : List Stmt}
    (hbody : Stmt.arePlaced place.loopBody body) (rounds : Nat) (state : State) :
    (interpreter.executePostLoop sense body condition rounds state).Gives place.Allows := by
  induction rounds generalizing state with
  | zero => trivial
  | succ rounds ih =>
      refine (h.executeBody hbody state).andThen fun flow after hflow => ?_
      split
      · next hround => exact Place.allows_afterRound hflow hround
      · refine gives_andThen _ fun value after => ?_
        split
        · exact ih after
        · trivial

theorem executeRounds (name : String) {body : List Stmt}
    (hbody : Stmt.arePlaced place.loopBody body) (items : List Value) (state : State) :
    (interpreter.executeRounds name body items state).Gives place.Allows := by
  induction items generalizing state with
  | nil => trivial
  | cons item rest ih =>
      refine (h.executeBody hbody (state.bind name item)).andThen fun flow after hflow => ?_
      split
      · next hround => exact Place.allows_afterRound hflow hround
      · exact ih after

theorem executeStmt {statement : Stmt} (hplaced : statement.isPlaced place) (state : State) :
    (interpreter.executeStmt statement state).Gives place.Allows := by
  cases statement with
  | declare _ name value => exact interpreter.allows_executeDeclare place name value state
  | sub _ name parameters body => exact allows_executeSub place name parameters body state
  | conditional _ sense condition body alternatives fallback =>
      simp only [Stmt.isPlaced, Bool.and_eq_true] at hplaced
      obtain ⟨⟨⟨-, hbody⟩, halternatives⟩, hfallback⟩ := hplaced
      exact h.executeConditional sense condition hbody halternatives hfallback state
  | loop _ sense condition body =>
      simp only [Stmt.isPlaced, Bool.and_eq_true] at hplaced
      exact h.executeLoop sense condition hplaced.2 _ state
  | postLoop _ sense body condition =>
      simp only [Stmt.isPlaced, Bool.and_eq_true] at hplaced
      exact h.executePostLoop sense condition hplaced.2 _ state
  | each _ name iterable body =>
      simp only [Stmt.isPlaced, Bool.and_eq_true] at hplaced
      refine gives_andThen _ fun subject after => gives_andThen _ fun items after => ?_
      exact h.executeRounds name hplaced.2 items after
  | choose _ cases fallback =>
      simp only [Stmt.isPlaced, Bool.and_eq_true] at hplaced
      exact h.executeFirst _ hplaced.1 hplaced.2 state
  | compare _ subject cases fallback =>
      simp only [Stmt.isPlaced, Bool.and_eq_true] at hplaced
      exact gives_andThen _ fun subject after => h.executeFirst _ hplaced.1.2 hplaced.2 after
  | call => exact gives_map _ fun _ => trivial
  | returns _ value =>
      simp only [Stmt.isPlaced, Bool.and_eq_true] at hplaced
      exact gives_map _ fun _ => hplaced.1
  | assign => exact gives_map _ fun _ => trivial
  | breaks => exact hplaced
  | next => exact hplaced
  | step => exact gives_map _ fun _ => trivial

end KeepsPlaces

theorem keepsPlaces_ofFuel (fuel : Nat) : (ofFuel fuel).KeepsPlaces := by
  induction fuel with
  | zero => exact fun _ _ => trivial
  | succ fuel ih => exact fun hplaced state => (ih.executeStmt hplaced state).locatedAt _

end Interpreter

/-- The error says that a `return` is not in a sub, or a `break` or `next` not in a loop. -/
def RuntimeError.IsMisplacement (error : RuntimeError) : Prop :=
  error.kind = .returnOutsideFunction ∨ error.kind = .loopControlOutsideLoop

/-- All that is executed and stored is placed well. -/
def Regime.placed : Regime where
  code := Code.IsPlaced
  callable made := made.isPlaced
  property _ := True
  failure error := ¬ error.IsMisplacement
  code_of_part := Code.IsPlaced.part
  code_of_callable h := Callable.isPlaced_parts h _
  callable_of_made := Code.IsPlaced.made
  failure_of_isOrdinary := by
    rintro error h (hkind | hkind)
    · exact h.kind (hkind ▸ rfl)
    · exact h.kind (hkind ▸ rfl)
  failure_stackOverflow _ := nofun
  failure_locatedAt h _ := h

namespace Interpreter

theorem confines_placed (fuel : Nat) : (ofFuel fuel).Confines .placed := by
  intro name parameters body hcallable state
  have hflow := KeepsPlaces.executeBody (keepsPlaces_ofFuel fuel) hcallable state
  exact hflow.imp fun flow hallowed hloop =>
    absurd hloop (Place.not_isLoopControl_of_allows hallowed)

theorem follows_placed (fuel : Nat) : (ofFuel fuel).Follows .placed fun _ => True := by
  have hfailure : ¬ RuntimeError.invalidTarget.IsMisplacement := by
    rintro (h | h) <;> exact nomatch h
  have hconfines (fuel active : Nat) :
      (stoppingUnless (fun _ => true) .invalidTarget fuel active).Confines .placed := by
    rw [stoppingUnless_true]
    exact confines_placed fuel
  have h := follows_stoppingUnless (fun _ _ => True) hfailure (fun _ _ _ _ => trivial)
    (fun _ _ _ _ => trivial) hconfines fuel 0
  rwa [stoppingUnless_true] at h

end Interpreter

open Interpreter

/-- The body of every callable in the heap is placed well. -/
def Heap.IsPlaced (heap : Heap) : Prop :=
  ∀ callable ∈ heap.functions, callable.isPlaced

/-- **Control stays where it belongs.** A run of a program that is placed well, from a state whose
stored callables are, never fails because of a `return` outside of a sub or a `break` or `next`
outside of a loop, and leaves such a state behind. -/
theorem control_stays_placed (fuel : Nat) (program : Program) (state : State)
    (hprogram : Stmt.arePlaced .outermost program) (hstate : state.heap.IsPlaced) :
    ((ofFuel fuel).run program state).Fails (fun failure =>
      failure.kind ≠ .returnOutsideFunction ∧ failure.kind ≠ .loopControlOutsideLoop) ∧
    ((ofFuel fuel).run program state).Ends fun after => after.heap.IsPlaced := by
  have hcode : Regime.placed.All (Code.ofBody program) := Code.isPlaced_ofBody hprogram
  have hflow : ∀ statement ∈ program, ∀ state, ((ofFuel fuel).execute statement state).Gives
      fun flow => flow = .normal ∨ Regime.placed.IsLenient := by
    intro statement hstatement state
    have hplaced := Stmt.isPlaced_of_mem hprogram hstatement
    exact (keepsPlaces_ofFuel fuel hplaced state).imp fun flow hallowed =>
      .inl (Place.eq_normal_of_allows hallowed)
  obtain ⟨hends, hfails⟩ := (follows_placed fuel).run hcode hflow state hstate
  exact ⟨hfails.imp fun failure hfailure => not_or.mp hfailure,
    hends.imp fun after hafter => hafter.admits hstate⟩

/-- A loop in a sub that returns, and a sub in a loop that is left by a `break`. -/
def placedProgram : Program :=
  [.sub .first "f" ["x"] [.loop .first .whenTrue (.boolean .first true)
      [.choose .first [.mk (.name .first "x") [.returns .first (some (.name .first "x"))]]
        (some [.breaks .first])]],
    .postLoop .first .whenTrue [.sub .first "g" [] [.returns .first none],
      .call .first (.name .first "f") [.boolean .first true],
      .call .first (.name .first "g") [], .breaks .first] (.boolean .first true)]

theorem control_stays_placed_placedProgram :
    Stmt.arePlaced .outermost placedProgram ∧ State.blank.heap.IsPlaced ∧
      ∃ after, (ofFuel 20).run placedProgram .blank = .ok () after ∧ after.heap.IsPlaced := by
  have hprogram : Stmt.arePlaced .outermost placedProgram := by decide
  have hstate : State.blank.heap.IsPlaced := by
    intro callable hcallable
    exact absurd hcallable (Array.not_mem_empty callable)
  obtain ⟨-, hends⟩ := control_stays_placed 20 placedProgram .blank hprogram hstate
  exact ⟨hprogram, hstate, _, rfl, hends⟩

end ScriptEngine
