import ScriptEngine.Proofs.Execution.Fuel
import ScriptEngine.Proofs.Library.Carrying
import ScriptEngine.Proofs.Program.Nodes

/-!
# Where errors are raised

An interpreter that is cut short as soon as a part of a program fails shows which errors a rule
raises of its own. Most of them have no place, so that the rule gives them
the place of its node. The others have the place of a part that the rule checks by itself: a key, a
target, or what a loop runs over.
-/

namespace ScriptEngine

open Outcome Interpreter

/-- The place of the error, if it has one, is among the given ones. -/
def RuntimeError.IsPlacedIn (error : RuntimeError) (places : List Position) : Prop :=
  ∀ position ∈ error.position, position ∈ places

namespace RuntimeError

variable {error : RuntimeError} {places : List Position}

theorem position_locatedAt_ne_none (error : RuntimeError) (position : Position) :
    (error.locatedAt position).position ≠ none := by
  obtain ⟨kind, message, place⟩ := error
  cases place <;> nofun

/-- An error that has a place keeps it. -/
theorem locatedAt_of_position (h : error.position ≠ none) (position : Position) :
    error.locatedAt position = error := by
  obtain ⟨kind, message, place⟩ := error
  cases place with
  | none => exact absurd rfl h
  | some place => rfl

theorem isPlacedIn_of_none (h : error.position = none) : error.IsPlacedIn places := by
  intro position hposition
  rw [h] at hposition
  exact absurd hposition (Option.not_mem_none position)

theorem IsPlacedIn.position_eq_none (h : error.IsPlacedIn []) : error.position = none :=
  Option.eq_none_iff_forall_not_mem.mpr fun position hposition =>
    absurd (h position hposition) List.not_mem_nil

theorem IsPlacedIn.mono {others : List Position} (h : error.IsPlacedIn places)
    (hsubset : places ⊆ others) : error.IsPlacedIn others :=
  fun position hposition => hsubset (h position hposition)

theorem IsPlacedIn.locatedAt {position : Position} (h : error.IsPlacedIn places)
    (hposition : position ∈ places) : (error.locatedAt position).IsPlacedIn places := by
  intro place hplace
  cases hknown : error.position with
  | none =>
      simp only [RuntimeError.locatedAt, hknown] at hplace
      exact Option.some.inj hplace ▸ hposition
  | some known =>
      simp only [RuntimeError.locatedAt, hknown] at hplace
      exact h place (hknown.trans hplace)

end RuntimeError

namespace Outcome

variable {α β : Type}

theorem Fails.andThen {holds : RuntimeError → Prop} {outcome : Outcome α}
    {next : α → State → Outcome β} (h : outcome.Fails holds)
    (hnext : ∀ value state, (next value state).Fails holds) :
    (outcome.andThen next).Fails holds := by
  cases outcome with
  | ok value state => exact hnext value state
  | _ => exact h

theorem Fails.map {holds : RuntimeError → Prop} {outcome : Outcome α} (h : outcome.Fails holds)
    (transform : α → β) : (outcome.map transform).Fails holds :=
  h.andThen fun _ _ => trivial

theorem Fails.mapState {holds : RuntimeError → Prop} {outcome : Outcome α}
    (h : outcome.Fails holds) (change : State → State) : (outcome.mapState change).Fails holds := by
  cases outcome <;> exact h

/-- The step succeeds, or does not end. -/
def NeverFails (outcome : Outcome α) : Prop :=
  outcome.Fails fun _ => False

/-- Whatever the step fails with has no place, or one of the given ones. -/
def FailsWithin (places : List Position) (outcome : Outcome α) : Prop :=
  outcome.Fails (·.IsPlacedIn places)

theorem NeverFails.within {outcome : Outcome α} (h : outcome.NeverFails) (places : List Position) :
    outcome.FailsWithin places :=
  h.imp fun _ => False.elim

namespace FailsWithin

variable {places : List Position} {state : State}

theorem unplaced {failure : RuntimeError} (h : failure.position = none) :
    (Outcome.error failure state : Outcome α).FailsWithin places :=
  RuntimeError.isPlacedIn_of_none h

theorem ofExcept {result : Except RuntimeError α} (h : FailsPlainly result) :
    (Outcome.ofExcept result state).FailsWithin places := by
  cases result with
  | ok value => trivial
  | error failure => exact unplaced (h failure rfl).position

theorem andThen {outcome : Outcome α} {next : α → State → Outcome β}
    (h : outcome.FailsWithin places)
    (hnext : ∀ value state, (next value state).FailsWithin places) :
    (outcome.andThen next).FailsWithin places :=
  Fails.andThen h hnext

theorem mono {others : List Position} {outcome : Outcome α} (h : outcome.FailsWithin places)
    (hsubset : places ⊆ others) : outcome.FailsWithin others :=
  h.imp fun _ hfailure => hfailure.mono hsubset

theorem locatedAt {position : Position} {outcome : Outcome α} (h : outcome.FailsWithin places)
    (hposition : position ∈ places) : (outcome.locatedAt position).FailsWithin places := by
  cases outcome with
  | error failure state => exact RuntimeError.IsPlacedIn.locatedAt h hposition
  | _ => trivial

end FailsWithin

/-- Cuts a step short that fails. -/
def withoutFailure : Outcome α → Outcome α
  | error _ _ => outOfFuel
  | other => other

theorem neverFails_withoutFailure (outcome : Outcome α) : outcome.withoutFailure.NeverFails := by
  cases outcome <;> trivial

end Outcome

/-! ### Library functions -/

/-- Errors lose their places, and nothing else is changed. -/
def Transfer.unplaced : Transfer where
  state := id
  error failure := { failure with position := none }
  admits _ := True
  lenient := False
  error_of_isPlain := by
    rintro ⟨kind, message, position⟩ h
    exact congrArg _ h.position.symm
  admits_of_eq _ _ _ _ := trivial
  world_state _ := rfl
  heap_state _ := rfl
  printFunction_state _ := rfl
  state_withWorld _ _ := rfl
  state_withHeap h := by rw [id, id, ← h]; rfl

/-- A step is the same without the places of errors if its errors have none. -/
theorem Transfer.carries_unplaced_iff {α : Type} {outcome : Outcome α} :
    unplaced.Carries outcome outcome ↔ outcome.FailsWithin [] := by
  constructor
  · intro h
    have hagrees := h.agrees.resolve_right And.left
    cases outcome with
    | error failure state =>
        have hplace : failure.position = none :=
          congrArg RuntimeError.position (Outcome.error.inj hagrees).1
        exact .unplaced hplace
    | _ => trivial
  · intro h
    cases outcome with
    | ok value state => exact .ok trivial value
    | error failure state =>
        refine ⟨trivial, .inl (congrArg (Outcome.error · state) ?_)⟩
        obtain ⟨kind, message, position⟩ := failure
        exact congrArg _ h.position_eq_none
    | aborted => exact .aborted
    | outOfFuel => exact .outOfFuel

/-- A library function knows no places: its errors have none, unless those of its callbacks do. -/
theorem Operation.failsWithin_perform {call : Caller}
    (hcall : ∀ callee arguments state, (call callee arguments state).FailsWithin [])
    (operation : Operation) (arguments : List Value) (state : State) :
    (operation.perform call arguments state).FailsWithin [] := by
  have hcarries (callee : Value) (arguments : List Value) (start : State) (_ : True) :
      Transfer.unplaced.Carries (call callee arguments start)
        (call callee arguments (Transfer.unplaced.state start)) :=
    Transfer.carries_unplaced_iff.mpr (hcall callee arguments start)
  have hadmits : Transfer.unplaced.admits state := trivial
  exact Transfer.carries_unplaced_iff.mp
    (Operation.carries_perform hcarries hadmits operation arguments)

/-! ### Rules -/

namespace State

variable {places : List Position}

theorem failsWithin_assign (state : State) (name : String) (value : Value) :
    (state.assign name value).FailsWithin places := by
  unfold assign
  split
  · trivial
  · exact .unplaced rfl

theorem failsWithin_stepName (state : State) (name : String) (delta : Number) :
    (state.stepName name delta).FailsWithin places := by
  unfold stepName
  split
  · exact .unplaced rfl
  · exact (FailsWithin.ofExcept (failsPlainly_stepped _ _)).andThen fun value state =>
      (state.failsWithin_assign name value).map _

theorem failsWithin_stepSlot (state : State) (slot : Slot) (delta : Number) :
    (state.stepSlot slot delta).FailsWithin places :=
  (FailsWithin.ofExcept (failsPlainly_stepped _ _)).andThen fun _ _ => trivial

theorem failsWithin_declare (state : State) (name : String) (value : Value) :
    (state.declare name value).FailsWithin places := by
  unfold declare
  split
  · trivial
  · exact .unplaced rfl

theorem neverFails_newPairs (state : State) (entries : List (Key × Value)) :
    (state.newPairs entries).NeverFails := by
  induction entries generalizing state with
  | nil => trivial
  | cons entry rest ih => exact (ih _).map _

theorem failsWithin_iterationItems (state : State) (subject : Value) :
    (state.iterationItems subject).FailsWithin places := by
  unfold iterationItems
  split
  · trivial
  · exact (state.neverFails_newPairs _).within places
  · exact .unplaced rfl

end State

/-- The places that the rule for a node gives errors by itself, besides that of the node. -/
def Code.checkedPlaces : Code → List Position
  | expression (.hash _ entries) => entries.map fun entry => entry.key.position
  | statement (.each _ _ iterable _) => [iterable.position]
  | statement (.assign _ target _) => [target.position]
  | _ => []

namespace Interpreter

/-- The parts of a program never fail, and what a call fails with has no place. -/
structure IsUnfailing (interpreter : Interpreter) : Prop where
  evaluate (expression : Expr) (state : State) : (interpreter.evaluate expression state).NeverFails
  execute (statement : Stmt) (state : State) : (interpreter.execute statement state).NeverFails
  call (callee : Value) (arguments : List Value) (state : State) :
    (interpreter.call callee arguments state).FailsWithin []

namespace IsUnfailing

variable {interpreter : Interpreter} (h : interpreter.IsUnfailing) {places : List Position}
include h

/-! ### Expressions -/

theorem evaluateAll (expressions : List Expr) (state : State) :
    (interpreter.evaluateAll expressions state).NeverFails := by
  induction expressions generalizing state with
  | nil => trivial
  | cons expression rest ih =>
      exact (h.evaluate expression state).andThen fun value state => (ih state).map _

theorem evaluateOr (default : Value) (expression : Option Expr) (state : State) :
    (interpreter.evaluateOr default expression state).NeverFails := by
  cases expression with
  | none => trivial
  | some expression => exact h.evaluate expression state

theorem evaluateEntries (entries : List Entry) (table : Table) (state : State) :
    (interpreter.evaluateEntries entries table state).FailsWithin
      (entries.map fun entry => entry.key.position) := by
  induction entries generalizing table state with
  | nil => trivial
  | cons entry rest ih =>
      refine ((h.evaluate entry.key state).within _).andThen fun key state => ?_
      refine ((FailsWithin.ofExcept (failsPlainly_toKey key)).locatedAt
        List.mem_cons_self).andThen fun key state => ?_
      refine ((h.evaluate entry.value state).within _).andThen fun value state => ?_
      exact (ih _ state).mono (List.subset_cons_self _ _)

theorem evaluateIndex (object index : Expr) (state : State) :
    (interpreter.evaluateIndex object index state).FailsWithin places := by
  refine ((h.evaluate object state).within _).andThen fun container state => ?_
  refine ((h.evaluate index state).within _).andThen fun index state => ?_
  exact (FailsWithin.ofExcept (state.heap.failsPlainly_indexSlot container index
    RuntimeError.isOrdinary_notIndexable)).map _

theorem evaluateMember (object : Expr) (property : String) (state : State) :
    (interpreter.evaluateMember object property state).FailsWithin places := by
  refine ((h.evaluate object state).within _).andThen fun container state => ?_
  exact (FailsWithin.ofExcept (state.heap.failsPlainly_memberSlot container property)).map _

theorem evaluateCall (callee : Expr) (arguments : List Expr) (state : State) :
    (interpreter.evaluateCall callee arguments state).FailsWithin places := by
  refine ((h.evaluate callee state).within _).andThen fun callee state => ?_
  refine ((h.evaluateAll arguments state).within _).andThen fun arguments state => ?_
  exact (h.call callee arguments state).mono (List.nil_subset _)

theorem evaluateBinary (operator : BinaryOperator) (left right : Expr) (state : State) :
    (interpreter.evaluateBinary operator left right state).FailsWithin places := by
  refine ((h.evaluate left state).within _).andThen fun left state => ?_
  split
  · trivial
  · refine ((h.evaluate right state).within _).andThen fun right state => ?_
    exact .ofExcept (state.heap.failsPlainly_applyBinary operator left right)

theorem stepTarget (target : Expr) (delta : Number) (state : State) :
    (interpreter.stepTarget target delta state).FailsWithin places := by
  cases target with
  | name _ name => exact state.failsWithin_stepName name delta
  | index _ object index =>
      refine ((h.evaluate object state).within _).andThen fun container state => ?_
      refine ((h.evaluate index state).within _).andThen fun index state => ?_
      have hslot := state.heap.failsPlainly_indexSlot container index
        RuntimeError.isOrdinary_notIndexable
      exact (FailsWithin.ofExcept hslot).andThen fun slot state =>
        state.failsWithin_stepSlot slot delta
  | member _ object property =>
      refine ((h.evaluate object state).within _).andThen fun container state => ?_
      have hslot := state.heap.failsPlainly_memberSlot container property
      exact (FailsWithin.ofExcept hslot).andThen fun slot state =>
        state.failsWithin_stepSlot slot delta
  | _ => exact .unplaced rfl

theorem step (direction : Direction) (target : Expr) (amount : Option Expr) (state : State) :
    (interpreter.step direction target amount state).FailsWithin places := by
  refine ((h.evaluateOr _ amount state).within _).andThen fun amount state => ?_
  cases amount with
  | number amount => exact h.stepTarget target _ state
  | _ => exact .unplaced rfl

theorem evaluateExpr (expression : Expr) (state : State) :
    (interpreter.evaluateExpr expression state).FailsWithin
      (Code.expression expression).checkedPlaces := by
  cases expression with
  | array _ elements =>
      exact ((h.evaluateAll elements state).within _).andThen fun values state => trivial
  | hash _ entries => exact (h.evaluateEntries entries .empty state).andThen fun _ _ => trivial
  | name _ name =>
      change (evaluateName name state).FailsWithin []
      unfold evaluateName
      split
      · trivial
      · exact .unplaced rfl
  | index _ object index => exact h.evaluateIndex object index state
  | member _ object property => exact h.evaluateMember object property state
  | call _ callee arguments => exact h.evaluateCall callee arguments state
  | unary _ operator operand =>
      exact ((h.evaluate operand state).within _).andThen fun operand state =>
        .ofExcept (failsPlainly_applyUnary operator operand)
  | binary _ operator left right => exact h.evaluateBinary operator left right state
  | step _ direction target amount => exact h.step direction target amount state
  | _ => trivial

/-! ### Statements -/

theorem executeBody (body : List Stmt) (state : State) :
    (interpreter.executeBody body state).NeverFails := by
  induction body generalizing state with
  | nil => trivial
  | cons statement rest ih =>
      refine (h.execute statement state).andThen fun flow state => ?_
      cases flow with
      | normal => exact ih state
      | _ => trivial

theorem executeFirst (accepts : Value → Bool) (branches : List Branch)
    (fallback : Option (List Stmt)) (state : State) :
    (interpreter.executeFirst accepts branches fallback state).NeverFails := by
  induction branches generalizing state with
  | nil =>
      cases fallback with
      | none => trivial
      | some body => exact h.executeBody body state
  | cons branch rest ih =>
      refine (h.evaluate branch.condition state).andThen fun value state => ?_
      split
      · exact h.executeBody branch.body state
      · exact ih state

theorem executeConditional (sense : Sense) (condition : Expr) (body : List Stmt)
    (alternatives : List Branch) (fallback : Option (List Stmt)) (state : State) :
    (interpreter.executeConditional sense condition body alternatives fallback
      state).NeverFails := by
  refine (h.evaluate condition state).andThen fun value state => ?_
  split
  · exact h.executeBody body state
  · exact h.executeFirst _ alternatives fallback state

theorem executeLoop (sense : Sense) (condition : Expr) (body : List Stmt) (rounds : Nat)
    (state : State) : (interpreter.executeLoop sense condition body rounds state).NeverFails := by
  induction rounds generalizing state with
  | zero => trivial
  | succ rounds ih =>
      refine (h.evaluate condition state).andThen fun value state => ?_
      split
      · refine (h.executeBody body state).andThen fun flow state => ?_
        split
        · trivial
        · exact ih state
      · trivial

theorem executePostLoop (sense : Sense) (body : List Stmt) (condition : Expr) (rounds : Nat)
    (state : State) :
    (interpreter.executePostLoop sense body condition rounds state).NeverFails := by
  induction rounds generalizing state with
  | zero => trivial
  | succ rounds ih =>
      refine (h.executeBody body state).andThen fun flow state => ?_
      split
      · trivial
      · refine (h.evaluate condition state).andThen fun value state => ?_
        split
        · exact ih state
        · trivial

theorem executeCompare (subject : Expr) (cases : List Branch) (fallback : Option (List Stmt))
    (state : State) : (interpreter.executeCompare subject cases fallback state).NeverFails :=
  (h.evaluate subject state).andThen fun _ state => h.executeFirst _ cases fallback state

theorem executeRounds (name : String) (body : List Stmt) (items : List Value) (state : State) :
    (interpreter.executeRounds name body items state).NeverFails := by
  induction items generalizing state with
  | nil => trivial
  | cons item rest ih =>
      refine (h.executeBody body _).andThen fun flow state => ?_
      split
      · trivial
      · exact ih state

theorem executeDeclare (name : String) (value : Option Expr) (state : State) :
    (interpreter.executeDeclare name value state).FailsWithin places := by
  unfold Interpreter.executeDeclare
  split
  · exact .unplaced rfl
  · exact ((h.evaluateOr _ value state).within _).andThen fun value state =>
      (state.failsWithin_declare name value).map _

theorem executeEach (name : String) (iterable : Expr) (body : List Stmt) (state : State) :
    (interpreter.executeEach name iterable body state).FailsWithin [iterable.position] := by
  refine ((h.evaluate iterable state).within _).andThen fun subject state => ?_
  refine ((state.failsWithin_iterationItems subject).locatedAt List.mem_cons_self).andThen
    fun items state => ?_
  exact (h.executeRounds name body items state).within _

theorem assignIndex {position : Position} (hposition : position ∈ places)
    (object index value : Expr) (state : State) :
    (interpreter.assignIndex position object index value state).FailsWithin places := by
  refine ((h.evaluate object state).within _).andThen fun container state => ?_
  refine ((h.evaluate index state).within _).andThen fun index state => ?_
  have hfind (state : State) :
      ((Outcome.ofExcept (state.heap.indexSlot container index .notIndexAssignable)
        state).locatedAt position).FailsWithin places :=
    (FailsWithin.ofExcept (state.heap.failsPlainly_indexSlot container index
      RuntimeError.isOrdinary_notIndexAssignable)).locatedAt hposition
  refine (hfind state).andThen fun slot state => ?_
  refine ((h.evaluate value state).within _).andThen fun value state => ?_
  cases container with
  | array ref => exact (hfind state).andThen fun slot state => trivial
  | _ => trivial

theorem assignMember {position : Position} (hposition : position ∈ places) (object : Expr)
    (property : String) (value : Expr) (state : State) :
    (interpreter.assignMember position object property value state).FailsWithin places := by
  refine ((h.evaluate object state).within _).andThen fun container state => ?_
  have hslot := Heap.failsPlainly_newMemberSlot container property
  refine ((FailsWithin.ofExcept hslot).locatedAt hposition).andThen fun slot state => ?_
  exact ((h.evaluate value state).within _).andThen fun value state => trivial

theorem assign (target value : Expr) (state : State) :
    (interpreter.assign target value state).FailsWithin [target.position] := by
  have hposition : target.position ∈ [target.position] := List.mem_cons_self
  cases target with
  | name _ name =>
      refine ((h.evaluate value state).within _).andThen fun value state => ?_
      exact (state.failsWithin_assign name value).locatedAt hposition
  | index _ object index => exact h.assignIndex hposition object index value state
  | member _ object property => exact h.assignMember hposition object property value state
  | _ => exact (RuntimeError.isPlacedIn_of_none rfl).locatedAt hposition

theorem executeStmt (statement : Stmt) (state : State) :
    (interpreter.executeStmt statement state).FailsWithin
      (Code.statement statement).checkedPlaces := by
  cases statement with
  | declare _ name value => exact h.executeDeclare name value state
  | sub _ name parameters body => exact (State.failsWithin_declare _ name _).map _
  | conditional _ sense condition body alternatives fallback =>
      exact (h.executeConditional sense condition body alternatives fallback state).within _
  | loop _ sense condition body => exact (h.executeLoop sense condition body _ state).within _
  | postLoop _ sense body condition =>
      exact (h.executePostLoop sense body condition _ state).within _
  | each _ name iterable body => exact h.executeEach name iterable body state
  | choose _ cases fallback => exact (h.executeFirst _ cases fallback state).within _
  | compare _ subject cases fallback =>
      exact (h.executeCompare subject cases fallback state).within _
  | call _ callee arguments => exact (h.evaluateCall callee arguments state).map _
  | returns _ value => exact ((h.evaluateOr _ value state).within _).map _
  | assign _ target value => exact (h.assign target value state).map _
  | breaks => trivial
  | next => trivial
  | step _ direction target amount => exact (h.step direction target amount state).map _

/-! ### Calls -/

theorem callSub (name : Option String) (parameters : List String) (body : List Stmt)
    (arguments : List Value) (state : State) :
    (interpreter.callSub name parameters body arguments state).FailsWithin places := by
  unfold Interpreter.callSub
  split
  · exact .unplaced rfl
  · refine FailsWithin.andThen (((h.executeBody body _).within _).mapState _) fun flow state => ?_
    cases flow with
    | normal => trivial
    | returns value => trivial
    | breaks => exact .unplaced rfl
    | next => exact .unplaced rfl

theorem callBlock (body : Expr) (arguments : List Value) (state : State) :
    (interpreter.callBlock body arguments state).FailsWithin places := by
  cases arguments with
  | nil => exact .unplaced rfl
  | cons value rest => exact ((h.evaluate body _).within _).mapState _

theorem callNative (native : Native) (arguments : List Value) (state : State) :
    (interpreter.callNative native arguments state).FailsWithin [] := by
  unfold Interpreter.callNative
  dsimp only
  split
  · exact (native.operation.failsWithin_perform h.call arguments state).andThen
      fun result state => trivial
  · exact .unplaced rfl

theorem callValue (callee : Value) (arguments : List Value) (state : State) :
    (interpreter.callValue callee arguments state).FailsWithin [] := by
  unfold Interpreter.callValue
  split
  · split
    · exact .unplaced rfl
    · split
      · refine Fails.mapState ?_ _
        unfold Interpreter.callCallable
        split
        · exact h.callSub _ _ _ arguments _
        · exact h.callBlock _ arguments _
        · exact h.callNative _ arguments _
      · exact .unplaced rfl
  · exact .unplaced rfl

end IsUnfailing

/-- The interpreter `ofFuel fuel`, but for that it is cut short as soon as a part of a program
fails. -/
def unfailing : Nat → Interpreter
  | 0 => ofFuel 0
  | fuel + 1 =>
    { evaluate := fun expression state =>
        ((unfailing fuel).evaluateExpr expression state).withoutFailure
      execute := fun statement state =>
        ((unfailing fuel).executeStmt statement state).withoutFailure
      call := fun callee arguments state => (unfailing fuel).callValue callee arguments state
      rounds := fuel }

theorem isUnfailing_unfailing (fuel : Nat) : (unfailing fuel).IsUnfailing := by
  induction fuel with
  | zero => exact ⟨fun _ _ => trivial, fun _ _ => trivial, fun _ _ _ => trivial⟩
  | succ fuel ih =>
      exact ⟨fun _ _ => neverFails_withoutFailure _, fun _ _ => neverFails_withoutFailure _,
        ih.callValue⟩

/-- Unless it is cut short, it does what `ofFuel fuel` does. -/
theorem matches_unfailing (fuel : Nat) :
    (unfailing fuel).MatchesUnless .cutShort (ofFuel fuel) := by
  have hwithout {α : Type} {first second : Outcome α} (h : first.MatchesUnless .cutShort second)
      (position : Position) :
      first.withoutFailure.MatchesUnless .cutShort (second.locatedAt position) := by
    rcases h with rfl | hcut
    · cases first with
      | error failure state => exact .inr rfl
      | _ => exact .inl rfl
    · exact .inr (congrArg withoutFailure hcut)
  induction fuel with
  | zero => exact matches_ofFuel (Nat.le_refl 0)
  | succ fuel ih =>
      exact
        { evaluate := fun expression state => hwithout (ih.evaluateExpr expression state) _
          execute := fun statement state => hwithout (ih.executeStmt statement state) _
          call := ih.callValue
          rounds := .inl rfl }

end Interpreter

end ScriptEngine
