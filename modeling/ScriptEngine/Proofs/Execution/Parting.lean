import ScriptEngine.Execution.Run

/-!
# Interpreters that part

Two interpreters whose answers are the same, or else have parted for good, do the same with every
part of a program, or else have parted for good. What it is to part is left open: nothing but what
follows a step, the frames and levels of calls and the places of errors has to leave it as it is. No
rule looks at more than the success of a step, so that this is a fact about all of them at once: it
gives that more fuel changes nothing and that errors are handed on as they are.
-/

namespace ScriptEngine

open Outcome

/-- The ways in which two steps may part, none of which is undone by what is done after them. -/
structure Parting where
  admits : {α : Type} → Outcome α → Outcome α → Prop
  andThen {α β : Type} {first second : Outcome α} (h : admits first second)
    (next other : α → State → Outcome β) : admits (first.andThen next) (second.andThen other)
  mapState {α : Type} {first second : Outcome α} (h : admits first second)
    (change : State → State) : admits (first.mapState change) (second.mapState change)
  locatedAt {α : Type} {first second : Outcome α} (h : admits first second)
    (position : Position) : admits (first.locatedAt position) (second.locatedAt position)

namespace Parting

/-- A first step that is cut short may part from every other. -/
def CutsShort (parting : Parting) : Prop :=
  ∀ {α : Type} (outcome : Outcome α), parting.admits .outOfFuel outcome

/-- The first of two interpreters may make as many rounds as the second, or fewer if it may be cut
short. -/
def AdmitsRounds (parting : Parting) (fewer rounds : Nat) : Prop :=
  fewer = rounds ∨ fewer ≤ rounds ∧ parting.CutsShort

/-- There is one more round, unless the second interpreter has none left either. -/
theorem AdmitsRounds.exists_pred {parting : Parting} {fewer rounds : Nat}
    (h : parting.AdmitsRounds (fewer + 1) rounds) :
    ∃ left, rounds = left + 1 ∧ parting.AdmitsRounds fewer left := by
  rcases h with rfl | ⟨hle, hcuts⟩
  · exact ⟨fewer, rfl, .inl rfl⟩
  · exact ⟨rounds - 1, by omega, .inr ⟨by omega, hcuts⟩⟩

end Parting

variable {parting : Parting}

/-- The steps end alike, or they have parted. -/
def Outcome.MatchesUnless {α : Type} (parting : Parting) (first second : Outcome α) : Prop :=
  first = second ∨ parting.admits first second

namespace Outcome.MatchesUnless

variable {α β : Type} {first second : Outcome α}

theorem refl (outcome : Outcome α) : outcome.MatchesUnless parting outcome :=
  .inl rfl

theorem andThen {next other : α → State → Outcome β} (h : first.MatchesUnless parting second)
    (hnext : ∀ value state, (next value state).MatchesUnless parting (other value state)) :
    (first.andThen next).MatchesUnless parting (second.andThen other) := by
  rcases h with rfl | hparted
  · cases first with
    | ok value state => exact hnext value state
    | _ => exact refl _
  · exact .inr (parting.andThen hparted next other)

theorem map (h : first.MatchesUnless parting second) (transform : α → β) :
    (first.map transform).MatchesUnless parting (second.map transform) :=
  h.andThen fun _ _ => refl _

theorem mapState (h : first.MatchesUnless parting second) (change : State → State) :
    (first.mapState change).MatchesUnless parting (second.mapState change) :=
  h.imp (congrArg (Outcome.mapState · change)) fun hparted => parting.mapState hparted change

theorem locatedAt (h : first.MatchesUnless parting second) (position : Position) :
    (first.locatedAt position).MatchesUnless parting (second.locatedAt position) :=
  h.imp (congrArg (Outcome.locatedAt · position)) fun hparted => parting.locatedAt hparted position

end Outcome.MatchesUnless

open Outcome.MatchesUnless

/-! ### Library functions -/

/-- Calls end alike, or they have parted. -/
def Caller.MatchesUnless (parting : Parting) (first second : Caller) : Prop :=
  ∀ callee arguments state,
    (first callee arguments state).MatchesUnless parting (second callee arguments state)

section

variable {first second : Caller} (h : first.MatchesUnless parting second)
include h

namespace Callbacks

theorem matches_mapItems (callback : Value) (items : List Value) (results : Array Value)
    (state : State) :
    (mapItems first callback items results state).MatchesUnless parting
      (mapItems second callback items results state) := by
  induction items generalizing results state with
  | nil => exact refl _
  | cons item rest ih => exact (h _ _ state).andThen fun result after => ih _ after

theorem matches_filterItems (callback : Value) (items : List Value) (results : Array Value)
    (state : State) :
    (filterItems first callback items results state).MatchesUnless parting
      (filterItems second callback items results state) := by
  induction items generalizing results state with
  | nil => exact refl _
  | cons item rest ih => exact (h _ _ state).andThen fun result after => ih _ after

theorem matches_foldItems (callback : Value) (items : List Value) (accumulator : Value)
    (state : State) :
    (foldItems first callback items accumulator state).MatchesUnless parting
      (foldItems second callback items accumulator state) := by
  induction items generalizing accumulator state with
  | nil => exact refl _
  | cons item rest ih => exact (h _ _ state).andThen fun result after => ih _ after

end Callbacks

open Callbacks in
theorem CallbackOperation.matches_perform (operation : CallbackOperation)
    (arguments : List Value) (state : State) :
    (operation.perform first arguments state).MatchesUnless parting
      (operation.perform second arguments state) := by
  unfold perform
  refine (refl _).andThen fun items state => ?_
  cases operation with
  | map => exact (matches_mapItems h _ _ _ state).map _
  | filter => exact (matches_filterItems h _ _ _ state).map _
  | reduce =>
      dsimp only
      split
      · exact (matches_foldItems h _ _ _ state).map _
      · exact (matches_foldItems h _ _ _ state).map _
      · exact refl _

theorem HostSteps.matches_perform (steps : HostSteps) (atHand : List Value) (state : State) :
    (steps.perform first atHand state).MatchesUnless parting
      (steps.perform second atHand state) := by
  induction steps generalizing atHand state with
  | single | multiple | refuse => exact refl _
  | write text next ih => exact (refl _).andThen fun _ after => ih _ after
  | print subject next ih => exact ih _ _ state
  | look subject next ih => exact ih _ _ state
  | newArray items next ih => exact (refl _).andThen fun _ after => ih _ after
  | newHash entries next ih => exact (refl _).andThen fun _ after => ih _ after
  | call callee arguments next ih => exact (h _ _ state).andThen fun _ after => ih _ after

theorem Operation.matches_perform (operation : Operation) (arguments : List Value)
    (state : State) :
    (operation.perform first arguments state).MatchesUnless parting
      (operation.perform second arguments state) := by
  cases operation with
  | callback operation => exact operation.matches_perform h arguments state
  | host operation => exact HostSteps.matches_perform h _ arguments state
  | _ => exact refl _

end

namespace Interpreter

/-- The interpreters do the same with the parts of a program, unless they part. -/
structure MatchesUnless (parting : Parting) (first second : Interpreter) : Prop where
  evaluate (expression : Expr) (state : State) :
    (first.evaluate expression state).MatchesUnless parting (second.evaluate expression state)
  execute (statement : Stmt) (state : State) :
    (first.execute statement state).MatchesUnless parting (second.execute statement state)
  call : Caller.MatchesUnless parting first.call second.call
  rounds : parting.AdmitsRounds first.rounds second.rounds

namespace MatchesUnless

variable {first second : Interpreter} (h : first.MatchesUnless parting second)
include h

/-! ### Expressions -/

theorem evaluateAll (expressions : List Expr) (state : State) :
    (first.evaluateAll expressions state).MatchesUnless parting
      (second.evaluateAll expressions state) := by
  induction expressions generalizing state with
  | nil => exact refl _
  | cons expression rest ih =>
      exact (h.evaluate expression state).andThen fun value after => (ih after).map _

theorem evaluateOr (default : Value) (expression : Option Expr) (state : State) :
    (first.evaluateOr default expression state).MatchesUnless parting
      (second.evaluateOr default expression state) := by
  cases expression with
  | none => exact refl _
  | some expression => exact h.evaluate expression state

theorem evaluateEntries (entries : List Entry) (table : Table) (state : State) :
    (first.evaluateEntries entries table state).MatchesUnless parting
      (second.evaluateEntries entries table state) := by
  induction entries generalizing table state with
  | nil => exact refl _
  | cons entry rest ih =>
      refine (h.evaluate entry.key state).andThen fun key state => ?_
      refine (refl _).andThen fun key state => ?_
      exact (h.evaluate entry.value state).andThen fun value state => ih _ state

theorem evaluateIndex (object index : Expr) (state : State) :
    (first.evaluateIndex object index state).MatchesUnless parting
      (second.evaluateIndex object index state) :=
  (h.evaluate object state).andThen fun _ state =>
    (h.evaluate index state).andThen fun _ _ => refl _

theorem evaluateMember (object : Expr) (property : String) (state : State) :
    (first.evaluateMember object property state).MatchesUnless parting
      (second.evaluateMember object property state) :=
  (h.evaluate object state).andThen fun _ _ => refl _

theorem evaluateCall (callee : Expr) (arguments : List Expr) (state : State) :
    (first.evaluateCall callee arguments state).MatchesUnless parting
      (second.evaluateCall callee arguments state) :=
  (h.evaluate callee state).andThen fun callee state =>
    (h.evaluateAll arguments state).andThen fun arguments state => h.call callee arguments state

theorem evaluateBinary (operator : BinaryOperator) (left right : Expr) (state : State) :
    (first.evaluateBinary operator left right state).MatchesUnless parting
      (second.evaluateBinary operator left right state) := by
  refine (h.evaluate left state).andThen fun left state => ?_
  split
  · exact refl _
  · exact (h.evaluate right state).andThen fun right state => refl _

theorem stepTarget (target : Expr) (delta : Number) (state : State) :
    (first.stepTarget target delta state).MatchesUnless parting
      (second.stepTarget target delta state) := by
  cases target with
  | index _ object index =>
      refine (h.evaluate object state).andThen fun container state => ?_
      exact (h.evaluate index state).andThen fun index state => refl _
  | member _ object property =>
      exact (h.evaluate object state).andThen fun container state => refl _
  | _ => exact refl _

theorem step (direction : Direction) (target : Expr) (amount : Option Expr) (state : State) :
    (first.step direction target amount state).MatchesUnless parting
      (second.step direction target amount state) := by
  refine (h.evaluateOr _ amount state).andThen fun amount state => ?_
  cases amount with
  | number amount => exact h.stepTarget target _ state
  | _ => exact refl _

theorem evaluateExpr (expression : Expr) (state : State) :
    (first.evaluateExpr expression state).MatchesUnless parting
      (second.evaluateExpr expression state) := by
  cases expression with
  | array _ elements => exact (h.evaluateAll elements state).andThen fun values state => refl _
  | hash _ entries =>
      exact (h.evaluateEntries entries .empty state).andThen fun table state => refl _
  | index _ object index => exact h.evaluateIndex object index state
  | member _ object property => exact h.evaluateMember object property state
  | call _ callee arguments => exact h.evaluateCall callee arguments state
  | unary _ operator operand =>
      exact (h.evaluate operand state).andThen fun operand state => refl _
  | binary _ operator left right => exact h.evaluateBinary operator left right state
  | step _ direction target amount => exact h.step direction target amount state
  | _ => exact refl _

/-! ### Statements -/

theorem executeBody (body : List Stmt) (state : State) :
    (first.executeBody body state).MatchesUnless parting (second.executeBody body state) := by
  induction body generalizing state with
  | nil => exact refl _
  | cons statement rest ih =>
      refine (h.execute statement state).andThen fun flow after => ?_
      cases flow with
      | normal => exact ih after
      | _ => exact refl _

theorem executeFallback (fallback : Option (List Stmt)) (state : State) :
    (first.executeFallback fallback state).MatchesUnless parting
      (second.executeFallback fallback state) := by
  cases fallback with
  | none => exact refl _
  | some body => exact h.executeBody body state

theorem executeDeclare (name : String) (value : Option Expr) (state : State) :
    (first.executeDeclare name value state).MatchesUnless parting
      (second.executeDeclare name value state) := by
  unfold Interpreter.executeDeclare
  split
  · exact refl _
  · exact (h.evaluateOr _ value state).andThen fun value state => refl _

theorem executeFirst (accepts : Value → Bool) (branches : List Branch)
    (fallback : Option (List Stmt)) (state : State) :
    (first.executeFirst accepts branches fallback state).MatchesUnless parting
      (second.executeFirst accepts branches fallback state) := by
  induction branches generalizing state with
  | nil => exact h.executeFallback fallback state
  | cons branch rest ih =>
      refine (h.evaluate branch.condition state).andThen fun value after => ?_
      split
      · exact h.executeBody branch.body after
      · exact ih after

theorem executeConditional (sense : Sense) (condition : Expr) (body : List Stmt)
    (alternatives : List Branch) (fallback : Option (List Stmt)) (state : State) :
    (first.executeConditional sense condition body alternatives fallback state).MatchesUnless
      parting (second.executeConditional sense condition body alternatives fallback state) := by
  refine (h.evaluate condition state).andThen fun value after => ?_
  split
  · exact h.executeBody body after
  · exact h.executeFirst _ alternatives fallback after

theorem executeLoop (sense : Sense) (condition : Expr) (body : List Stmt) {fewer rounds : Nat}
    (hrounds : parting.AdmitsRounds fewer rounds) (state : State) :
    (first.executeLoop sense condition body fewer state).MatchesUnless parting
      (second.executeLoop sense condition body rounds state) := by
  induction fewer generalizing rounds state with
  | zero =>
      rcases hrounds with rfl | ⟨-, hcuts⟩
      · exact refl _
      · exact .inr (hcuts _)
  | succ fewer ih =>
      obtain ⟨left, rfl, hleft⟩ := hrounds.exists_pred
      refine (h.evaluate condition state).andThen fun value after => ?_
      split
      · refine (h.executeBody body after).andThen fun flow after => ?_
        split
        · exact refl _
        · exact ih hleft after
      · exact refl _

theorem executePostLoop (sense : Sense) (body : List Stmt) (condition : Expr)
    {fewer rounds : Nat} (hrounds : parting.AdmitsRounds fewer rounds) (state : State) :
    (first.executePostLoop sense body condition fewer state).MatchesUnless parting
      (second.executePostLoop sense body condition rounds state) := by
  induction fewer generalizing rounds state with
  | zero =>
      rcases hrounds with rfl | ⟨-, hcuts⟩
      · exact refl _
      · exact .inr (hcuts _)
  | succ fewer ih =>
      obtain ⟨left, rfl, hleft⟩ := hrounds.exists_pred
      refine (h.executeBody body state).andThen fun flow after => ?_
      split
      · exact refl _
      · refine (h.evaluate condition after).andThen fun value after => ?_
        split
        · exact ih hleft after
        · exact refl _

theorem executeRounds (name : String) (body : List Stmt) (items : List Value) (state : State) :
    (first.executeRounds name body items state).MatchesUnless parting
      (second.executeRounds name body items state) := by
  induction items generalizing state with
  | nil => exact refl _
  | cons item rest ih =>
      refine (h.executeBody body (state.bind name item)).andThen fun flow after => ?_
      split
      · exact refl _
      · exact ih after

theorem executeEach (name : String) (iterable : Expr) (body : List Stmt) (state : State) :
    (first.executeEach name iterable body state).MatchesUnless parting
      (second.executeEach name iterable body state) := by
  refine (h.evaluate iterable state).andThen fun subject state => ?_
  exact (refl _).andThen fun items state => h.executeRounds name body items state

theorem assignIndex (position : Position) (object index value : Expr) (state : State) :
    (first.assignIndex position object index value state).MatchesUnless parting
      (second.assignIndex position object index value state) := by
  refine (h.evaluate object state).andThen fun container state => ?_
  refine (h.evaluate index state).andThen fun index state => ?_
  refine (refl _).andThen fun slot state => ?_
  exact (h.evaluate value state).andThen fun value state => refl _

theorem assignMember (position : Position) (object : Expr) (property : String) (value : Expr)
    (state : State) :
    (first.assignMember position object property value state).MatchesUnless parting
      (second.assignMember position object property value state) := by
  refine (h.evaluate object state).andThen fun container state => ?_
  refine (refl _).andThen fun slot state => ?_
  exact (h.evaluate value state).andThen fun value state => refl _

theorem assign (target value : Expr) (state : State) :
    (first.assign target value state).MatchesUnless parting
      (second.assign target value state) := by
  cases target with
  | name => exact (h.evaluate value state).andThen fun value state => refl _
  | index position object index => exact h.assignIndex position object index value state
  | member position object property => exact h.assignMember position object property value state
  | _ => exact refl _

theorem executeStmt (statement : Stmt) (state : State) :
    (first.executeStmt statement state).MatchesUnless parting
      (second.executeStmt statement state) := by
  cases statement with
  | declare _ name value => exact h.executeDeclare name value state
  | conditional _ sense condition body alternatives fallback =>
      exact h.executeConditional sense condition body alternatives fallback state
  | loop _ sense condition body => exact h.executeLoop sense condition body h.rounds state
  | postLoop _ sense body condition =>
      exact h.executePostLoop sense body condition h.rounds state
  | each _ name iterable body => exact h.executeEach name iterable body state
  | choose _ cases fallback => exact h.executeFirst _ cases fallback state
  | compare _ subject cases fallback =>
      exact (h.evaluate subject state).andThen fun subject state =>
        h.executeFirst _ cases fallback state
  | call _ callee arguments => exact (h.evaluateCall callee arguments state).map _
  | returns _ value => exact (h.evaluateOr _ value state).map _
  | assign _ target value => exact (h.assign target value state).map _
  | step _ direction target amount => exact (h.step direction target amount state).map _
  | _ => exact refl _

/-! ### Calls and programs -/

theorem callSub (name : Option String) (parameters : List String) (body : List Stmt)
    (arguments : List Value) (state : State) :
    (first.callSub name parameters body arguments state).MatchesUnless parting
      (second.callSub name parameters body arguments state) := by
  unfold Interpreter.callSub
  split
  · exact refl _
  · exact ((h.executeBody body _).mapState _).andThen fun flow state => refl _

theorem callBlock (body : Expr) (arguments : List Value) (state : State) :
    (first.callBlock body arguments state).MatchesUnless parting
      (second.callBlock body arguments state) := by
  cases arguments with
  | nil => exact refl _
  | cons value rest => exact (h.evaluate body _).mapState _

theorem callNative (native : Native) (arguments : List Value) (state : State) :
    (first.callNative native arguments state).MatchesUnless parting
      (second.callNative native arguments state) := by
  unfold Interpreter.callNative
  dsimp only
  split
  · exact (native.operation.matches_perform h.call arguments state).andThen
      fun result state => refl _
  · exact refl _

theorem callCallable (callable : Callable) (arguments : List Value) (state : State) :
    (first.callCallable callable arguments state).MatchesUnless parting
      (second.callCallable callable arguments state) := by
  cases callable with
  | sub name parameters body => exact h.callSub name parameters body arguments state
  | block body => exact h.callBlock body arguments state
  | native native => exact h.callNative native arguments state

theorem callValue : Caller.MatchesUnless parting first.callValue second.callValue := by
  intro callee arguments state
  cases callee with
  | function ref =>
      unfold Interpreter.callValue
      dsimp only
      split
      · exact refl _
      · split
        · exact (h.callCallable _ arguments _).mapState _
        · exact refl _
  | _ => exact refl _

theorem runStatements (program : Program) (state : State) :
    (first.runStatements program state).MatchesUnless parting
      (second.runStatements program state) := by
  induction program generalizing state with
  | nil => exact refl _
  | cons statement rest ih =>
      refine (h.execute statement state).andThen fun flow after => ?_
      cases flow with
      | normal => exact ih after
      | _ => exact refl _

end MatchesUnless

end Interpreter

end ScriptEngine
