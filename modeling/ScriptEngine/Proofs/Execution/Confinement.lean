import ScriptEngine.Proofs.Library.Obedience
import ScriptEngine.Proofs.Value.Reserve

/-!
# Runs obey policies

Each rule of the interpreter takes values at hand from a state and gives values at hand, provided
that the ways to work on the parts of a program do. Induction on the fuel removes the proviso:
whatever program runs in a state that obeys a policy, it ends in such a state. In particular the
containers of a reserve stay as they are.
-/

namespace ScriptEngine

open Outcome

variable {policy : Policy}

/-- A flow that hands over no value but such as may be at hand. -/
def Flow.IsAllowed (policy : Policy) (heap : Heap) : Flow → Prop
  | returns value => policy.allows heap value
  | _ => True

theorem Flow.IsAllowed.afterRound {heap : Heap} {flow after : Flow} (h : flow.IsAllowed policy heap)
    (hafter : flow.afterRound = some after) : after.IsAllowed policy heap := by
  cases flow with
  | normal => simp [Flow.afterRound] at hafter
  | next => simp [Flow.afterRound] at hafter
  | breaks =>
      rw [← Option.some.inj hafter]
      trivial
  | returns value =>
      rw [← Option.some.inj hafter]
      exact h

/-! ### Operators -/

theorem Value.givesOnly_arithmetic (policy : Policy) (heap : Heap) (operator : BinaryOperator)
    (left right : Value) {apply : Number → Number → Value}
    (h : ∀ a b, (Key.ofValue? (apply a b)).isSome) :
    GivesOnly (policy.allows heap) (Value.arithmetic operator left right apply) := by
  unfold Value.arithmetic
  split
  · exact .ok (policy.allows_scalar heap (h _ _))
  · exact .error

theorem Heap.givesOnly_applyBinary (heap : Heap) (operator : BinaryOperator) (left : Value)
    {right : Value} (hright : policy.allows heap right) :
    GivesOnly (policy.allows heap) (heap.applyBinary operator left right) := by
  have harithmetic {apply : Number → Number → Value}
      (h : ∀ a b, (Key.ofValue? (apply a b)).isSome) :=
    Value.givesOnly_arithmetic policy heap operator left right h
  cases operator with
  | add =>
      change GivesOnly _ (heap.add left right)
      unfold add
      split
      · exact .ok (policy.allows_scalar heap rfl)
      · exact .ok (policy.allows_scalar heap rfl)
      · exact .error
  | modulo =>
      simp only [applyBinary]
      split
      · unfold Value.remainder
        dsimp only
        split
        · exact .error
        · exact .ok (policy.allows_scalar heap rfl)
      · exact .error
  | equal => exact .ok (policy.allows_scalar heap rfl)
  | notEqual => exact .ok (policy.allows_scalar heap rfl)
  | and => exact .ok hright
  | or => exact .ok hright
  | _ => exact harithmetic fun _ _ => rfl

namespace Interpreter

theorem givesOnly_applyUnary (policy : Policy) (heap : Heap) (operator : UnaryOperator)
    (operand : Value) : GivesOnly (policy.allows heap) (applyUnary operator operand) := by
  cases operator with
  | not => exact .ok (policy.allows_scalar heap rfl)
  | negate =>
      change GivesOnly _ operand.negate
      unfold Value.negate
      split
      · exact .ok (policy.allows_scalar heap rfl)
      · exact .error

theorem obeys_evaluateName (name : String) {state : State} (hstate : state.Obeys policy) :
    (evaluateName name state).Obeys policy state.heap policy.allows := by
  unfold evaluateName
  split
  · rename_i value hvalue
    exact .ok hstate (hstate.scopes.lookup? hvalue)
  · exact .error hstate

theorem obeys_executeSub (name : String) (parameters : List String) (body : List Stmt)
    {state : State} (hstate : state.Obeys policy) :
    (executeSub name parameters body state).Obeys policy state.heap (Flow.IsAllowed policy) := by
  refine (hstate.newFunction _).andThen fun value state hvalue _ hstate => ?_
  exact (hstate.declare name hvalue).map fun _ _ _ _ => trivial

/-- What is known of the ways to work on the parts of a program: they take values at hand and give
values at hand. -/
structure Obeys (interpreter : Interpreter) (policy : Policy) : Prop where
  evaluate (expression : Expr) {state : State} (hstate : state.Obeys policy) :
    (interpreter.evaluate expression state).Obeys policy state.heap policy.allows
  execute (statement : Stmt) {state : State} (hstate : state.Obeys policy) :
    (interpreter.execute statement state).Obeys policy state.heap (Flow.IsAllowed policy)
  call : Caller.Obeys policy interpreter.call

namespace Obeys

variable {interpreter : Interpreter} (h : interpreter.Obeys policy) {state : State}
  (hstate : state.Obeys policy)
include h hstate

/-! ### Expressions -/

theorem evaluateAll (expressions : List Expr) :
    (interpreter.evaluateAll expressions state).Obeys policy state.heap policy.allowsAll := by
  induction expressions generalizing state with
  | nil => exact .ok hstate (List.forall_mem_nil _)
  | cons expression rest ih =>
      refine (h.evaluate expression hstate).andThen fun value state hvalue _ hstate => ?_
      refine (ih hstate).map fun values heap hvalues hfits => ?_
      exact List.forall_mem_cons.mpr ⟨policy.allows_mono hfits hvalue, hvalues⟩

theorem evaluateOr {default : Value} (hdefault : policy.allows state.heap default)
    (expression : Option Expr) :
    (interpreter.evaluateOr default expression state).Obeys policy state.heap policy.allows := by
  cases expression with
  | none => exact .ok hstate hdefault
  | some expression => exact h.evaluate expression hstate

theorem evaluateEntries (entries : List Entry) {table : Table}
    (htable : table.All (policy.allows state.heap)) :
    (interpreter.evaluateEntries entries table state).Obeys policy state.heap
      fun heap table => table.All (policy.allows heap) := by
  induction entries generalizing table state with
  | nil => exact .ok hstate htable
  | cons entry rest ih =>
      refine (h.evaluate entry.key hstate).andThen fun key state _ hfirst hstate => ?_
      have hkey : (Outcome.ofExcept key.toKey state).Obeys policy state.heap fun _ _ => True :=
        .ofExcept hstate (.any _)
      refine (hkey.locatedAt _).andThen fun key state _ hsecond hstate => ?_
      refine (h.evaluate entry.value hstate).andThen fun value state hvalue hthird hstate => ?_
      have htable := htable.imp fun _ =>
        policy.allows_mono (hfirst.trans (hsecond.trans hthird))
      exact ih hstate (htable.insert key hvalue)

theorem evaluateIndex (object index : Expr) :
    (interpreter.evaluateIndex object index state).Obeys policy state.heap policy.allows := by
  refine (h.evaluate object hstate).andThen fun container state hcontainer _ hstate => ?_
  refine (h.evaluate index hstate).andThen fun index state _ hfits hstate => ?_
  have hslot := Heap.givesOnly_indexSlot (policy.allows_mono hfits hcontainer) index .notIndexable
  exact .ofExcept_andThen hstate hslot fun slot hslot =>
    .ok hstate (Heap.allows_readSlot hstate.heap hslot)

theorem evaluateMember (object : Expr) (property : String) :
    (interpreter.evaluateMember object property state).Obeys policy state.heap policy.allows := by
  refine (h.evaluate object hstate).andThen fun container state hcontainer _ hstate => ?_
  exact .ofExcept_andThen hstate (Heap.givesOnly_memberSlot hcontainer property) fun slot hslot =>
    .ok hstate (Heap.allows_readSlot hstate.heap hslot)

theorem evaluateCall (callee : Expr) (arguments : List Expr) :
    (interpreter.evaluateCall callee arguments state).Obeys policy state.heap policy.allows := by
  refine (h.evaluate callee hstate).andThen fun callee state _ _ hstate => ?_
  refine (h.evaluateAll hstate arguments).andThen fun arguments state harguments _ hstate => ?_
  exact h.call harguments hstate

theorem evaluateBinary (operator : BinaryOperator) (left right : Expr) :
    (interpreter.evaluateBinary operator left right state).Obeys policy state.heap
      policy.allows := by
  refine (h.evaluate left hstate).andThen fun left state hleft _ hstate => ?_
  split
  · exact .ok hstate hleft
  · refine (h.evaluate right hstate).andThen fun right state hright _ hstate => ?_
    exact .ofExcept hstate (state.heap.givesOnly_applyBinary operator left hright)

theorem stepTarget (target : Expr) (delta : Number) :
    (interpreter.stepTarget target delta state).Obeys policy state.heap policy.allows := by
  unfold Interpreter.stepTarget
  split
  · exact hstate.stepName _ delta
  · refine (h.evaluate _ hstate).andThen fun container state hcontainer _ hstate => ?_
    refine (h.evaluate _ hstate).andThen fun index state _ hfits hstate => ?_
    have hslot := Heap.givesOnly_indexSlot (policy.allows_mono hfits hcontainer) index .notIndexable
    exact .ofExcept_andThen hstate hslot fun slot hslot => hstate.stepSlot hslot delta
  · refine (h.evaluate _ hstate).andThen fun container state hcontainer _ hstate => ?_
    exact .ofExcept_andThen hstate (Heap.givesOnly_memberSlot hcontainer _) fun slot hslot =>
      hstate.stepSlot hslot delta
  · exact .error hstate

theorem step (direction : Direction) (target : Expr) (amount : Option Expr) :
    (interpreter.step direction target amount state).Obeys policy state.heap policy.allows := by
  have hone : policy.allows state.heap (.number 1) := policy.allows_scalar state.heap rfl
  refine (h.evaluateOr hstate hone amount).andThen fun amount state _ _ hstate => ?_
  split
  · exact h.stepTarget hstate target _
  · exact .error hstate

theorem evaluateExpr (expression : Expr) :
    (interpreter.evaluateExpr expression state).Obeys policy state.heap policy.allows := by
  cases expression with
  | number => exact .ok hstate (policy.allows_scalar state.heap rfl)
  | string => exact .ok hstate (policy.allows_scalar state.heap rfl)
  | boolean => exact .ok hstate (policy.allows_scalar state.heap rfl)
  | nil => exact .ok hstate (policy.allows_scalar state.heap rfl)
  | array _ elements =>
      refine (h.evaluateAll hstate elements).andThen fun values state hvalues _ hstate => ?_
      exact hstate.newArray (.ofList hvalues)
  | hash _ entries =>
      refine (h.evaluateEntries hstate entries .empty).andThen fun table state htable _ hstate => ?_
      exact hstate.newHash htable
  | name _ name => exact obeys_evaluateName name hstate
  | index _ object index => exact h.evaluateIndex hstate object index
  | member _ object property => exact h.evaluateMember hstate object property
  | call _ callee arguments => exact h.evaluateCall hstate callee arguments
  | unary _ operator operand =>
      refine (h.evaluate operand hstate).andThen fun operand state _ _ hstate => ?_
      exact .ofExcept hstate (givesOnly_applyUnary policy state.heap operator operand)
  | binary _ operator left right => exact h.evaluateBinary hstate operator left right
  | block _ body => exact hstate.newFunction (.block body)
  | function _ parameters body => exact hstate.newFunction (.sub none parameters body)
  | step _ direction target amount => exact h.step hstate direction target amount

/-! ### Statements -/

theorem executeBody (body : List Stmt) :
    (interpreter.executeBody body state).Obeys policy state.heap (Flow.IsAllowed policy) := by
  induction body generalizing state with
  | nil => exact .ok hstate trivial
  | cons statement rest ih =>
      refine (h.execute statement hstate).andThen fun flow state hflow _ hstate => ?_
      split
      · exact ih hstate
      · exact .ok hstate hflow

theorem executeFallback (fallback : Option (List Stmt)) :
    (interpreter.executeFallback fallback state).Obeys policy state.heap
      (Flow.IsAllowed policy) := by
  cases fallback with
  | none => exact .ok hstate trivial
  | some body => exact h.executeBody hstate body

theorem executeDeclare (name : String) (value : Option Expr) :
    (interpreter.executeDeclare name value state).Obeys policy state.heap
      (Flow.IsAllowed policy) := by
  unfold Interpreter.executeDeclare
  split
  · exact .error hstate
  · have hnil : policy.allows state.heap .nil := policy.allows_scalar state.heap rfl
    refine (h.evaluateOr hstate hnil value).andThen fun value state hvalue _ hstate => ?_
    exact (hstate.declare name hvalue).map fun _ _ _ _ => trivial

theorem executeFirst (accepts : Value → Bool) (branches : List Branch)
    (fallback : Option (List Stmt)) :
    (interpreter.executeFirst accepts branches fallback state).Obeys policy state.heap
      (Flow.IsAllowed policy) := by
  induction branches generalizing state with
  | nil => exact h.executeFallback hstate fallback
  | cons branch rest ih =>
      refine (h.evaluate branch.condition hstate).andThen fun value state _ _ hstate => ?_
      split
      · exact h.executeBody hstate branch.body
      · exact ih hstate

theorem executeConditional (sense : Sense) (condition : Expr) (body : List Stmt)
    (alternatives : List Branch) (fallback : Option (List Stmt)) :
    (interpreter.executeConditional sense condition body alternatives fallback state).Obeys policy
      state.heap (Flow.IsAllowed policy) := by
  refine (h.evaluate condition hstate).andThen fun value state _ _ hstate => ?_
  split
  · exact h.executeBody hstate body
  · exact h.executeFirst hstate _ alternatives fallback

theorem executeLoop (sense : Sense) (condition : Expr) (body : List Stmt) (rounds : Nat) :
    (interpreter.executeLoop sense condition body rounds state).Obeys policy state.heap
      (Flow.IsAllowed policy) := by
  induction rounds generalizing state with
  | zero => exact .outOfFuel
  | succ rounds ih =>
      refine (h.evaluate condition hstate).andThen fun value state _ _ hstate => ?_
      split
      · refine (h.executeBody hstate body).andThen fun flow state hflow _ hstate => ?_
        split
        · rename_i after hafter
          exact .ok hstate (hflow.afterRound hafter)
        · exact ih hstate
      · exact .ok hstate trivial

theorem executePostLoop (sense : Sense) (body : List Stmt) (condition : Expr) (rounds : Nat) :
    (interpreter.executePostLoop sense body condition rounds state).Obeys policy state.heap
      (Flow.IsAllowed policy) := by
  induction rounds generalizing state with
  | zero => exact .outOfFuel
  | succ rounds ih =>
      refine (h.executeBody hstate body).andThen fun flow state hflow _ hstate => ?_
      split
      · rename_i after hafter
        exact .ok hstate (hflow.afterRound hafter)
      · refine (h.evaluate condition hstate).andThen fun value state _ _ hstate => ?_
        split
        · exact ih hstate
        · exact .ok hstate trivial

theorem executeRounds (name : String) (body : List Stmt) {items : List Value}
    (hitems : policy.allowsAll state.heap items) :
    (interpreter.executeRounds name body items state).Obeys policy state.heap
      (Flow.IsAllowed policy) := by
  induction items generalizing state with
  | nil => exact .ok hstate trivial
  | cons item rest ih =>
      obtain ⟨hitem, hrest⟩ := List.forall_mem_cons.mp hitems
      refine (h.executeBody (hstate.bind name hitem) body).andThen
        fun flow state hflow hfits hstate => ?_
      split
      · rename_i after hafter
        exact .ok hstate (hflow.afterRound hafter)
      · exact ih hstate (policy.allowsAll_mono hfits hrest)

theorem executeEach (name : String) (iterable : Expr) (body : List Stmt) :
    (interpreter.executeEach name iterable body state).Obeys policy state.heap
      (Flow.IsAllowed policy) := by
  refine (h.evaluate iterable hstate).andThen fun subject state hsubject _ hstate => ?_
  refine ((hstate.iterationItems hsubject).locatedAt _).andThen
    fun items state hitems _ hstate => ?_
  exact h.executeRounds hstate name body hitems

theorem executeCompare (subject : Expr) (cases : List Branch) (fallback : Option (List Stmt)) :
    (interpreter.executeCompare subject cases fallback state).Obeys policy state.heap
      (Flow.IsAllowed policy) :=
  (h.evaluate subject hstate).andThen fun _ _ _ _ hstate => h.executeFirst hstate _ cases fallback

theorem assignIndex (position : Position) (object index value : Expr) :
    (interpreter.assignIndex position object index value state).Obeys policy state.heap
      fun _ _ => True := by
  refine (h.evaluate object hstate).andThen fun container state hcontainer _ hstate => ?_
  refine (h.evaluate index hstate).andThen fun index state _ hfits hstate => ?_
  have hcontainer := policy.allows_mono hfits hcontainer
  have hfind {state : State} (hstate : state.Obeys policy)
      (hcontainer : policy.allows state.heap container) :=
    (Outcome.Obeys.ofExcept hstate
      (Heap.givesOnly_indexSlot hcontainer index .notIndexAssignable)).locatedAt position
  refine (hfind hstate hcontainer).andThen fun slot state hslot hfound hstate => ?_
  refine (h.evaluate value hstate).andThen fun value state hvalue hfits hstate => ?_
  split
  · -- The place in an array is found a second time, after the value.
    have hcontainer := policy.allows_mono (hfound.trans hfits) hcontainer
    refine (hfind hstate hcontainer).andThen fun slot state hslot hfits hstate => ?_
    exact hstate.writeSlot hslot (policy.allows_mono hfits hvalue)
  · exact hstate.writeSlot (hslot.mono hfits) hvalue

theorem assignMember (position : Position) (object : Expr) (property : String) (value : Expr) :
    (interpreter.assignMember position object property value state).Obeys policy state.heap
      fun _ _ => True := by
  refine (h.evaluate object hstate).andThen fun container state hcontainer _ hstate => ?_
  have hslot := Outcome.Obeys.ofExcept hstate (Heap.givesOnly_newMemberSlot hcontainer property)
  refine (hslot.locatedAt position).andThen fun slot state hslot _ hstate => ?_
  exact (h.evaluate value hstate).andThen fun value state hvalue hfits hstate =>
    hstate.writeSlot (hslot.mono hfits) hvalue

theorem assign (target value : Expr) :
    (interpreter.assign target value state).Obeys policy state.heap fun _ _ => True := by
  unfold Interpreter.assign
  split
  · exact (h.evaluate value hstate).andThen fun value state hvalue _ hstate =>
      (hstate.assign _ hvalue).locatedAt _
  · exact h.assignIndex hstate _ _ _ value
  · exact h.assignMember hstate _ _ _ value
  · exact .error hstate

theorem executeStmt (statement : Stmt) :
    (interpreter.executeStmt statement state).Obeys policy state.heap (Flow.IsAllowed policy) := by
  cases statement with
  | declare _ name value => exact h.executeDeclare hstate name value
  | sub _ name parameters body => exact obeys_executeSub name parameters body hstate
  | conditional _ sense condition body alternatives fallback =>
      exact h.executeConditional hstate sense condition body alternatives fallback
  | loop _ sense condition body => exact h.executeLoop hstate sense condition body _
  | postLoop _ sense body condition => exact h.executePostLoop hstate sense body condition _
  | each _ name iterable body => exact h.executeEach hstate name iterable body
  | choose _ cases fallback => exact h.executeFirst hstate _ cases fallback
  | compare _ subject cases fallback => exact h.executeCompare hstate subject cases fallback
  | call _ callee arguments =>
      exact (h.evaluateCall hstate callee arguments).map fun _ _ _ _ => trivial
  | returns _ value =>
      have hnil : policy.allows state.heap .nil := policy.allows_scalar state.heap rfl
      exact (h.evaluateOr hstate hnil value).map fun _ _ hvalue _ => hvalue
  | assign _ target value => exact (h.assign hstate target value).map fun _ _ _ _ => trivial
  | breaks => exact .ok hstate trivial
  | next => exact .ok hstate trivial
  | step _ direction target amount =>
      exact (h.step hstate direction target amount).map fun _ _ _ _ => trivial

/-! ### Calls -/

variable {arguments : List Value} (harguments : policy.allowsAll state.heap arguments)
include harguments

theorem callSub (name : Option String) (parameters : List String) (body : List Stmt) :
    (interpreter.callSub name parameters body arguments state).Obeys policy state.heap
      policy.allows := by
  unfold Interpreter.callSub
  split
  · exact .error hstate
  · have hframe : (Frame.ofList (parameters.zip arguments)).All (policy.allows state.heap) :=
      .ofList fun binding hbinding => harguments _ (List.of_mem_zip hbinding).2
    have hbody := h.executeBody (hstate.enterCall hframe) body
    refine (hstate.leaveCall hbody).andThen fun flow state hflow _ hstate => ?_
    cases flow with
    | normal => exact .ok hstate (policy.allows_scalar state.heap rfl)
    | returns value => exact .ok hstate hflow
    | breaks => exact .error hstate
    | next => exact .error hstate

theorem callBlock (body : Expr) :
    (interpreter.callBlock body arguments state).Obeys policy state.heap policy.allows := by
  cases arguments with
  | nil => exact .error hstate
  | cons value rest =>
      obtain ⟨hvalue, -⟩ := List.forall_mem_cons.mp harguments
      have hframe : Frame.All (policy.allows state.heap) [(blockParameter, value)] :=
        List.forall_mem_singleton.mpr hvalue
      exact hstate.leaveCall (h.evaluate body (hstate.enterCall hframe))

theorem callNative (native : Native) :
    (interpreter.callNative native arguments state).Obeys policy state.heap policy.allows := by
  unfold Interpreter.callNative
  dsimp only
  split
  · exact (h.call.perform hstate native.operation harguments).andThen
      fun result state hresult _ hstate => hstate.realize hresult
  · exact .error hstate

theorem callCallable (callable : Callable) :
    (interpreter.callCallable callable arguments state).Obeys policy state.heap policy.allows := by
  cases callable with
  | sub name parameters body => exact h.callSub hstate harguments name parameters body
  | block body => exact h.callBlock hstate harguments body
  | native native => exact h.callNative hstate harguments native

theorem callValue (callee : Value) :
    (interpreter.callValue callee arguments state).Obeys policy state.heap policy.allows := by
  unfold Interpreter.callValue
  split
  · split
    · exact .error hstate
    · split
      · rename_i callable _
        have hlevel : (enterLevel state).Obeys policy := ⟨hstate.scopes, hstate.heap⟩
        have hcall := h.callCallable hlevel harguments callable
        exact hcall.mapState (fun _ => rfl) fun _ _ hafter => hafter.scopes
      · exact .error hstate
  · exact .error hstate

end Obeys

/-! ### Programs -/

/-- However deep an interpreter may go, it makes no reference up. -/
theorem obeys_ofFuel (policy : Policy) (fuel : Nat) : (ofFuel fuel).Obeys policy := by
  induction fuel with
  | zero =>
      exact
        { evaluate := fun _ _ _ => .outOfFuel
          execute := fun _ _ _ => .outOfFuel
          call := fun _ _ _ _ _ => .outOfFuel }
  | succ fuel ih =>
      constructor
      · intro expression state hstate
        exact (ih.evaluateExpr hstate expression).locatedAt _
      · intro statement state hstate
        exact (ih.executeStmt hstate statement).locatedAt _
      · intro callee arguments state harguments hstate
        exact ih.callValue hstate harguments callee

theorem Obeys.runStatements {interpreter : Interpreter} (h : interpreter.Obeys policy)
    (program : Program) {state : State} (hstate : state.Obeys policy) :
    (interpreter.runStatements program state).Obeys policy state.heap fun _ _ => True := by
  induction program generalizing state with
  | nil => exact .ok hstate trivial
  | cons statement rest ih =>
      refine (h.execute statement hstate).andThen fun flow state _ _ hstate => ?_
      cases flow with
      | normal => exact ih hstate
      | returns value => exact .error hstate
      | breaks => exact .error hstate
      | next => exact .error hstate

/-- **Runs obey every policy.** A program that runs in a state that obeys a policy ends in such a
state, and keeps the cells of the heap, whether it succeeds or fails. -/
theorem obeys_run (fuel : Nat) (program : Program) {state : State} (hstate : state.Obeys policy) :
    ((ofFuel fuel).run program state).Obeys policy state.heap fun _ _ => True := by
  have hrun := (obeys_ofFuel policy fuel).runStatements program hstate
  unfold Interpreter.run
  revert hrun
  cases (ofFuel fuel).runStatements program state with
  | ok value after => exact fun hrun => hrun.2.1.flush.from_fitsIn hrun.1
  | error failure after => exact fun hrun => hrun
  | aborted => exact fun _ => trivial
  | outOfFuel => exact fun _ => trivial

/-- **A run leaves a reserve alone.** If nothing that a state gives access to is in a reserve, no
program run in it reads or changes a container of the reserve. -/
theorem ends_run {reserve : Reserve} (fuel : Nat) (program : Program) {state : State}
    (hstate : state.Obeys (.sparing reserve)) :
    ((ofFuel fuel).run program state).Ends fun after => after.heap.Spares reserve :=
  (obeys_run fuel program hstate).ends.imp fun _ hafter => hafter.2.heap

end Interpreter

end ScriptEngine
