import ScriptEngine.Proofs.Execution.Runs

/-!
# Interpreters that agree

Two interpreters that do the same with all code of a regime, one of which keeps to the regime, do
the same with everything that is made of such code. An interpreter that stops where the regime never
comes is thus not told from one that does not stop at all. What is called is not known beforehand:
it is some callable of the heap, so that the states have to be admitted, and the states after each
step are because one of the two keeps to the regime.
-/

namespace ScriptEngine

open Outcome

variable {regime : Regime} {activity : Activity} {state : State}

namespace Outcome

variable {α β : Type}

theorem andThen_same {first second : Outcome α} {next : α → State → Outcome β}
    (h : first = second) : first.andThen next = second.andThen next := by
  rw [h]

theorem map_same {first second : Outcome α} {transform : α → β} (h : first = second) :
    first.map transform = second.map transform := by
  rw [h]

theorem mapState_same {first second : Outcome α} {change : State → State} (h : first = second) :
    first.mapState change = second.mapState change := by
  rw [h]

/-- What follows the same step has to be the same only from admitted states. -/
theorem andThen_agree {first second : Outcome α} {next others : α → State → Outcome β}
    (h : first = second) (hfirst : second.AdvancesFrom regime activity state)
    (hstate : regime.Admits state.heap)
    (hnext : ∀ value after, regime.Admits after.heap → next value after = others value after) :
    first.andThen next = second.andThen others := by
  rw [h]
  refine andThen_congr fun value after heq => hnext value after ?_
  have hafter := (hfirst hstate).1
  rw [heq] at hafter
  exact hafter.admits hstate

end Outcome

/-! ### Callbacks -/

/-- Two ways to call do the same from the states that a regime admits. -/
def Caller.AgreesWith (first second : Caller) (regime : Regime) : Prop :=
  ∀ callee arguments {state : State}, regime.Admits state.heap →
    first callee arguments state = second callee arguments state

section

variable {first second : Caller} (h : first.AgreesWith second regime)
  (hcall : ∀ callee arguments state,
    (second callee arguments state).AdvancesFrom regime .hosting state)
include h hcall

namespace Callbacks

theorem agree_mapItems (callback : Value) (items : List Value) (results : Array Value)
    (hstate : regime.Admits state.heap) :
    mapItems first callback items results state = mapItems second callback items results state := by
  induction items generalizing results state with
  | nil => rfl
  | cons item rest ih =>
      exact andThen_agree (h _ _ hstate) (hcall _ _ state) hstate fun _ _ hafter => ih _ hafter

theorem agree_filterItems (callback : Value) (items : List Value) (results : Array Value)
    (hstate : regime.Admits state.heap) :
    filterItems first callback items results state =
      filterItems second callback items results state := by
  induction items generalizing results state with
  | nil => rfl
  | cons item rest ih =>
      exact andThen_agree (h _ _ hstate) (hcall _ _ state) hstate fun _ _ hafter => ih _ hafter

theorem agree_foldItems (callback : Value) (items : List Value) (accumulator : Value)
    (hstate : regime.Admits state.heap) :
    foldItems first callback items accumulator state =
      foldItems second callback items accumulator state := by
  induction items generalizing accumulator state with
  | nil => rfl
  | cons item rest ih =>
      exact andThen_agree (h _ _ hstate) (hcall _ _ state) hstate fun _ _ hafter => ih _ hafter

end Callbacks

open Callbacks in
theorem CallbackOperation.agree_perform (operation : CallbackOperation) (arguments : List Value)
    (hstate : regime.Admits state.heap) :
    operation.perform first arguments state = operation.perform second arguments state := by
  unfold perform
  cases Collections.itemsArgument state.heap operation.name arguments with
  | error failure => rfl
  | ok items =>
      simp only [Outcome.ofExcept, Outcome.andThen, agree_mapItems h hcall _ _ _ hstate,
        agree_filterItems h hcall _ _ _ hstate, agree_foldItems h hcall _ _ _ hstate]

theorem HostSteps.agree_perform (steps : HostSteps) (atHand : List Value)
    (hstate : regime.Admits state.heap) :
    steps.perform first atHand state = steps.perform second atHand state := by
  have hrealize (state : State) (result : LibraryResult) :
      (state.realize result).AdvancesFrom regime .hosting state := state.advances_realize result
  induction steps generalizing atHand state with
  | single | multiple | refuse => rfl
  | write text next ih =>
      have hwrite : (state.write text).AdvancesFrom regime .hosting state :=
        state.advances_write text
      exact andThen_agree rfl hwrite hstate fun _ _ hafter => ih _ hafter
  | print subject next ih => exact ih _ _ hstate
  | look subject next ih => exact ih _ _ hstate
  | newArray items next ih =>
      exact andThen_agree rfl (hrealize state _) hstate fun _ _ hafter => ih _ hafter
  | newHash entries next ih =>
      exact andThen_agree rfl (hrealize state _) hstate fun _ _ hafter => ih _ hafter
  | call callee arguments next ih =>
      exact andThen_agree (h _ _ hstate) (hcall _ _ state) hstate fun _ _ hafter => ih _ hafter

theorem Operation.agree_perform (operation : Operation) (arguments : List Value)
    (hstate : regime.Admits state.heap) :
    operation.perform first arguments state = operation.perform second arguments state := by
  cases operation with
  | callback operation => exact operation.agree_perform h hcall arguments hstate
  | host operation => exact HostSteps.agree_perform h hcall _ arguments hstate
  | _ => rfl

end

namespace Interpreter

/-- The interpreters do the same with the code of a regime, from the states that it admits. -/
structure AgreesWith (first second : Interpreter) (regime : Regime) : Prop where
  evaluate {expression : Expr} (hcode : regime.code (.expression expression)) {state : State}
    (hstate : regime.Admits state.heap) :
    first.evaluate expression state = second.evaluate expression state
  execute {statement : Stmt} (hcode : regime.code (.statement statement)) {state : State}
    (hstate : regime.Admits state.heap) :
    first.execute statement state = second.execute statement state
  call : Caller.AgreesWith first.call second.call regime
  rounds : first.rounds = second.rounds

namespace AgreesWith

variable {first second : Interpreter} {names : String → Prop}
  (h : first.AgreesWith second regime) (hfollows : second.Follows regime names)
include h hfollows

/-! ### Expressions -/

theorem evaluateAll {expressions : List Expr} (hcode : regime.All (Code.ofExpressions expressions))
    (hstate : regime.Admits state.heap) :
    first.evaluateAll expressions state = second.evaluateAll expressions state := by
  induction expressions generalizing state with
  | nil => rfl
  | cons expression rest ih =>
      obtain ⟨hhead, hrest⟩ := Regime.All.cons_iff.mp hcode
      refine andThen_agree (h.evaluate hhead hstate) (hfollows.evaluate hhead state) hstate ?_
      exact fun value after hafter => map_same (ih hrest hafter)

omit hfollows in
theorem evaluateOr (default : Value) {expression : Option Expr}
    (hcode : regime.All (Code.ofOptional expression)) (hstate : regime.Admits state.heap) :
    first.evaluateOr default expression state = second.evaluateOr default expression state := by
  cases expression with
  | none => rfl
  | some expression => exact h.evaluate (Regime.All.cons_iff.mp hcode).1 hstate

theorem evaluateEntries {entries : List Entry} (hcode : regime.All (Code.ofEntries entries))
    (table : Table) (hstate : regime.Admits state.heap) :
    first.evaluateEntries entries table state = second.evaluateEntries entries table state := by
  induction entries generalizing table state with
  | nil => rfl
  | cons entry rest ih =>
      simp only [Code.ofEntries_cons, Regime.All.cons_iff] at hcode
      obtain ⟨hkey, hvalue, hrest⟩ := hcode
      refine andThen_agree (h.evaluate hkey hstate) (hfollows.evaluate hkey state) hstate ?_
      intro key state hstate
      have hplain : (Outcome.ofExcept key.toKey state).AdvancesFrom regime .evaluating state :=
        .ofExcept (failsPlainly_toKey key)
      refine andThen_agree rfl (hplain.locatedAt _) hstate fun key state hstate => ?_
      exact andThen_agree (h.evaluate hvalue hstate) (hfollows.evaluate hvalue state) hstate
        fun value state hstate => ih hrest _ hstate

theorem evaluateIndex {object index : Expr} (hobject : regime.code (.expression object))
    (hindex : regime.code (.expression index)) (hstate : regime.Admits state.heap) :
    first.evaluateIndex object index state = second.evaluateIndex object index state := by
  refine andThen_agree (h.evaluate hobject hstate) (hfollows.evaluate hobject state) hstate ?_
  intro container state hstate
  exact andThen_same (h.evaluate hindex hstate)

omit hfollows in
theorem evaluateMember {object : Expr} (hobject : regime.code (.expression object))
    (property : String) (hstate : regime.Admits state.heap) :
    first.evaluateMember object property state = second.evaluateMember object property state :=
  andThen_same (h.evaluate hobject hstate)

theorem evaluateCall {callee : Expr} {arguments : List Expr}
    (hcode : regime.All (.expression callee :: Code.ofExpressions arguments))
    (hstate : regime.Admits state.heap) :
    first.evaluateCall callee arguments state = second.evaluateCall callee arguments state := by
  obtain ⟨hcallee, harguments⟩ := Regime.All.cons_iff.mp hcode
  refine andThen_agree (h.evaluate hcallee hstate) (hfollows.evaluate hcallee state) hstate ?_
  intro callee state hstate
  exact andThen_agree (h.evaluateAll hfollows harguments hstate)
    (hfollows.evaluateAll harguments state) hstate fun arguments state hstate =>
      h.call callee arguments hstate

theorem evaluateBinary (operator : BinaryOperator) {left right : Expr}
    (hleft : regime.code (.expression left)) (hright : regime.code (.expression right))
    (hstate : regime.Admits state.heap) :
    first.evaluateBinary operator left right state =
      second.evaluateBinary operator left right state := by
  refine andThen_agree (h.evaluate hleft hstate) (hfollows.evaluate hleft state) hstate ?_
  intro left state hstate
  rw [h.evaluate hright hstate]

theorem stepTarget {target : Expr} (hcode : regime.code (.expression target)) (delta : Number)
    (hstate : regime.Admits state.heap) :
    first.stepTarget target delta state = second.stepTarget target delta state := by
  have hparts := Regime.All.of_code hcode
  cases target with
  | index _ object place =>
      simp only [Code.parts, Expr.parts, Regime.All.cons_iff] at hparts
      obtain ⟨hobject, hplace, -⟩ := hparts
      refine andThen_agree (h.evaluate hobject hstate) (hfollows.evaluate hobject state) hstate ?_
      intro container state hstate
      exact andThen_same (h.evaluate hplace hstate)
  | member _ object property =>
      simp only [Code.parts, Expr.parts, Regime.All.cons_iff] at hparts
      exact andThen_same (h.evaluate hparts.1 hstate)
  | _ => rfl

theorem step (direction : Direction) {target : Expr} {amount : Option Expr}
    (hcode : regime.All (.expression target :: Code.ofOptional amount))
    (hstate : regime.Admits state.heap) :
    first.step direction target amount state = second.step direction target amount state := by
  obtain ⟨htarget, hamount⟩ := Regime.All.cons_iff.mp hcode
  refine andThen_agree (h.evaluateOr _ hamount hstate) (hfollows.evaluateOr _ hamount state) hstate
    fun amount state hstate => ?_
  cases amount with
  | number size => exact h.stepTarget hfollows htarget _ hstate
  | _ => rfl

theorem evaluateExpr {expression : Expr} (hcode : regime.code (.expression expression))
    (hstate : regime.Admits state.heap) :
    first.evaluateExpr expression state = second.evaluateExpr expression state := by
  have hparts := Regime.All.of_code hcode
  simp only [Code.parts] at hparts
  cases expression with
  | array _ elements =>
      exact andThen_same (h.evaluateAll hfollows hparts hstate)
  | hash _ entries =>
      exact andThen_same (h.evaluateEntries hfollows hparts .empty hstate)
  | index _ object index =>
      simp only [Expr.parts, Regime.All.cons_iff] at hparts
      exact h.evaluateIndex hfollows hparts.1 hparts.2.1 hstate
  | member _ object property =>
      simp only [Expr.parts, Regime.All.cons_iff] at hparts
      exact h.evaluateMember hparts.1 property hstate
  | call _ callee arguments => exact h.evaluateCall hfollows hparts hstate
  | unary _ operator operand =>
      simp only [Expr.parts, Regime.All.cons_iff] at hparts
      exact andThen_same (h.evaluate hparts.1 hstate)
  | binary _ operator left right =>
      simp only [Expr.parts, Regime.All.cons_iff] at hparts
      exact h.evaluateBinary hfollows operator hparts.1 hparts.2.1 hstate
  | step _ direction target amount => exact h.step hfollows direction hparts hstate
  | _ => rfl

/-! ### Statements -/

theorem executeBody {body : List Stmt} (hcode : regime.All (Code.ofBody body))
    (hstate : regime.Admits state.heap) :
    first.executeBody body state = second.executeBody body state := by
  induction body generalizing state with
  | nil => rfl
  | cons statement rest ih =>
      obtain ⟨hhead, hrest⟩ := Regime.All.cons_iff.mp hcode
      refine andThen_agree (h.execute hhead hstate) (hfollows.execute hhead state) hstate ?_
      intro flow state hstate
      cases flow with
      | normal => exact ih hrest hstate
      | _ => rfl

theorem executeFallback {fallback : Option (List Stmt)}
    (hcode : regime.All (Code.ofFallback fallback)) (hstate : regime.Admits state.heap) :
    first.executeFallback fallback state = second.executeFallback fallback state := by
  cases fallback with
  | none => rfl
  | some body => exact h.executeBody hfollows hcode hstate

omit hfollows in
theorem executeDeclare (name : String) {value : Option Expr}
    (hcode : regime.All (Code.ofOptional value)) (hstate : regime.Admits state.heap) :
    first.executeDeclare name value state = second.executeDeclare name value state := by
  unfold Interpreter.executeDeclare
  rw [h.evaluateOr _ hcode hstate]

theorem executeFirst (accepts : Value → Bool) {branches : List Branch}
    {fallback : Option (List Stmt)} (hbranches : regime.All (Code.ofBranches branches))
    (hfallback : regime.All (Code.ofFallback fallback)) (hstate : regime.Admits state.heap) :
    first.executeFirst accepts branches fallback state =
      second.executeFirst accepts branches fallback state := by
  induction branches generalizing state with
  | nil => exact h.executeFallback hfollows hfallback hstate
  | cons branch rest ih =>
      simp only [Code.ofBranches_cons, Regime.All.append_iff, Regime.All.cons_iff] at hbranches
      obtain ⟨⟨hcondition, hbody⟩, hrest⟩ := hbranches
      refine andThen_agree (h.evaluate hcondition hstate) (hfollows.evaluate hcondition state)
        hstate fun value state hstate => ?_
      rw [h.executeBody hfollows hbody hstate, ih hrest hstate]

theorem executeConditional (sense : Sense) {condition : Expr} {body : List Stmt}
    {alternatives : List Branch} {fallback : Option (List Stmt)}
    (hcondition : regime.code (.expression condition)) (hbody : regime.All (Code.ofBody body))
    (halternatives : regime.All (Code.ofBranches alternatives))
    (hfallback : regime.All (Code.ofFallback fallback)) (hstate : regime.Admits state.heap) :
    first.executeConditional sense condition body alternatives fallback state =
      second.executeConditional sense condition body alternatives fallback state := by
  refine andThen_agree (h.evaluate hcondition hstate) (hfollows.evaluate hcondition state) hstate ?_
  intro value state hstate
  rw [h.executeBody hfollows hbody hstate,
    h.executeFirst hfollows _ halternatives hfallback hstate]

theorem executeLoop (sense : Sense) {condition : Expr} {body : List Stmt}
    (hcode : regime.All (.expression condition :: Code.ofBody body)) (rounds : Nat)
    (hstate : regime.Admits state.heap) :
    first.executeLoop sense condition body rounds state =
      second.executeLoop sense condition body rounds state := by
  obtain ⟨hcondition, hbody⟩ := Regime.All.cons_iff.mp hcode
  induction rounds generalizing state with
  | zero => rfl
  | succ rounds ih =>
      refine andThen_agree (h.evaluate hcondition hstate) (hfollows.evaluate hcondition state)
        hstate fun value state hstate => ?_
      by_cases hholds : sense.holds value
      · simp only [hholds, if_true]
        refine andThen_agree (h.executeBody hfollows hbody hstate)
          (hfollows.executeBody hbody state) hstate fun flow state hstate => ?_
        cases flow.afterRound with
        | none => exact ih hstate
        | some result => rfl
      · simp only [hholds]
        rfl

theorem executePostLoop (sense : Sense) {condition : Expr} {body : List Stmt}
    (hcode : regime.All (.expression condition :: Code.ofBody body)) (rounds : Nat)
    (hstate : regime.Admits state.heap) :
    first.executePostLoop sense body condition rounds state =
      second.executePostLoop sense body condition rounds state := by
  obtain ⟨hcondition, hbody⟩ := Regime.All.cons_iff.mp hcode
  induction rounds generalizing state with
  | zero => rfl
  | succ rounds ih =>
      refine andThen_agree (h.executeBody hfollows hbody hstate) (hfollows.executeBody hbody state)
        hstate fun flow state hstate => ?_
      cases flow.afterRound with
      | some result => rfl
      | none =>
          refine andThen_agree (h.evaluate hcondition hstate) (hfollows.evaluate hcondition state)
            hstate fun value state hstate => ?_
          rw [ih hstate]

theorem executeRounds (name : String) {body : List Stmt}
    (hcode : regime.All (Code.ofBody body)) (items : List Value)
    (hstate : regime.Admits state.heap) :
    first.executeRounds name body items state = second.executeRounds name body items state := by
  induction items generalizing state with
  | nil => rfl
  | cons item rest ih =>
      have hbound : regime.Admits (state.bind name item).heap := hstate
      refine andThen_agree (h.executeBody hfollows hcode hbound)
        (hfollows.executeBody hcode (state.bind name item)) hbound fun flow state hstate => ?_
      cases flow.afterRound with
      | none => exact ih hstate
      | some result => rfl

theorem executeEach (name : String) {iterable : Expr} {body : List Stmt}
    (hcode : regime.All (.expression iterable :: Code.ofBody body))
    (hstate : regime.Admits state.heap) :
    first.executeEach name iterable body state = second.executeEach name iterable body state := by
  obtain ⟨hiterable, hbody⟩ := Regime.All.cons_iff.mp hcode
  refine andThen_agree (h.evaluate hiterable hstate) (hfollows.evaluate hiterable state) hstate ?_
  intro subject state hstate
  have hitems : (state.iterationItems subject).AdvancesFrom regime .evaluating state :=
    state.advances_iterationItems subject
  exact andThen_agree rfl (hitems.locatedAt _) hstate fun items state hstate =>
    h.executeRounds hfollows name hbody items hstate

theorem executeCompare {subject : Expr} {cases : List Branch} {fallback : Option (List Stmt)}
    (hsubject : regime.code (.expression subject)) (hcases : regime.All (Code.ofBranches cases))
    (hfallback : regime.All (Code.ofFallback fallback)) (hstate : regime.Admits state.heap) :
    first.executeCompare subject cases fallback state =
      second.executeCompare subject cases fallback state :=
  andThen_agree (h.evaluate hsubject hstate) (hfollows.evaluate hsubject state) hstate
    fun _ _ hstate => h.executeFirst hfollows _ hcases hfallback hstate

theorem assignIndex (position : Position) {object index value : Expr}
    (hobject : regime.code (.expression object)) (hindex : regime.code (.expression index))
    (hvalue : regime.code (.expression value)) (hstate : regime.Admits state.heap) :
    first.assignIndex position object index value state =
      second.assignIndex position object index value state := by
  refine andThen_agree (h.evaluate hobject hstate) (hfollows.evaluate hobject state) hstate ?_
  intro container state hstate
  refine andThen_agree (h.evaluate hindex hstate) (hfollows.evaluate hindex state) hstate ?_
  intro index state hstate
  have hslot : (Outcome.ofExcept (state.heap.indexSlot container index .notIndexAssignable)
      state).AdvancesFrom regime .evaluating state :=
    .ofExcept (state.heap.failsPlainly_indexSlot container index
      RuntimeError.isOrdinary_notIndexAssignable)
  refine andThen_agree rfl (hslot.locatedAt position) hstate fun slot state hstate => ?_
  exact andThen_same (h.evaluate hvalue hstate)

theorem assignMember (position : Position) {object value : Expr} (property : String)
    (hobject : regime.code (.expression object)) (hvalue : regime.code (.expression value))
    (hstate : regime.Admits state.heap) :
    first.assignMember position object property value state =
      second.assignMember position object property value state := by
  refine andThen_agree (h.evaluate hobject hstate) (hfollows.evaluate hobject state) hstate ?_
  intro container state hstate
  have hslot : (Outcome.ofExcept (Heap.newMemberSlot container property) state).AdvancesFrom regime
      .evaluating state :=
    .ofExcept (Heap.failsPlainly_newMemberSlot container property)
  refine andThen_agree rfl (hslot.locatedAt position) hstate fun slot state hstate => ?_
  exact andThen_same (h.evaluate hvalue hstate)

theorem assign {target value : Expr} (htarget : regime.code (.expression target))
    (hvalue : regime.code (.expression value)) (hstate : regime.Admits state.heap) :
    first.assign target value state = second.assign target value state := by
  have hparts := Regime.All.of_code htarget
  cases target with
  | name => exact andThen_same (h.evaluate hvalue hstate)
  | index position object index =>
      simp only [Code.parts, Expr.parts, Regime.All.cons_iff] at hparts
      exact h.assignIndex hfollows position hparts.1 hparts.2.1 hvalue hstate
  | member position object property =>
      simp only [Code.parts, Expr.parts, Regime.All.cons_iff] at hparts
      exact h.assignMember hfollows position property hparts.1 hvalue hstate
  | _ => rfl

theorem executeStmt {statement : Stmt} (hcode : regime.code (.statement statement))
    (hstate : regime.Admits state.heap) :
    first.executeStmt statement state = second.executeStmt statement state := by
  have hparts := Regime.All.of_code hcode
  simp only [Code.parts] at hparts
  cases statement with
  | declare _ name value => exact h.executeDeclare name hparts hstate
  | conditional _ sense condition body alternatives fallback =>
      simp only [Stmt.parts, Regime.All.append_iff, Regime.All.cons_iff] at hparts
      obtain ⟨⟨⟨hcondition, hbody⟩, halternatives⟩, hfallback⟩ := hparts
      exact h.executeConditional hfollows sense hcondition hbody halternatives hfallback hstate
  | loop _ sense condition body =>
      have hloop := h.executeLoop hfollows sense hparts first.rounds hstate
      rw [Interpreter.executeStmt, Interpreter.executeStmt, hloop, h.rounds]
  | postLoop _ sense body condition =>
      have hloop := h.executePostLoop hfollows sense hparts first.rounds hstate
      rw [Interpreter.executeStmt, Interpreter.executeStmt, hloop, h.rounds]
  | each _ name iterable body => exact h.executeEach hfollows name hparts hstate
  | choose _ cases fallback =>
      obtain ⟨hcases, hfallback⟩ := Regime.All.append_iff.mp hparts
      exact h.executeFirst hfollows _ hcases hfallback hstate
  | compare _ subject cases fallback =>
      simp only [Stmt.parts, Regime.All.append_iff, Regime.All.cons_iff] at hparts
      obtain ⟨⟨hsubject, hcases⟩, hfallback⟩ := hparts
      exact h.executeCompare hfollows hsubject hcases hfallback hstate
  | call _ callee arguments =>
      exact map_same (h.evaluateCall hfollows hparts hstate)
  | returns _ value => exact map_same (h.evaluateOr _ hparts hstate)
  | assign _ target value =>
      simp only [Stmt.parts, Regime.All.cons_iff] at hparts
      exact map_same (h.assign hfollows hparts.1 hparts.2.1 hstate)
  | step _ direction target amount =>
      exact map_same (h.step hfollows direction hparts hstate)
  | _ => rfl

/-! ### Calls and programs -/

theorem callCallable {callable : Callable} (hcallable : regime.callable callable)
    (arguments : List Value) (hstate : regime.Admits state.heap) :
    first.callCallable callable arguments state =
      second.callCallable callable arguments state := by
  have hparts := Regime.All.of_callable hcallable
  cases callable with
  | sub name parameters body =>
      have hentered (frame : Frame) : regime.Admits (state.enterCall frame).1.heap := hstate
      simp only [Interpreter.callCallable, Interpreter.callSub]
      rw [h.executeBody hfollows hparts (hentered _)]
  | block body =>
      cases arguments with
      | nil => rfl
      | cons value rest =>
          have hbody := (Regime.All.cons_iff.mp hparts).1
          exact mapState_same (h.evaluate hbody hstate)
  | native native =>
      simp only [Interpreter.callCallable, Interpreter.callNative]
      rw [native.operation.agree_perform h.call hfollows.call arguments hstate]

theorem callValue (callee : Value) (arguments : List Value) (hstate : regime.Admits state.heap) :
    first.callValue callee arguments state = second.callValue callee arguments state := by
  cases callee with
  | function ref =>
      have hentered : regime.Admits (enterLevel state).heap := hstate
      simp only [Interpreter.callValue]
      cases hcallable : state.heap.callable? ref with
      | none => rfl
      | some callable =>
          have hcall := h.callCallable hfollows (hstate.of_callable? hcallable) arguments hentered
          simp only [hcall]
  | _ => rfl

theorem runStatements {program : Program} (hcode : regime.All (Code.ofBody program))
    (hstate : regime.Admits state.heap) :
    first.runStatements program state = second.runStatements program state := by
  induction program generalizing state with
  | nil => rfl
  | cons statement rest ih =>
      obtain ⟨hhead, hrest⟩ := Regime.All.cons_iff.mp hcode
      refine andThen_agree (h.execute hhead hstate) (hfollows.execute hhead state) hstate ?_
      intro flow state hstate
      cases flow with
      | normal => exact ih hrest hstate
      | _ => rfl

theorem run {program : Program} (hcode : regime.All (Code.ofBody program))
    (hstate : regime.Admits state.heap) : first.run program state = second.run program state := by
  unfold Interpreter.run
  rw [h.runStatements hfollows hcode hstate]

end AgreesWith

end Interpreter

/-! ### Runs with stops -/

/-- The expression or statement that an interpreter is about to work on. -/
def Task.code? : Task → Option Code
  | evaluate expression => some (.expression expression)
  | execute statement => some (.statement statement)
  | call _ _ => none

namespace Interpreter

variable {names : String → Prop} {holds : Point → Bool}

theorem agrees_stoppingUnless (hfollows : ∀ fuel, (ofFuel fuel).Follows regime names)
    (hholds : ∀ point, (∀ code ∈ point.task.code?, regime.code code) → holds point)
    (failure : RuntimeError) (fuel active : Nat) :
    (stoppingUnless holds failure fuel active).AgreesWith (ofFuel fuel) regime := by
  have hpass {α : Type} {point : Point} {outcome other : Outcome α}
      (hcode : ∀ code ∈ point.task.code?, regime.code code) (heq : outcome = other) :
      point.stopUnless holds failure outcome = other := by
    unfold Point.stopUnless
    rw [if_pos (hholds point hcode), heq]
  induction fuel generalizing active with
  | zero => exact ⟨fun _ _ _ => rfl, fun _ _ _ => rfl, fun _ _ _ _ => rfl, rfl⟩
  | succ fuel ih =>
      refine ⟨fun {expression} hcode {state} hstate => ?_,
        fun {statement} hcode {state} hstate => ?_, fun callee arguments {state} hstate => ?_, rfl⟩
      · refine hpass (fun code hmem => Option.mem_some_iff.mp hmem ▸ hcode) ?_
        exact congrArg (Outcome.locatedAt · _)
          ((ih active).evaluateExpr (hfollows fuel) hcode hstate)
      · refine hpass (fun code hmem => Option.mem_some_iff.mp hmem ▸ hcode) ?_
        exact congrArg (Outcome.locatedAt · _)
          ((ih active).executeStmt (hfollows fuel) hcode hstate)
      · refine hpass (fun code hmem => absurd hmem (Option.not_mem_none code)) ?_
        exact (ih (active + 1)).callValue (hfollows fuel) callee arguments hstate

/-- **What holds of all code of a regime holds at every point** of a run that begins with such
code, from a state that the regime admits. -/
theorem throughout_of_follows (hfollows : ∀ fuel, (ofFuel fuel).Follows regime names)
    (hholds : ∀ point, (∀ code ∈ point.task.code?, regime.code code) → holds point) (fuel : Nat)
    {program : Program} (hcode : regime.All (Code.ofBody program))
    (hstate : regime.Admits state.heap) : Throughout fuel program state holds := by
  intro failure
  exact (agrees_stoppingUnless hfollows hholds failure fuel 0).run (hfollows fuel) hcode hstate

end Interpreter

end ScriptEngine
