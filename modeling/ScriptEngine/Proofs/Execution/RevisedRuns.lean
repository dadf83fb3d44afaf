import ScriptEngine.Execution.Run
import ScriptEngine.Proofs.Execution.Revision

/-!
# The rules of the interpreter carry over

Each rule of the interpreter does the same on the revised parts of a program in revised states,
provided that the ways to work on these parts do.
-/

namespace ScriptEngine

open Transfer

theorem Interpreter.run_eq (interpreter : Interpreter) (program : Program) (state : State) :
    interpreter.run program state =
      (interpreter.runStatements program state).andThen fun _ state => state.flush := by
  unfold run
  cases interpreter.runStatements program state <;> rfl

/-- Within so many active calls, `right` does with the revised parts of a program in revised states
what `left` does with the parts themselves. -/
structure Revision.Relates (revision : Revision) (active : Nat) (left right : Interpreter) :
    Prop where
  evaluate (expression : Expr) {start : State} (hstart : revision.admits active start) :
    (revision.transfer active).Carries (left.evaluate expression start)
      (right.evaluate (expression.relocate revision.move) (revision.state start))
  execute (statement : Stmt) {start : State} (hstart : revision.admits active start) :
    (revision.transfer active).Carries (left.execute statement start)
      (right.execute (statement.relocate revision.move) (revision.state start))
  call (callee : Value) (arguments : List Value) {start : State}
    (hstart : revision.admits active start) :
    (revision.transfer active).Carries (left.call callee arguments start)
      (right.call callee arguments (revision.state start))
  rounds : right.rounds = left.rounds

namespace Revision.Relates

variable {revision : Revision} {active : Nat} {left right : Interpreter}
  (h : revision.Relates active left right) {start : State}
include h

/-! ### Expressions -/

theorem evaluateAll (expressions : List Expr) (hstart : revision.admits active start) :
    (revision.transfer active).Carries (left.evaluateAll expressions start)
      (right.evaluateAll (Expr.relocateAll revision.move expressions) (revision.state start)) := by
  induction expressions generalizing start with
  | nil => exact .ok hstart []
  | cons expression rest ih =>
      exact (h.evaluate expression hstart).andThen fun value after hafter => (ih hafter).map _

theorem evaluateOr (default : Value) (expression : Option Expr)
    (hstart : revision.admits active start) :
    (revision.transfer active).Carries (left.evaluateOr default expression start)
      (right.evaluateOr default (Expr.relocateOptional revision.move expression)
        (revision.state start)) := by
  cases expression with
  | none => exact .ok hstart default
  | some expression => exact h.evaluate expression hstart

theorem evaluateEntries (entries : List Entry) (table : Table)
    (hstart : revision.admits active start) :
    (revision.transfer active).Carries (left.evaluateEntries entries table start)
      (right.evaluateEntries (Entry.relocateAll revision.move entries) table
        (revision.state start)) := by
  induction entries generalizing table start with
  | nil => exact .ok hstart table
  | cons entry rest ih =>
      obtain ⟨key, value⟩ := entry
      refine (h.evaluate key hstart).andThen fun found after hafter => ?_
      have hkey := Carries.ofExcept hafter (failsPlainly_toKey found)
      refine (hkey.locatedAt key.position_relocate).andThen fun key after hafter => ?_
      exact (h.evaluate value hafter).andThen fun value after hafter => ih _ hafter

theorem evaluateIndex (object index : Expr) (hstart : revision.admits active start) :
    (revision.transfer active).Carries (left.evaluateIndex object index start)
      (right.evaluateIndex (object.relocate revision.move) (index.relocate revision.move)
        (revision.state start)) := by
  refine (h.evaluate object hstart).andThen fun container after hafter => ?_
  refine (h.evaluate index hafter).andThen fun index after hafter => ?_
  have hslot := State.carries_indexSlot hafter container index RuntimeError.isOrdinary_notIndexable
  exact State.carries_readSlot hslot

theorem evaluateMember (object : Expr) (property : String)
    (hstart : revision.admits active start) :
    (revision.transfer active).Carries (left.evaluateMember object property start)
      (right.evaluateMember (object.relocate revision.move) property (revision.state start)) := by
  refine (h.evaluate object hstart).andThen fun container after hafter => ?_
  exact State.carries_readSlot (State.carries_memberSlot hafter container property)

theorem evaluateCall (callee : Expr) (arguments : List Expr)
    (hstart : revision.admits active start) :
    (revision.transfer active).Carries (left.evaluateCall callee arguments start)
      (right.evaluateCall (callee.relocate revision.move)
        (Expr.relocateAll revision.move arguments) (revision.state start)) := by
  refine (h.evaluate callee hstart).andThen fun callee after hafter => ?_
  refine (h.evaluateAll arguments hafter).andThen fun arguments after hafter => ?_
  exact h.call callee arguments hafter

theorem evaluateBinary (operator : BinaryOperator) (first second : Expr)
    (hstart : revision.admits active start) :
    (revision.transfer active).Carries (left.evaluateBinary operator first second start)
      (right.evaluateBinary operator (first.relocate revision.move)
        (second.relocate revision.move) (revision.state start)) := by
  refine (h.evaluate first hstart).andThen fun first after hafter => ?_
  split
  · exact .ok hafter first
  · refine (h.evaluate second hafter).andThen fun second after hafter => ?_
    have happly := after.heap.applyBinary_relocate revision.move operator first second
    change (revision.transfer active).Carries _
      (Outcome.ofExcept ((after.heap.relocate revision.move).applyBinary operator first second) _)
    rw [happly]
    exact .ofExcept hafter (after.heap.failsPlainly_applyBinary operator first second)

omit h in
theorem evaluateName (name : String) (hstart : revision.admits active start) :
    (revision.transfer active).Carries (Interpreter.evaluateName name start)
      (Interpreter.evaluateName name (revision.state start)) := by
  have hscopes : (revision.state start).scopes = start.scopes := rfl
  unfold Interpreter.evaluateName
  rw [hscopes]
  cases start.scopes.lookup? name with
  | some value => exact .ok hstart value
  | none => exact .error hstart ⟨nofun, rfl⟩

theorem stepTarget (target : Expr) (delta : Number) (hstart : revision.admits active start) :
    (revision.transfer active).Carries (left.stepTarget target delta start)
      (right.stepTarget (target.relocate revision.move) delta (revision.state start)) := by
  cases target with
  | name _ name => exact State.carries_stepName hstart name delta
  | index _ object index =>
      refine (h.evaluate object hstart).andThen fun container after hafter => ?_
      refine (h.evaluate index hafter).andThen fun index after hafter => ?_
      refine (State.carries_indexSlot hafter container index
        RuntimeError.isOrdinary_notIndexable).andThen fun slot after hafter => ?_
      exact State.carries_stepSlot hafter slot delta
  | member _ object property =>
      refine (h.evaluate object hstart).andThen fun container after hafter => ?_
      refine (State.carries_memberSlot hafter container property).andThen
        fun slot after hafter => ?_
      exact State.carries_stepSlot hafter slot delta
  | _ => exact .error hstart ⟨nofun, rfl⟩

theorem step (direction : Direction) (target : Expr) (amount : Option Expr)
    (hstart : revision.admits active start) :
    (revision.transfer active).Carries (left.step direction target amount start)
      (right.step direction (target.relocate revision.move)
        (Expr.relocateOptional revision.move amount) (revision.state start)) := by
  refine (h.evaluateOr _ amount hstart).andThen fun amount after hafter => ?_
  cases amount with
  | number amount => exact h.stepTarget target _ hafter
  | _ => exact .error hafter ⟨nofun, rfl⟩

theorem evaluateExpr (expression : Expr) (hstart : revision.admits active start) :
    (revision.transfer active).Carries (left.evaluateExpr expression start)
      (right.evaluateExpr (expression.relocate revision.move) (revision.state start)) := by
  cases expression with
  | number _ value => exact .ok hstart _
  | string _ value => exact .ok hstart _
  | boolean _ value => exact .ok hstart _
  | nil _ => exact .ok hstart _
  | array _ elements =>
      refine (h.evaluateAll elements hstart).andThen fun values after hafter => ?_
      exact State.carries_newArray hafter _
  | hash _ entries =>
      refine (h.evaluateEntries entries .empty hstart).andThen fun table after hafter => ?_
      exact State.carries_newHash hafter table
  | name _ name => exact evaluateName name hstart
  | index _ object index => exact h.evaluateIndex object index hstart
  | member _ object property => exact h.evaluateMember object property hstart
  | call _ callee arguments => exact h.evaluateCall callee arguments hstart
  | unary _ operator operand =>
      refine (h.evaluate operand hstart).andThen fun operand after hafter => ?_
      exact .ofExcept hafter (Interpreter.failsPlainly_applyUnary operator operand)
  | binary _ operator first second => exact h.evaluateBinary operator first second hstart
  | block _ body => exact State.carries_newFunction hstart (.block body)
  | function _ parameters body =>
      exact State.carries_newFunction hstart (.sub none parameters body)
  | step _ direction target amount => exact h.step direction target amount hstart

/-! ### Statements -/

theorem executeBody (body : List Stmt) (hstart : revision.admits active start) :
    (revision.transfer active).Carries (left.executeBody body start)
      (right.executeBody (Stmt.relocateAll revision.move body) (revision.state start)) := by
  induction body generalizing start with
  | nil => exact .ok hstart _
  | cons statement rest ih =>
      refine (h.execute statement hstart).andThen fun flow after hafter => ?_
      cases flow with
      | normal => exact ih hafter
      | returns value => exact .ok hafter _
      | breaks => exact .ok hafter _
      | next => exact .ok hafter _

theorem executeFallback (fallback : Option (List Stmt)) (hstart : revision.admits active start) :
    (revision.transfer active).Carries (left.executeFallback fallback start)
      (right.executeFallback (Stmt.relocateFallback revision.move fallback)
        (revision.state start)) := by
  cases fallback with
  | none => exact .ok hstart _
  | some body => exact h.executeBody body hstart

theorem executeDeclare (name : String) (value : Option Expr)
    (hstart : revision.admits active start) :
    (revision.transfer active).Carries (left.executeDeclare name value start)
      (right.executeDeclare name (Expr.relocateOptional revision.move value)
        (revision.state start)) := by
  have hscopes : (revision.state start).scopes = start.scopes := rfl
  unfold Interpreter.executeDeclare
  rw [hscopes]
  split
  · exact .error hstart ⟨nofun, rfl⟩
  · refine (h.evaluateOr _ value hstart).andThen fun value after hafter => ?_
    exact (State.carries_declare hafter name value).map _

omit h in
theorem executeSub (name : String) (parameters : List String) (body : List Stmt)
    (hstart : revision.admits active start) :
    (revision.transfer active).Carries (Interpreter.executeSub name parameters body start)
      (Interpreter.executeSub name parameters (Stmt.relocateAll revision.move body)
        (revision.state start)) := by
  refine (State.carries_newFunction hstart (.sub (some name) parameters body)).andThen
    fun value after hafter => ?_
  exact (State.carries_declare hafter name value).map _

theorem executeFirst (accepts : Value → Bool) (branches : List Branch)
    (fallback : Option (List Stmt)) (hstart : revision.admits active start) :
    (revision.transfer active).Carries (left.executeFirst accepts branches fallback start)
      (right.executeFirst accepts (Branch.relocateAll revision.move branches)
        (Stmt.relocateFallback revision.move fallback) (revision.state start)) := by
  induction branches generalizing start with
  | nil => exact h.executeFallback fallback hstart
  | cons branch rest ih =>
      obtain ⟨condition, body⟩ := branch
      refine (h.evaluate condition hstart).andThen fun value after hafter => ?_
      split
      · exact h.executeBody body hafter
      · exact ih hafter

theorem executeConditional (sense : Sense) (condition : Expr) (body : List Stmt)
    (alternatives : List Branch) (fallback : Option (List Stmt))
    (hstart : revision.admits active start) :
    (revision.transfer active).Carries
      (left.executeConditional sense condition body alternatives fallback start)
      (right.executeConditional sense (condition.relocate revision.move)
        (Stmt.relocateAll revision.move body) (Branch.relocateAll revision.move alternatives)
        (Stmt.relocateFallback revision.move fallback) (revision.state start)) := by
  refine (h.evaluate condition hstart).andThen fun value after hafter => ?_
  split
  · exact h.executeBody body hafter
  · exact h.executeFirst _ alternatives fallback hafter

theorem executeLoop (sense : Sense) (condition : Expr) (body : List Stmt) (rounds : Nat)
    (hstart : revision.admits active start) :
    (revision.transfer active).Carries (left.executeLoop sense condition body rounds start)
      (right.executeLoop sense (condition.relocate revision.move)
        (Stmt.relocateAll revision.move body) rounds (revision.state start)) := by
  induction rounds generalizing start with
  | zero => exact .outOfFuel
  | succ rounds ih =>
      refine (h.evaluate condition hstart).andThen fun value after hafter => ?_
      split
      · refine (h.executeBody body hafter).andThen fun flow after hafter => ?_
        split
        · exact .ok hafter _
        · exact ih hafter
      · exact .ok hafter _

theorem executePostLoop (sense : Sense) (body : List Stmt) (condition : Expr) (rounds : Nat)
    (hstart : revision.admits active start) :
    (revision.transfer active).Carries (left.executePostLoop sense body condition rounds start)
      (right.executePostLoop sense (Stmt.relocateAll revision.move body)
        (condition.relocate revision.move) rounds (revision.state start)) := by
  induction rounds generalizing start with
  | zero => exact .outOfFuel
  | succ rounds ih =>
      refine (h.executeBody body hstart).andThen fun flow after hafter => ?_
      split
      · exact .ok hafter _
      · refine (h.evaluate condition hafter).andThen fun value after hafter => ?_
        split
        · exact ih hafter
        · exact .ok hafter _

theorem executeRounds (name : String) (body : List Stmt) (items : List Value)
    (hstart : revision.admits active start) :
    (revision.transfer active).Carries (left.executeRounds name body items start)
      (right.executeRounds name (Stmt.relocateAll revision.move body) items
        (revision.state start)) := by
  induction items generalizing start with
  | nil => exact .ok hstart _
  | cons item rest ih =>
      refine (State.carries_bind hstart name item fun _ hbound =>
        h.executeBody body hbound).andThen fun flow after hafter => ?_
      split
      · exact .ok hafter _
      · exact ih hafter

theorem executeEach (name : String) (iterable : Expr) (body : List Stmt)
    (hstart : revision.admits active start) :
    (revision.transfer active).Carries (left.executeEach name iterable body start)
      (right.executeEach name (iterable.relocate revision.move)
        (Stmt.relocateAll revision.move body) (revision.state start)) := by
  refine (h.evaluate iterable hstart).andThen fun subject after hafter => ?_
  have hitems := State.carries_iterationItems hafter subject
  refine (hitems.locatedAt iterable.position_relocate).andThen fun items after hafter => ?_
  exact h.executeRounds name body items hafter

theorem assignIndex (position : Position) (object index value : Expr)
    (hstart : revision.admits active start) :
    (revision.transfer active).Carries (left.assignIndex position object index value start)
      (right.assignIndex (revision.move position) (object.relocate revision.move)
        (index.relocate revision.move) (value.relocate revision.move) (revision.state start)) := by
  refine (h.evaluate object hstart).andThen fun container after hafter => ?_
  refine (h.evaluate index hafter).andThen fun index after hafter => ?_
  have hfind : ∀ {after : State}, revision.admits active after →
      (revision.transfer active).Carries
        ((Outcome.ofExcept (after.heap.indexSlot container index .notIndexAssignable)
          after).locatedAt position)
        ((Outcome.ofExcept ((revision.state after).heap.indexSlot container index
          .notIndexAssignable) (revision.state after)).locatedAt (revision.move position)) := by
    intro after hafter
    have hslot := State.carries_indexSlot hafter container index
      RuntimeError.isOrdinary_notIndexAssignable
    exact hslot.locatedAt rfl
  refine (hfind hafter).andThen fun slot after hafter => ?_
  refine (h.evaluate value hafter).andThen fun value after hafter => ?_
  cases container with
  | array ref =>
      -- The place is sought once before the value is evaluated and once after.
      refine (hfind hafter).andThen fun slot after hafter => ?_
      exact State.carries_writeSlot hafter slot value
  | _ => exact State.carries_writeSlot hafter slot value

theorem assignMember (position : Position) (object : Expr) (property : String) (value : Expr)
    (hstart : revision.admits active start) :
    (revision.transfer active).Carries (left.assignMember position object property value start)
      (right.assignMember (revision.move position) (object.relocate revision.move) property
        (value.relocate revision.move) (revision.state start)) := by
  refine (h.evaluate object hstart).andThen fun container after hafter => ?_
  have hslot := Carries.ofExcept hafter (Heap.failsPlainly_newMemberSlot container property)
  refine (hslot.locatedAt rfl).andThen fun slot after hafter => ?_
  refine (h.evaluate value hafter).andThen fun value after hafter => ?_
  exact State.carries_writeSlot hafter slot value

theorem assign (target value : Expr) (hstart : revision.admits active start) :
    (revision.transfer active).Carries (left.assign target value start)
      (right.assign (target.relocate revision.move) (value.relocate revision.move)
        (revision.state start)) := by
  have hinvalid : ∀ {position other}, other = revision.move position →
      (revision.transfer active).Carries
        (.error (RuntimeError.invalidTarget.locatedAt position) start : Outcome Unit)
        (.error (RuntimeError.invalidTarget.locatedAt other) (revision.state start)) := by
    intro position other hother
    have herror : (revision.transfer active).Carries
        (.error .invalidTarget start : Outcome Unit)
        (.error .invalidTarget (revision.state start)) :=
      .error hstart RuntimeError.isOrdinary_invalidTarget.isPlain
    exact herror.locatedAt hother
  cases target with
  | name position name =>
      refine (h.evaluate value hstart).andThen fun value after hafter => ?_
      exact (State.carries_assign hafter name value).locatedAt rfl
  | index position object index => exact h.assignIndex position object index value hstart
  | member position object property => exact h.assignMember position object property value hstart
  | _ => exact hinvalid rfl

theorem executeStmt (statement : Stmt) (hstart : revision.admits active start) :
    (revision.transfer active).Carries (left.executeStmt statement start)
      (right.executeStmt (statement.relocate revision.move) (revision.state start)) := by
  cases statement with
  | declare _ name value => exact h.executeDeclare name value hstart
  | sub _ name parameters body => exact executeSub name parameters body hstart
  | conditional _ sense condition body alternatives fallback =>
      exact h.executeConditional sense condition body alternatives fallback hstart
  | loop _ sense condition body =>
      simp only [Stmt.relocate, Interpreter.executeStmt, h.rounds]
      exact h.executeLoop sense condition body _ hstart
  | postLoop _ sense body condition =>
      simp only [Stmt.relocate, Interpreter.executeStmt, h.rounds]
      exact h.executePostLoop sense body condition _ hstart
  | each _ name iterable body => exact h.executeEach name iterable body hstart
  | choose _ cases fallback => exact h.executeFirst _ cases fallback hstart
  | compare _ subject cases fallback =>
      refine (h.evaluate subject hstart).andThen fun subject after hafter => ?_
      exact h.executeFirst _ cases fallback hafter
  | call _ callee arguments => exact (h.evaluateCall callee arguments hstart).map _
  | returns _ value => exact (h.evaluateOr _ value hstart).map _
  | assign _ target value => exact (h.assign target value hstart).map _
  | breaks => exact .ok hstart _
  | next => exact .ok hstart _
  | step _ direction target amount => exact (h.step direction target amount hstart).map _

/-! ### Calls -/

theorem callSub (name : Option String) (parameters : List String) (body : List Stmt)
    (arguments : List Value) (hstart : revision.admits active start) :
    (revision.transfer active).Carries (left.callSub name parameters body arguments start)
      (right.callSub name parameters (Stmt.relocateAll revision.move body) arguments
        (revision.state start)) := by
  unfold Interpreter.callSub
  split
  · exact .error hstart ⟨nofun, rfl⟩
  · have hbody := Carries.withScopes hstart (start.enterCall
      (.ofList (parameters.zip arguments))).1.scopes fun _ hentered => h.executeBody body hentered
    refine (hbody.leaveCall start.scopes.locals).andThen fun flow after hafter => ?_
    cases flow with
    | normal => exact .ok hafter _
    | returns value => exact .ok hafter _
    | breaks => exact .error hafter ⟨nofun, rfl⟩
    | next => exact .error hafter ⟨nofun, rfl⟩

theorem callBlock (body : Expr) (arguments : List Value) (hstart : revision.admits active start) :
    (revision.transfer active).Carries (left.callBlock body arguments start)
      (right.callBlock (body.relocate revision.move) arguments (revision.state start)) := by
  cases arguments with
  | nil => exact .error hstart ⟨nofun, rfl⟩
  | cons value rest =>
      have hbody := Carries.withScopes hstart (start.enterCall
        [(Interpreter.blockParameter, value)]).1.scopes fun _ hentered =>
          h.evaluate body hentered
      exact hbody.leaveCall start.scopes.locals

theorem callNative (native : Native) (arguments : List Value)
    (hstart : revision.admits active start) :
    (revision.transfer active).Carries (left.callNative native arguments start)
      (right.callNative native arguments (revision.state start)) := by
  unfold Interpreter.callNative
  simp only
  split
  · have hperform := native.operation.carries_perform
      (fun callee arguments _ hafter => h.call callee arguments hafter) hstart arguments
    exact hperform.andThen fun result after hafter => .realize hafter result
  · exact .error hstart ⟨nofun, rfl⟩

theorem callCallable (callable : Callable) (arguments : List Value)
    (hstart : revision.admits active start) :
    (revision.transfer active).Carries (left.callCallable callable arguments start)
      (right.callCallable (callable.relocate revision.move) arguments
        (revision.state start)) := by
  cases callable with
  | sub name parameters body => exact h.callSub name parameters body arguments hstart
  | block body => exact h.callBlock body arguments hstart
  | native native => exact h.callNative native arguments hstart

/-! ### Programs -/

theorem runStatements (program : Program) (hstart : revision.admits active start) :
    (revision.transfer active).Carries (left.runStatements program start)
      (right.runStatements (Stmt.relocateAll revision.move program) (revision.state start)) := by
  have herror : ∀ {statement : Stmt} {after : State} {failure : RuntimeError},
      revision.admits active after → failure.IsPlain →
        (revision.transfer active).Carries
          (.error (failure.locatedAt statement.position) after : Outcome Unit)
          (.error (failure.locatedAt (statement.relocate revision.move).position)
            (revision.state after)) := by
    intro statement after failure hafter hplain
    have hplaced : (revision.transfer active).Carries (.error failure after : Outcome Unit)
        (.error failure (revision.state after)) := .error hafter hplain
    exact hplaced.locatedAt statement.position_relocate
  induction program generalizing start with
  | nil => exact .ok hstart ()
  | cons statement rest ih =>
      refine (h.execute statement hstart).andThen fun flow after hafter => ?_
      cases flow with
      | normal => exact ih hafter
      | returns value => exact herror hafter ⟨nofun, rfl⟩
      | breaks => exact herror hafter ⟨nofun, rfl⟩
      | next => exact herror hafter ⟨nofun, rfl⟩

theorem run (program : Program) (hstart : revision.admits active start) :
    (revision.transfer active).Carries (left.run program start)
      (right.run (Stmt.relocateAll revision.move program) (revision.state start)) := by
  rw [Interpreter.run_eq, Interpreter.run_eq]
  exact (h.runStatements program hstart).andThen fun _ after hafter => .flush hafter

end Revision.Relates

section

variable {revision : Revision} {active : Nat} {left right : Interpreter}

/-- A callable works within one more active call. A call that is refused has to be refused in the
revised state as well, unless nothing is said about stack overflows. -/
theorem Revision.Relates.callValue (h : revision.Relates (active + 1) left right)
    (callee : Value) (arguments : List Value) {start : State}
    (hstart : revision.admits active start)
    (hrefused : ∀ ref, callee = .function ref → start.maxCallDepth ≤ start.callDepth →
      revision.lenient ∨ revision.limit start.maxCallDepth = start.maxCallDepth ∧
        revision.error (.stackOverflow start.maxCallDepth) =
          .stackOverflow start.maxCallDepth) :
    (revision.transfer active).Carries (left.callValue callee arguments start)
      (right.callValue callee arguments (revision.state start)) := by
  cases callee with
  | function ref =>
      unfold Interpreter.callValue
      simp only
      by_cases hdepth : start.maxCallDepth ≤ start.callDepth
      · rw [if_pos hdepth]
        rcases hrefused ref rfl hdepth with hlenient | ⟨hlimit, herror⟩
        · exact ⟨hstart, .inr ⟨hlenient, rfl⟩⟩
        · have hrevised : (revision.state start).maxCallDepth = start.maxCallDepth := hlimit
          have hcarries : revision.error (.stackOverflow start.maxCallDepth) =
            .stackOverflow (revision.state start).maxCallDepth := by rw [hrevised, herror]
          refine ⟨hstart, .inl ?_⟩
          rw [if_pos (hrevised ▸ hdepth), ← hcarries]
          rfl
      · have hlimit := revision.lt_limit hstart (Nat.lt_of_not_le hdepth)
        have hinner := revision.admits_enterLevel hstart (Nat.lt_of_not_le hdepth)
        have hrevised : ¬ (revision.state start).maxCallDepth ≤ (revision.state start).callDepth :=
          Nat.not_le_of_lt hlimit
        have hheap : (revision.state start).heap = start.heap.relocate revision.move := rfl
        rw [if_neg hdepth, if_neg hrevised, hheap, Heap.callable?_relocate]
        cases start.heap.callable? ref with
        | none => exact .error hstart (RuntimeError.isOrdinary_notCallable _).isPlain
        | some callable => exact (h.callCallable callable arguments hinner).leaveLevel
  | _ => exact .error hstart (RuntimeError.isOrdinary_notCallable _).isPlain

/-- A call that is refused remains so, with the same error, or nothing is said about it. -/
def Revision.KeepsRefusals (revision : Revision) : Prop :=
  ∀ limit, revision.lenient ∨ revision.limit limit = limit ∧
    revision.error (.stackOverflow limit) = .stackOverflow limit

/-- Whatever an interpreter runs, it does the same in the revised state. -/
theorem Revision.KeepsRefusals.relates_ofFuel (h : revision.KeepsRefusals) (fuel active : Nat) :
    revision.Relates active (.ofFuel fuel) (.ofFuel fuel) := by
  induction fuel generalizing active with
  | zero =>
      exact
        { evaluate := fun _ _ _ => .outOfFuel
          execute := fun _ _ _ => .outOfFuel
          call := fun _ _ _ _ => .outOfFuel
          rounds := rfl }
  | succ fuel ih =>
      exact
        { evaluate := fun expression _ hstart =>
            ((ih active).evaluateExpr expression hstart).locatedAt expression.position_relocate
          execute := fun statement _ hstart =>
            ((ih active).executeStmt statement hstart).locatedAt statement.position_relocate
          call := fun callee arguments _ hstart =>
            (ih (active + 1)).callValue callee arguments hstart fun _ _ _ => h _
          rounds := rfl }

end

end ScriptEngine
