import ScriptEngine.Proofs.Execution.Points
import ScriptEngine.Proofs.Library.Effects

/-!
# Runs advance

Each rule of the interpreter changes the state only as `Advances` lists, and keeps to a regime,
provided that the ways to work on the parts of a program do. Induction on the fuel removes the
proviso, for runs that stop at any point as well as for those that do not.
-/

namespace ScriptEngine

open Outcome

variable {regime : Regime} {activity : Activity}

namespace State

theorem advances_newArray (state : State) (items : Array Value) :
    (state.newArray items).AdvancesFrom regime activity state :=
  .after (.allocate activity (.newArray items (.refl state.heap)) id) (.ok _)

theorem advances_newHash (state : State) (table : Table) :
    (state.newHash table).AdvancesFrom regime activity state :=
  .after (.allocate activity (.newHash table (.refl state.heap)) id) (.ok _)

theorem advances_newFunction (state : State) {callable : Callable}
    (h : regime.callable callable) :
    (state.newFunction callable).AdvancesFrom regime activity state :=
  .after (.allocate activity (.newFunction callable (.refl state.heap)) (·.newFunction h)) (.ok _)

theorem advances_assign (hactivity : activity ≠ .hosting) (state : State) (name : String)
    (value : Value) : (state.assign name value).AdvancesFrom regime activity state := by
  unfold assign
  split
  · rename_i scopes hscopes
    exact .after (.assign hactivity hscopes) (.ok ())
  · exact .ordinary ⟨nofun, rfl⟩

theorem advances_stepName (hactivity : activity ≠ .hosting) (state : State) (name : String)
    (delta : Number) : (state.stepName name delta).AdvancesFrom regime activity state := by
  unfold stepName
  split
  · exact .ordinary ⟨nofun, rfl⟩
  · exact .ofExcept_andThen (failsPlainly_stepped _ _) fun value =>
      (state.advances_assign hactivity name value).map _

theorem advances_declare {names : String → Prop} (state : State) {name : String}
    (h : names name) (value : Value) :
    (state.declare name value).AdvancesFrom regime (.executing names) state := by
  unfold declare
  split
  · rename_i scopes hscopes
    unfold Scopes.declare? at hscopes
    split at hscopes
    · simp at hscopes
    · rw [← Option.some.inj hscopes]
      exact .after (.bind state value h) (.ok ())
  · exact .ordinary ⟨nofun, rfl⟩

theorem advances_newPairs (state : State) (entries : List (Key × Value)) :
    (state.newPairs entries).AdvancesFrom regime activity state := by
  induction entries generalizing state with
  | nil => exact .ok _
  | cons entry rest ih =>
      exact (state.advances_newArray _).andThen fun pair state => (ih state).map _

theorem advances_iterationItems (state : State) (subject : Value) :
    (state.iterationItems subject).AdvancesFrom regime activity state := by
  unfold iterationItems
  split
  · exact .ok _
  · exact state.advances_newPairs _
  · exact .ordinary ⟨nofun, rfl⟩

end State

/-- A slot that a run may write: any item, and an entry that is there already or that has the key
of a member which may be added. -/
def Slot.IsWritable (regime : Regime) (heap : Heap) : Slot → Prop
  | .item _ _ => True
  | .entry ref key => (heap.table ref).contains key ∨
      ∃ property, regime.property property ∧ key = .string property

theorem Slot.IsWritable.mono {slot : Slot} {before after : Heap} {added : String → Prop}
    (h : slot.IsWritable regime before) (hgrows : before.Grows added after) :
    slot.IsWritable regime after := by
  cases slot with
  | item ref place => trivial
  | entry ref key => exact h.imp_left (hgrows.keeps ref key)

namespace Heap

variable {heap : Heap} {container index : Value} {property : String} {slot : Slot}

theorem isWritable_of_entrySlot {ref : HashRef} {key : Key}
    (h : heap.entrySlot ref key = .ok slot) : slot.IsWritable regime heap := by
  unfold entrySlot at h
  split at h
  · rename_i hcontains
    rw [← Except.ok.inj h]
    exact .inl hcontains
  · simp at h

theorem isWritable_of_indexSlot {refused : Value → RuntimeError}
    (h : heap.indexSlot container index refused = .ok slot) : slot.IsWritable regime heap := by
  unfold indexSlot at h
  split at h
  · rename_i ref
    cases hslot : arraySlot index (heap.items ref).size with
    | ok place =>
        rw [hslot] at h
        rw [← Except.ok.inj h]
        trivial
    | error failure =>
        rw [hslot] at h
        simp [Except.map] at h
  · split at h
    · exact isWritable_of_entrySlot h
    · simp at h
  · simp at h

theorem isWritable_of_memberSlot (h : heap.memberSlot container property = .ok slot) :
    slot.IsWritable regime heap := by
  unfold memberSlot at h
  split at h
  · exact isWritable_of_entrySlot h
  · simp at h

theorem isWritable_of_newMemberSlot (h : newMemberSlot container property = .ok slot)
    (hproperty : regime.property property) (heap : Heap) : slot.IsWritable regime heap := by
  unfold newMemberSlot at h
  split at h
  · rw [← Except.ok.inj h]
    exact .inr ⟨property, hproperty, rfl⟩
  · simp at h

end Heap

namespace State

theorem advances_writeSlot (hactivity : activity ≠ .hosting) {state : State} {slot : Slot}
    (hslot : slot.IsWritable regime state.heap) (value : Value) :
    (state.writeSlot slot value).AdvancesFrom regime activity state := by
  cases slot with
  | item ref place => exact .after (.writeItem hactivity state ref place value) (.ok ())
  | entry ref key => exact .after (.writeEntry hactivity value hslot) (.ok ())

theorem advances_stepSlot (hactivity : activity ≠ .hosting) {state : State} {slot : Slot}
    (hslot : slot.IsWritable regime state.heap) (delta : Number) :
    (state.stepSlot slot delta).AdvancesFrom regime activity state :=
  .ofExcept_andThen (failsPlainly_stepped _ _) fun value =>
    (advances_writeSlot hactivity hslot value).map _

end State

namespace Interpreter

theorem advances_evaluateName (name : String) (state : State) :
    (evaluateName name state).AdvancesFrom regime activity state := by
  unfold evaluateName
  split
  · exact .ok _
  · exact .ordinary ⟨nofun, rfl⟩

/-- Unless a regime is lenient, no `break` or `next` leaves the body of a stored sub. -/
def Confines (interpreter : Interpreter) (regime : Regime) : Prop :=
  ∀ {name : Option String} {parameters : List String} {body : List Stmt},
    regime.callable (.sub name parameters body) → ∀ state,
      (interpreter.executeBody body state).Gives fun flow => flow.isLoopControl → regime.IsLenient

/-- What is known of the ways to work on the parts of a program: they keep to a regime, and no
statement binds other names than the given ones in the innermost frame. -/
structure Follows (interpreter : Interpreter) (regime : Regime) (names : String → Prop) :
    Prop where
  evaluate {expression : Expr} (hcode : regime.code (.expression expression)) (state : State) :
    (interpreter.evaluate expression state).AdvancesFrom regime .evaluating state
  execute {statement : Stmt} (hcode : regime.code (.statement statement)) (state : State) :
    (interpreter.execute statement state).AdvancesFrom regime (.executing names) state
  call (callee : Value) (arguments : List Value) (state : State) :
    (interpreter.call callee arguments state).AdvancesFrom regime .hosting state
  confines : interpreter.Confines regime

variable {interpreter : Interpreter} {names : String → Prop}

theorem advances_executeSub {position : Position} {name : String} (hname : names name)
    {parameters : List String} {body : List Stmt}
    (hcode : regime.code (.statement (.sub position name parameters body))) (state : State) :
    (executeSub name parameters body state).AdvancesFrom regime (.executing names) state := by
  have hcallable := regime.callable_of_made hcode rfl
  refine (state.advances_newFunction hcallable).andThen fun value state => ?_
  exact (state.advances_declare hname value).map _

namespace Follows

variable (h : interpreter.Follows regime names)
include h

/-! ### Expressions -/

theorem evaluateAll {expressions : List Expr} (hcode : regime.All (Code.ofExpressions expressions))
    (state : State) :
    (interpreter.evaluateAll expressions state).AdvancesFrom regime .evaluating state := by
  induction expressions generalizing state with
  | nil => exact .ok _
  | cons expression rest ih =>
      obtain ⟨hhead, hrest⟩ := Regime.All.cons_iff.mp hcode
      exact (h.evaluate hhead state).andThen fun value state => (ih hrest state).map _

theorem evaluateOr (default : Value) {expression : Option Expr}
    (hcode : regime.All (Code.ofOptional expression)) (state : State) :
    (interpreter.evaluateOr default expression state).AdvancesFrom regime .evaluating state := by
  cases expression with
  | none => exact .ok default
  | some expression => exact h.evaluate (Regime.All.cons_iff.mp hcode).1 state

theorem evaluateEntries {entries : List Entry} (hcode : regime.All (Code.ofEntries entries))
    (table : Table) (state : State) :
    (interpreter.evaluateEntries entries table state).AdvancesFrom regime .evaluating state := by
  induction entries generalizing table state with
  | nil => exact .ok table
  | cons entry rest ih =>
      simp only [Code.ofEntries_cons, Regime.All.cons_iff] at hcode
      obtain ⟨hkey, hvalue, hrest⟩ := hcode
      refine (h.evaluate hkey state).andThen fun key state => ?_
      refine ((AdvancesFrom.ofExcept (failsPlainly_toKey key)).locatedAt _).andThen
        fun key state => ?_
      exact (h.evaluate hvalue state).andThen fun value state => ih hrest _ state

theorem evaluateIndex {object index : Expr} (hobject : regime.code (.expression object))
    (hindex : regime.code (.expression index)) (state : State) :
    (interpreter.evaluateIndex object index state).AdvancesFrom regime .evaluating state := by
  refine (h.evaluate hobject state).andThen fun container state => ?_
  refine (h.evaluate hindex state).andThen fun index state => ?_
  have hslot := state.heap.failsPlainly_indexSlot container index
    RuntimeError.isOrdinary_notIndexable
  exact (AdvancesFrom.ofExcept hslot).map _

theorem evaluateMember {object : Expr} (hobject : regime.code (.expression object))
    (property : String) (state : State) :
    (interpreter.evaluateMember object property state).AdvancesFrom regime .evaluating state :=
  (h.evaluate hobject state).andThen fun container state =>
    (AdvancesFrom.ofExcept (state.heap.failsPlainly_memberSlot container property)).map _

theorem evaluateCall {callee : Expr} {arguments : List Expr}
    (hcode : regime.All (.expression callee :: Code.ofExpressions arguments)) (state : State) :
    (interpreter.evaluateCall callee arguments state).AdvancesFrom regime .evaluating state := by
  obtain ⟨hcallee, harguments⟩ := Regime.All.cons_iff.mp hcode
  refine (h.evaluate hcallee state).andThen fun callee state => ?_
  refine (h.evaluateAll harguments state).andThen fun arguments state => ?_
  exact (h.call callee arguments state).of_hosting

theorem evaluateBinary (operator : BinaryOperator) {left right : Expr}
    (hleft : regime.code (.expression left)) (hright : regime.code (.expression right))
    (state : State) :
    (interpreter.evaluateBinary operator left right state).AdvancesFrom regime .evaluating
      state := by
  refine (h.evaluate hleft state).andThen fun left state => ?_
  split
  · exact .ok left
  · exact (h.evaluate hright state).andThen fun right state =>
      .ofExcept (state.heap.failsPlainly_applyBinary operator left right)

theorem stepTarget {target : Expr} (hcode : regime.code (.expression target)) (delta : Number)
    (state : State) :
    (interpreter.stepTarget target delta state).AdvancesFrom regime .evaluating state := by
  have hparts := Regime.All.of_code hcode
  unfold Interpreter.stepTarget
  split
  · exact state.advances_stepName Activity.evaluating_ne_hosting _ delta
  · simp only [Code.parts, Expr.parts, Regime.All.cons_iff] at hparts
    obtain ⟨hobject, hindex, -⟩ := hparts
    refine (h.evaluate hobject state).andThen fun container state => ?_
    refine (h.evaluate hindex state).andThen fun index state => ?_
    have hplain := state.heap.failsPlainly_indexSlot container index
      RuntimeError.isOrdinary_notIndexable
    cases hslot : state.heap.indexSlot container index .notIndexable with
    | ok slot =>
        exact State.advances_stepSlot Activity.evaluating_ne_hosting
          (Heap.isWritable_of_indexSlot hslot) delta
    | error failure => exact .ordinary (hplain failure hslot)
  · simp only [Code.parts, Expr.parts, Regime.All.cons_iff] at hparts
    refine (h.evaluate hparts.1 state).andThen fun container state => ?_
    have hplain := state.heap.failsPlainly_memberSlot container
    cases hslot : state.heap.memberSlot container _ with
    | ok slot =>
        exact State.advances_stepSlot Activity.evaluating_ne_hosting
          (Heap.isWritable_of_memberSlot hslot) delta
    | error failure => exact .ordinary (hplain _ failure hslot)
  · exact .ordinary RuntimeError.isOrdinary_invalidStepTarget

theorem step (direction : Direction) {target : Expr} {amount : Option Expr}
    (hcode : regime.All (.expression target :: Code.ofOptional amount)) (state : State) :
    (interpreter.step direction target amount state).AdvancesFrom regime .evaluating state := by
  obtain ⟨htarget, hamount⟩ := Regime.All.cons_iff.mp hcode
  refine (h.evaluateOr _ hamount state).andThen fun amount state => ?_
  split
  · exact h.stepTarget htarget _ state
  · exact .ordinary ⟨nofun, rfl⟩

theorem evaluateExpr {expression : Expr} (hcode : regime.code (.expression expression))
    (state : State) :
    (interpreter.evaluateExpr expression state).AdvancesFrom regime .evaluating state := by
  have hparts := Regime.All.of_code hcode
  simp only [Code.parts] at hparts
  cases expression with
  | number => exact .ok _
  | string => exact .ok _
  | boolean => exact .ok _
  | nil => exact .ok _
  | array _ elements =>
      exact (h.evaluateAll hparts state).andThen fun values state => state.advances_newArray _
  | hash _ entries =>
      exact (h.evaluateEntries hparts .empty state).andThen fun table state =>
        state.advances_newHash table
  | name _ name => exact advances_evaluateName name state
  | index _ object index =>
      simp only [Expr.parts, Regime.All.cons_iff] at hparts
      exact h.evaluateIndex hparts.1 hparts.2.1 state
  | member _ object property =>
      simp only [Expr.parts, Regime.All.cons_iff] at hparts
      exact h.evaluateMember hparts.1 property state
  | call _ callee arguments => exact h.evaluateCall hparts state
  | unary _ operator operand =>
      simp only [Expr.parts, Regime.All.cons_iff] at hparts
      exact (h.evaluate hparts.1 state).andThen fun operand state =>
        .ofExcept (failsPlainly_applyUnary operator operand)
  | binary _ operator left right =>
      simp only [Expr.parts, Regime.All.cons_iff] at hparts
      exact h.evaluateBinary operator hparts.1 hparts.2.1 state
  | block _ body => exact state.advances_newFunction (regime.callable_of_made hcode rfl)
  | function _ parameters body =>
      exact state.advances_newFunction (regime.callable_of_made hcode rfl)
  | step _ direction target amount => exact h.step direction hparts state

/-! ### Statements -/

theorem executeBody {body : List Stmt} (hcode : regime.All (Code.ofBody body)) (state : State) :
    (interpreter.executeBody body state).AdvancesFrom regime (.executing names) state := by
  induction body generalizing state with
  | nil => exact .ok _
  | cons statement rest ih =>
      obtain ⟨hhead, hrest⟩ := Regime.All.cons_iff.mp hcode
      refine (h.execute hhead state).andThen fun flow state => ?_
      cases flow with
      | normal => exact ih hrest state
      | returns value => exact .ok _
      | breaks => exact .ok _
      | next => exact .ok _

theorem executeFallback {fallback : Option (List Stmt)}
    (hcode : regime.All (Code.ofFallback fallback)) (state : State) :
    (interpreter.executeFallback fallback state).AdvancesFrom regime (.executing names)
      state := by
  cases fallback with
  | none => exact .ok _
  | some body => exact h.executeBody hcode state

theorem executeDeclare {name : String} (hname : names name) {value : Option Expr}
    (hcode : regime.All (Code.ofOptional value)) (state : State) :
    (interpreter.executeDeclare name value state).AdvancesFrom regime (.executing names)
      state := by
  unfold Interpreter.executeDeclare
  split
  · exact .ordinary ⟨nofun, rfl⟩
  · exact (h.evaluateOr _ hcode state).executing_of_evaluating.andThen fun value state =>
      (state.advances_declare hname value).map _

theorem executeFirst (accepts : Value → Bool) {branches : List Branch}
    {fallback : Option (List Stmt)} (hbranches : regime.All (Code.ofBranches branches))
    (hfallback : regime.All (Code.ofFallback fallback)) (state : State) :
    (interpreter.executeFirst accepts branches fallback state).AdvancesFrom regime
      (.executing names) state := by
  induction branches generalizing state with
  | nil => exact h.executeFallback hfallback state
  | cons branch rest ih =>
      simp only [Code.ofBranches_cons, Regime.All.append_iff, Regime.All.cons_iff] at hbranches
      obtain ⟨⟨hcondition, hbody⟩, hrest⟩ := hbranches
      refine (h.evaluate hcondition state).executing_of_evaluating.andThen fun value state => ?_
      split
      · exact h.executeBody hbody state
      · exact ih hrest state

theorem executeConditional (sense : Sense) {condition : Expr} {body : List Stmt}
    {alternatives : List Branch} {fallback : Option (List Stmt)}
    (hcondition : regime.code (.expression condition)) (hbody : regime.All (Code.ofBody body))
    (halternatives : regime.All (Code.ofBranches alternatives))
    (hfallback : regime.All (Code.ofFallback fallback)) (state : State) :
    (interpreter.executeConditional sense condition body alternatives fallback state).AdvancesFrom
      regime (.executing names) state := by
  refine (h.evaluate hcondition state).executing_of_evaluating.andThen fun value state => ?_
  split
  · exact h.executeBody hbody state
  · exact h.executeFirst _ halternatives hfallback state

theorem executeLoop (sense : Sense) {condition : Expr} {body : List Stmt}
    (hcode : regime.All (.expression condition :: Code.ofBody body)) (rounds : Nat)
    (state : State) :
    (interpreter.executeLoop sense condition body rounds state).AdvancesFrom regime
      (.executing names) state := by
  obtain ⟨hcondition, hbody⟩ := Regime.All.cons_iff.mp hcode
  induction rounds generalizing state with
  | zero => exact .outOfFuel
  | succ rounds ih =>
      refine (h.evaluate hcondition state).executing_of_evaluating.andThen fun value state => ?_
      split
      · refine (h.executeBody hbody state).andThen fun flow state => ?_
        split
        · exact .ok _
        · exact ih state
      · exact .ok _

theorem executePostLoop (sense : Sense) {condition : Expr} {body : List Stmt}
    (hcode : regime.All (.expression condition :: Code.ofBody body)) (rounds : Nat)
    (state : State) :
    (interpreter.executePostLoop sense body condition rounds state).AdvancesFrom regime
      (.executing names) state := by
  obtain ⟨hcondition, hbody⟩ := Regime.All.cons_iff.mp hcode
  induction rounds generalizing state with
  | zero => exact .outOfFuel
  | succ rounds ih =>
      refine (h.executeBody hbody state).andThen fun flow state => ?_
      split
      · exact .ok _
      · refine (h.evaluate hcondition state).executing_of_evaluating.andThen fun value state => ?_
        split
        · exact ih state
        · exact .ok _

theorem executeRounds {name : String} (hname : names name) {body : List Stmt}
    (hcode : regime.All (Code.ofBody body)) (items : List Value) (state : State) :
    (interpreter.executeRounds name body items state).AdvancesFrom regime (.executing names)
      state := by
  induction items generalizing state with
  | nil => exact .ok _
  | cons item rest ih =>
      refine .after (.bind state item hname) ?_
      refine (h.executeBody hcode (state.bind name item)).andThen fun flow state => ?_
      split
      · exact .ok _
      · exact ih state

theorem executeEach {name : String} (hname : names name) {iterable : Expr} {body : List Stmt}
    (hcode : regime.All (.expression iterable :: Code.ofBody body)) (state : State) :
    (interpreter.executeEach name iterable body state).AdvancesFrom regime (.executing names)
      state := by
  obtain ⟨hiterable, hbody⟩ := Regime.All.cons_iff.mp hcode
  refine (h.evaluate hiterable state).executing_of_evaluating.andThen fun subject state => ?_
  refine ((state.advances_iterationItems subject).locatedAt _).andThen fun items state => ?_
  exact h.executeRounds hname hbody items state

theorem executeCompare {subject : Expr} {cases : List Branch} {fallback : Option (List Stmt)}
    (hsubject : regime.code (.expression subject)) (hcases : regime.All (Code.ofBranches cases))
    (hfallback : regime.All (Code.ofFallback fallback)) (state : State) :
    (interpreter.executeCompare subject cases fallback state).AdvancesFrom regime
      (.executing names) state :=
  (h.evaluate hsubject state).executing_of_evaluating.andThen fun _ state =>
    h.executeFirst _ hcases hfallback state

theorem assignIndex (position : Position) {object index value : Expr}
    (hobject : regime.code (.expression object)) (hindex : regime.code (.expression index))
    (hvalue : regime.code (.expression value)) (state : State) :
    (interpreter.assignIndex position object index value state).AdvancesFrom regime
      (.executing names) state := by
  refine (h.evaluate hobject state).executing_of_evaluating.andThen fun container state => ?_
  refine (h.evaluate hindex state).executing_of_evaluating.andThen fun index state => ?_
  have hplain (heap : Heap) := heap.failsPlainly_indexSlot container index
    RuntimeError.isOrdinary_notIndexAssignable
  dsimp only
  cases hslot : state.heap.indexSlot container index .notIndexAssignable with
  | error failure => exact (AdvancesFrom.ordinary (hplain _ failure hslot)).locatedAt position
  | ok slot =>
      have hwritable : slot.IsWritable regime state.heap := Heap.isWritable_of_indexSlot hslot
      refine (h.evaluate hvalue state).executing_of_evaluating.andThen_of_eq
        fun value after _ hafter => ?_
      cases container with
      | array ref =>
          dsimp only
          cases hagain : after.heap.indexSlot (.array ref) index .notIndexAssignable with
          | error failure =>
              exact (AdvancesFrom.ordinary (hplain _ failure hagain)).locatedAt position
          | ok slot =>
              exact State.advances_writeSlot Activity.executing_ne_hosting
                (Heap.isWritable_of_indexSlot hagain) value
      | _ =>
          -- The key is still there, whatever the value has done.
          exact State.advances_writeSlot Activity.executing_ne_hosting
            (hwritable.mono hafter.grows) value

theorem assignMember (position : Position) {object value : Expr} {property : String}
    (hproperty : regime.property property) (hobject : regime.code (.expression object))
    (hvalue : regime.code (.expression value)) (state : State) :
    (interpreter.assignMember position object property value state).AdvancesFrom regime
      (.executing names) state := by
  refine (h.evaluate hobject state).executing_of_evaluating.andThen fun container state => ?_
  have hplain := Heap.failsPlainly_newMemberSlot container property
  cases hslot : Heap.newMemberSlot container property with
  | ok slot =>
      refine (h.evaluate hvalue state).executing_of_evaluating.andThen fun value state => ?_
      exact State.advances_writeSlot Activity.executing_ne_hosting
        (Heap.isWritable_of_newMemberSlot hslot hproperty state.heap) value
  | error failure => exact (AdvancesFrom.ordinary (hplain failure hslot)).locatedAt position

theorem assign {position : Position} {target value : Expr}
    (hproperty : ∀ property,
      (Stmt.assign position target value).assignedMember? = some property →
        regime.property property)
    (htarget : regime.code (.expression target)) (hvalue : regime.code (.expression value))
    (state : State) :
    (interpreter.assign target value state).AdvancesFrom regime (.executing names) state := by
  have hparts := Regime.All.of_code htarget
  unfold Interpreter.assign
  split
  · exact (h.evaluate hvalue state).executing_of_evaluating.andThen fun value state =>
      (state.advances_assign Activity.executing_ne_hosting _ value).locatedAt _
  · simp only [Code.parts, Expr.parts, Regime.All.cons_iff] at hparts
    exact h.assignIndex _ hparts.1 hparts.2.1 hvalue state
  · simp only [Code.parts, Expr.parts, Regime.All.cons_iff] at hparts
    exact h.assignMember _ (hproperty _ rfl) hparts.1 hvalue state
  · have hfailure := regime.failure_of_isOrdinary RuntimeError.isOrdinary_invalidTarget
    exact .error (regime.failure_locatedAt hfailure _)

theorem executeStmt {statement : Stmt} (hcode : regime.code (.statement statement))
    (hname : ∀ name, statement.declaredName? = some name → names name)
    (hproperty : ∀ property, statement.assignedMember? = some property →
      regime.property property) (state : State) :
    (interpreter.executeStmt statement state).AdvancesFrom regime (.executing names) state := by
  have hparts := Regime.All.of_code hcode
  simp only [Code.parts] at hparts
  cases statement with
  | declare _ name value => exact h.executeDeclare (hname name rfl) hparts state
  | sub _ name parameters body => exact advances_executeSub (hname name rfl) hcode state
  | conditional _ sense condition body alternatives fallback =>
      simp only [Stmt.parts, Regime.All.append_iff, Regime.All.cons_iff] at hparts
      obtain ⟨⟨⟨hcondition, hbody⟩, halternatives⟩, hfallback⟩ := hparts
      exact h.executeConditional sense hcondition hbody halternatives hfallback state
  | loop _ sense condition body => exact h.executeLoop sense hparts _ state
  | postLoop _ sense body condition => exact h.executePostLoop sense hparts _ state
  | each _ name iterable body => exact h.executeEach (hname name rfl) hparts state
  | choose _ cases fallback =>
      obtain ⟨hcases, hfallback⟩ := Regime.All.append_iff.mp hparts
      exact h.executeFirst _ hcases hfallback state
  | compare _ subject cases fallback =>
      simp only [Stmt.parts, Regime.All.append_iff, Regime.All.cons_iff] at hparts
      obtain ⟨⟨hsubject, hcases⟩, hfallback⟩ := hparts
      exact h.executeCompare hsubject hcases hfallback state
  | call _ callee arguments => exact (h.evaluateCall hparts state).executing_of_evaluating.map _
  | returns _ value => exact (h.evaluateOr _ hparts state).executing_of_evaluating.map _
  | assign _ target value =>
      simp only [Stmt.parts, Regime.All.cons_iff] at hparts
      exact (h.assign hproperty hparts.1 hparts.2.1 state).map _
  | breaks => exact .ok _
  | next => exact .ok _
  | step _ direction target amount =>
      exact (h.step direction hparts state).executing_of_evaluating.map _

/-! ### Calls -/

theorem callSub {name : Option String} {parameters : List String} {body : List Stmt}
    (hcallable : regime.callable (.sub name parameters body)) (arguments : List Value)
    (state : State) :
    (interpreter.callSub name parameters body arguments state).AdvancesFrom regime .hosting
      state := by
  have hbody : regime.All (Code.ofBody body) := .of_callable hcallable
  unfold Interpreter.callSub
  split
  · exact .ordinary ⟨nofun, rfl⟩
  · refine AdvancesFrom.andThen_of_eq (.inFrame (h.executeBody hbody _))
      fun flow state hflow _ => ?_
    have hlenient := ((h.confines hcallable _).mapState _).of_eq hflow
    cases flow with
    | normal => exact .ok _
    | returns value => exact .ok _
    | breaks => exact .error (hlenient rfl _)
    | next => exact .error (hlenient rfl _)

theorem callBlock {body : Expr} (hcallable : regime.callable (.block body))
    (arguments : List Value) (state : State) :
    (interpreter.callBlock body arguments state).AdvancesFrom regime .hosting state := by
  have hbody : regime.All [.expression body] := .of_callable hcallable
  cases arguments with
  | nil => exact .ordinary ⟨nofun, rfl⟩
  | cons value rest => exact .inFrame (h.evaluate (Regime.All.cons_iff.mp hbody).1 _)

theorem callNative (native : Native) (arguments : List Value) (state : State) :
    (interpreter.callNative native arguments state).AdvancesFrom regime .hosting state := by
  unfold Interpreter.callNative
  simp only
  split
  · exact (native.operation.advances_perform h.call arguments state).andThen
      fun result state => state.advances_realize result
  · exact .ordinary ⟨nofun, rfl⟩

theorem callCallable {callable : Callable} (hcallable : regime.callable callable)
    (arguments : List Value) (state : State) :
    (interpreter.callCallable callable arguments state).AdvancesFrom regime .hosting state := by
  cases callable with
  | sub name parameters body => exact h.callSub hcallable arguments state
  | block body => exact h.callBlock hcallable arguments state
  | native native => exact h.callNative native arguments state

theorem callValue (callee : Value) (arguments : List Value) (state : State) :
    (interpreter.callValue callee arguments state).AdvancesFrom regime .hosting state := by
  intro hadmits
  unfold Interpreter.callValue
  split
  · split
    · exact AdvancesFrom.error (regime.failure_stackOverflow _) hadmits
    · split
      · rename_i hcallable
        have hcall := h.callCallable (hadmits.of_callable? hcallable) arguments (enterLevel state)
        exact hcall.inLevel hadmits
      · exact AdvancesFrom.ordinary ⟨nofun, rfl⟩ hadmits
  · exact AdvancesFrom.ordinary ⟨nofun, rfl⟩ hadmits

/-! ### Programs -/

theorem runStatements {program : Program} (hcode : regime.All (Code.ofBody program))
    (hflow : ∀ statement ∈ program, ∀ state,
      (interpreter.execute statement state).Gives fun flow => flow = .normal ∨ regime.IsLenient)
    (state : State) :
    (interpreter.runStatements program state).AdvancesFrom regime (.executing names) state := by
  induction program generalizing state with
  | nil => exact .ok _
  | cons statement rest ih =>
      obtain ⟨hhead, hrest⟩ := Regime.All.cons_iff.mp hcode
      obtain ⟨hheadFlow, hrestFlow⟩ := List.forall_mem_cons.mp hflow
      refine (h.execute hhead state).andThen_of_eq fun flow after hafter _ => ?_
      have hflow := (hheadFlow state).of_eq hafter
      cases flow with
      | normal => exact ih hrest hrestFlow after
      | returns value => exact .error (hflow.resolve_left nofun _)
      | breaks => exact .error (hflow.resolve_left nofun _)
      | next => exact .error (hflow.resolve_left nofun _)

theorem run {program : Program} (hcode : regime.All (Code.ofBody program))
    (hflow : ∀ statement ∈ program, ∀ state,
      (interpreter.execute statement state).Gives fun flow => flow = .normal ∨ regime.IsLenient)
    (state : State) :
    (interpreter.run program state).AdvancesFrom regime (.executing names) state := by
  have hrun := h.runStatements hcode hflow state
  unfold Interpreter.run
  revert hrun
  cases interpreter.runStatements program state with
  | ok value after => exact fun hrun hstart =>
      AdvancesFrom.after (hrun hstart).1 after.advances_flush hstart
  | error failure after => exact id
  | aborted => exact id
  | outOfFuel => exact id

end Follows

/-! ### Runs with stops -/

theorem advances_stopUnless {α : Type} {task : Task} {active : Nat} {state : State}
    {holds : Point → Bool} {failure : RuntimeError} {outcome : Outcome α}
    (hfailure : regime.failure failure)
    (h : holds ⟨task, active, state⟩ → outcome.AdvancesFrom regime activity state) :
    (Point.stopUnless ⟨task, active, state⟩ holds failure outcome).AdvancesFrom regime activity
      state := by
  unfold Point.stopUnless
  split
  · next hpoint => exact h hpoint
  · exact .error hfailure

/-- Wherever a run is stopped, it has kept to a regime that admits what is done at the points at
which it is not. -/
theorem follows_stoppingUnless {holds : Point → Bool} {failure : RuntimeError}
    (names : Nat → String → Prop) (hfailure : regime.failure failure)
    (hname : ∀ point name, holds point → point.Declares name → names point.active name)
    (hproperty : ∀ point property, holds point → point.AssignsMember property →
      regime.property property)
    (hconfines : ∀ fuel active, (stoppingUnless holds failure fuel active).Confines regime)
    (fuel active : Nat) :
    (stoppingUnless holds failure fuel active).Follows regime (names active) := by
  induction fuel generalizing active with
  | zero =>
      exact
        { evaluate := fun _ _ => .outOfFuel
          execute := fun _ _ => .outOfFuel
          call := fun _ _ _ => .outOfFuel
          confines := hconfines 0 active }
  | succ fuel ih =>
      refine ⟨fun hcode state => ?_, fun {statement} hcode state => ?_,
        fun callee arguments state => ?_, hconfines (fuel + 1) active⟩
      · refine advances_stopUnless hfailure fun _ => ?_
        exact ((ih active).evaluateExpr hcode state).locatedAt _
      · refine advances_stopUnless hfailure fun hpoint => ?_
        have hdeclared (name : String) (h : statement.declaredName? = some name) :=
          hname _ name hpoint ⟨statement, rfl, h⟩
        have hassigned (property : String) (h : statement.assignedMember? = some property) :=
          hproperty _ property hpoint ⟨statement, rfl, h⟩
        exact ((ih active).executeStmt hcode hdeclared hassigned state).locatedAt _
      · refine advances_stopUnless hfailure fun _ => ?_
        exact (ih (active + 1)).callValue callee arguments state

/-- The names that are bound at the points within so many calls at which a run is not stopped. -/
def namesAt (holds : Point → Bool) (active : Nat) (name : String) : Prop :=
  ∃ point, holds point ∧ point.active = active ∧ point.Declares name

/-- The members that are assigned at the points at which a run is not stopped. -/
def membersAt (holds : Point → Bool) (property : String) : Prop :=
  ∃ point, holds point ∧ point.AssignsMember property

theorem follows_lax (holds : Point → Bool) (failure : RuntimeError) (fuel active : Nat) :
    (stoppingUnless holds failure fuel active).Follows (.lax (membersAt holds))
      (namesAt holds active) := by
  have hconfines : ∀ fuel active,
      (stoppingUnless holds failure fuel active).Confines (.lax (membersAt holds)) :=
    fun _ _ _ _ _ _ _ => .of_forall (fun _ _ => Regime.isLenient_lax) _
  refine follows_stoppingUnless (namesAt holds) trivial ?_ ?_ hconfines fuel active
  · exact fun point name hpoint hname => ⟨point, hpoint, rfl, hname⟩
  · exact fun point property hpoint hproperty => ⟨point, hpoint, hproperty⟩

/-- What an interpreter runs changes the state only as `Advances` lists. -/
structure IsAdvancing (interpreter : Interpreter) (members : String → Prop)
    (names : String → Prop) : Prop where
  evaluate (expression : Expr) (state : State) :
    (interpreter.evaluate expression state).Ends (Advances (.lax members) .evaluating state)
  execute (statement : Stmt) (state : State) :
    (interpreter.execute statement state).Ends (Advances (.lax members) (.executing names) state)
  executeBody (body : List Stmt) (state : State) :
    (interpreter.executeBody body state).Ends (Advances (.lax members) (.executing names) state)
  call (callee : Value) (arguments : List Value) (state : State) :
    (interpreter.call callee arguments state).Ends (Advances (.lax members) .hosting state)
  run (program : Program) (state : State) :
    (interpreter.run program state).Ends (Advances (.lax members) (.executing names) state)

/-- What a run does up to where it is stopped. -/
theorem isAdvancing_stoppingUnless (holds : Point → Bool) (failure : RuntimeError)
    (fuel active : Nat) :
    (stoppingUnless holds failure fuel active).IsAdvancing (membersAt holds)
      (namesAt holds active) := by
  have h := follows_lax holds failure fuel active
  refine ⟨fun expression state => ?_, fun statement state => ?_, fun body state => ?_,
    fun callee arguments state => ?_, fun program state => ?_⟩
  · exact (h.evaluate trivial state (Regime.admits_lax _)).1
  · exact (h.execute trivial state (Regime.admits_lax _)).1
  · exact (h.executeBody (Regime.all_lax _) state (Regime.admits_lax _)).1
  · exact (h.call callee arguments state (Regime.admits_lax _)).1
  · have hflow : ∀ statement ∈ program, ∀ state,
        ((stoppingUnless holds failure fuel active).execute statement state).Gives
          fun flow => flow = .normal ∨ (Regime.lax (membersAt holds)).IsLenient :=
      fun _ _ _ => .of_forall (fun _ => .inr Regime.isLenient_lax) _
    exact (h.run (Regime.all_lax _) hflow state (Regime.admits_lax _)).1

theorem isAdvancing_ofFuel (fuel : Nat) :
    (ofFuel fuel).IsAdvancing (membersAt fun _ => true) (namesAt (fun _ => true) 0) := by
  have h := isAdvancing_stoppingUnless (fun _ => true) .invalidTarget fuel 0
  rwa [stoppingUnless_true] at h

end Interpreter

end ScriptEngine
