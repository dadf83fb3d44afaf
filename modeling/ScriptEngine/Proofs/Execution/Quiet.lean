import ScriptEngine.Proofs.Execution.Bindings
import ScriptEngine.Proofs.Execution.Names
import ScriptEngine.Proofs.Execution.Slots

/-!
# Elementary statements

An expression without calls and steps does nothing but make new containers and functions. So a
declaration, an assignment, a step or a `return` of such expressions either fails, and leaves
everything there was as it is, or makes one change: to the binding or the slot that it names.
-/

namespace ScriptEngine

open Outcome Interpreter

/-! ### New cells -/

/-- The cells of a heap are those of an earlier one and new ones after them. -/
structure Heap.Extends (after before : Heap) : Prop where
  arrays : before.arrays.toList <+: after.arrays.toList
  hashes : before.hashes.toList <+: after.hashes.toList
  functions : before.functions.toList <+: after.functions.toList

namespace Heap

theorem Extends.refl (heap : Heap) : heap.Extends heap :=
  ⟨List.prefix_rfl, List.prefix_rfl, List.prefix_rfl⟩

theorem Extends.trans {first second third : Heap} (h : second.Extends first)
    (hnext : third.Extends second) : third.Extends first :=
  ⟨h.arrays.trans hnext.arrays, h.hashes.trans hnext.hashes, h.functions.trans hnext.functions⟩

theorem extends_newArray (heap : Heap) (items : Array Value) :
    (heap.newArray items).2.Extends heap :=
  ⟨by simp [newArray], List.prefix_rfl, List.prefix_rfl⟩

theorem extends_newHash (heap : Heap) (table : Table) : (heap.newHash table).2.Extends heap :=
  ⟨List.prefix_rfl, by simp [newHash], List.prefix_rfl⟩

theorem extends_newFunction (heap : Heap) (callable : Callable) :
    (heap.newFunction callable).2.Extends heap :=
  ⟨List.prefix_rfl, List.prefix_rfl, by simp [newFunction]⟩

end Heap

/-- Nothing has happened from one state to the other but that cells have been added. -/
def State.Allocates (before after : State) : Prop :=
  ∃ heap : Heap, heap.Extends before.heap ∧ after = { before with heap := heap }

namespace State.Allocates

variable {first second third : State}

theorem refl (state : State) : state.Allocates state :=
  ⟨state.heap, .refl state.heap, rfl⟩

theorem trans (h : first.Allocates second) (hnext : second.Allocates third) :
    first.Allocates third := by
  obtain ⟨heap, hheap, rfl⟩ := h
  obtain ⟨last, hlast, rfl⟩ := hnext
  exact ⟨last, hheap.trans hlast, rfl⟩

theorem scopes_eq (h : first.Allocates second) : second.scopes = first.scopes := by
  obtain ⟨heap, -, rfl⟩ := h
  rfl

end State.Allocates

/-- However the step ends, nothing has happened but that cells have been added. -/
def Outcome.AllocatesFrom {α : Type} (outcome : Outcome α) (start : State) : Prop :=
  outcome.Ends start.Allocates

namespace Outcome.AllocatesFrom

variable {α β : Type} {outcome : Outcome α} {start : State}

theorem ok (value : α) : (Outcome.ok value start).AllocatesFrom start :=
  .refl start

theorem error (failure : RuntimeError) :
    (Outcome.error failure start : Outcome α).AllocatesFrom start :=
  .refl start

theorem ofExcept (result : Except RuntimeError α) :
    (Outcome.ofExcept result start).AllocatesFrom start := by
  cases result with
  | ok value => exact ok value
  | error failure => exact error failure

theorem andThen {next : α → State → Outcome β} (h : outcome.AllocatesFrom start)
    (hnext : ∀ value middle, (next value middle).AllocatesFrom middle) :
    (outcome.andThen next).AllocatesFrom start := by
  cases outcome with
  | ok value middle => exact (hnext value middle).imp fun _ hafter => State.Allocates.trans h hafter
  | _ => exact h

theorem map (h : outcome.AllocatesFrom start) (transform : α → β) :
    (outcome.map transform).AllocatesFrom start :=
  h.andThen fun value _ => ok (transform value)

theorem locatedAt (h : outcome.AllocatesFrom start) (position : Position) :
    (outcome.locatedAt position).AllocatesFrom start := by
  cases outcome <;> exact h

end Outcome.AllocatesFrom

namespace State

theorem allocates_newArray (state : State) (items : Array Value) :
    (state.newArray items).AllocatesFrom state :=
  ⟨_, state.heap.extends_newArray items, rfl⟩

theorem allocates_newHash (state : State) (table : Table) :
    (state.newHash table).AllocatesFrom state :=
  ⟨_, state.heap.extends_newHash table, rfl⟩

theorem allocates_newFunction (state : State) (callable : Callable) :
    (state.newFunction callable).AllocatesFrom state :=
  ⟨_, state.heap.extends_newFunction callable, rfl⟩

end State

/-! ### Quiet expressions -/

mutual

/-- Nothing is called or stepped when the expression is evaluated. The body of a sub or block is not
evaluated then. -/
def Expr.isQuiet : Expr → Bool
  | .number _ _ => true
  | .string _ _ => true
  | .boolean _ _ => true
  | .nil _ => true
  | .array _ elements => Expr.areQuiet elements
  | .hash _ entries => Entry.areQuiet entries
  | .name _ _ => true
  | .index _ object index => object.isQuiet && index.isQuiet
  | .member _ object _ => object.isQuiet
  | .call _ _ _ => false
  | .unary _ _ operand => operand.isQuiet
  | .binary _ _ left right => left.isQuiet && right.isQuiet
  | .block _ _ => true
  | .function _ _ _ => true
  | .step _ _ _ _ => false

def Expr.areQuiet : List Expr → Bool
  | [] => true
  | expression :: rest => expression.isQuiet && Expr.areQuiet rest

def Entry.areQuiet : List Entry → Bool
  | [] => true
  | .mk key value :: rest => key.isQuiet && value.isQuiet && Entry.areQuiet rest

end

/-- A value that may be missing is quiet if it is there. -/
def Expr.isQuietOr (expression : Option Expr) : Bool :=
  expression.all Expr.isQuiet

namespace Interpreter

/-- Quiet expressions only allocate. -/
def IsQuiet (interpreter : Interpreter) : Prop :=
  ∀ expression : Expr, expression.isQuiet → ∀ state,
    (interpreter.evaluate expression state).AllocatesFrom state

namespace IsQuiet

variable {interpreter : Interpreter} (h : interpreter.IsQuiet)
include h

theorem evaluateAll {expressions : List Expr} (hquiet : Expr.areQuiet expressions) (state : State) :
    (interpreter.evaluateAll expressions state).AllocatesFrom state := by
  induction expressions generalizing state with
  | nil => exact .ok []
  | cons expression rest ih =>
      obtain ⟨hhead, hrest⟩ := Bool.and_eq_true_iff.mp hquiet
      exact (h expression hhead state).andThen fun value middle => (ih hrest middle).map _

theorem evaluateOr (default : Value) {expression : Option Expr}
    (hquiet : Expr.isQuietOr expression) (state : State) :
    (interpreter.evaluateOr default expression state).AllocatesFrom state := by
  cases expression with
  | none => exact .ok default
  | some expression => exact h expression hquiet state

theorem evaluateEntries {entries : List Entry} (hquiet : Entry.areQuiet entries) (table : Table)
    (state : State) : (interpreter.evaluateEntries entries table state).AllocatesFrom state := by
  induction entries generalizing table state with
  | nil => exact .ok table
  | cons entry rest ih =>
      obtain ⟨key, value⟩ := entry
      obtain ⟨hhead, hrest⟩ := Bool.and_eq_true_iff.mp hquiet
      obtain ⟨hkey, hvalue⟩ := Bool.and_eq_true_iff.mp hhead
      refine (h key hkey state).andThen fun found middle => ?_
      refine ((AllocatesFrom.ofExcept found.toKey).locatedAt _).andThen fun found middle => ?_
      exact (h value hvalue middle).andThen fun result middle => ih hrest _ middle

theorem evaluateExpr {expression : Expr} (hquiet : expression.isQuiet) (state : State) :
    (interpreter.evaluateExpr expression state).AllocatesFrom state := by
  cases expression with
  | number => exact .ok _
  | string => exact .ok _
  | boolean => exact .ok _
  | nil => exact .ok _
  | array _ elements =>
      exact (h.evaluateAll hquiet state).andThen fun values middle => middle.allocates_newArray _
  | hash _ entries =>
      exact (h.evaluateEntries hquiet .empty state).andThen fun table middle =>
        middle.allocates_newHash table
  | name _ name =>
      change (evaluateName name state).AllocatesFrom state
      unfold evaluateName
      split
      · exact .ok _
      · exact .error _
  | index _ object index =>
      obtain ⟨hobject, hindex⟩ := Bool.and_eq_true_iff.mp hquiet
      refine (h object hobject state).andThen fun container middle => ?_
      refine (h index hindex middle).andThen fun place last => ?_
      exact (AllocatesFrom.ofExcept _).map _
  | member _ object property =>
      refine (h object hquiet state).andThen fun container middle => ?_
      exact (AllocatesFrom.ofExcept _).map _
  | call => exact nomatch hquiet
  | unary _ operator operand =>
      exact (h operand hquiet state).andThen fun value middle => .ofExcept _
  | binary _ operator left right =>
      obtain ⟨hleft, hright⟩ := Bool.and_eq_true_iff.mp hquiet
      refine (h left hleft state).andThen fun value middle => ?_
      split
      · exact .ok value
      · exact (h right hright middle).andThen fun other last => .ofExcept _
  | block _ body => exact state.allocates_newFunction _
  | function _ parameters body => exact state.allocates_newFunction _
  | step => exact nomatch hquiet

end IsQuiet

theorem isQuiet_ofFuel (fuel : Nat) : (ofFuel fuel).IsQuiet := by
  induction fuel with
  | zero => exact fun _ _ _ => trivial
  | succ fuel ih =>
      exact fun expression hquiet state => (ih.evaluateExpr hquiet state).locatedAt _

end Interpreter

/-! ### Bindings -/

namespace Scopes

/-- The value of a name in one of the frames. -/
def value? (scopes : Scopes) (level : Nat) (name : String) : Option Value :=
  scopes.frames[level]?.bind fun frame => frame.find? name

/-- The frame is the innermost one that has the name. -/
def Finds (scopes : Scopes) (level : Nat) (name : String) : Prop :=
  scopes.binds level name ∧ ∀ inner < level, ¬ scopes.binds inner name

theorem Finds.unique {scopes : Scopes} {level other : Nat} {name : String}
    (h : scopes.Finds level name) (hother : scopes.Finds other name) : level = other := by
  rcases Nat.lt_trichotomy level other with hlt | heq | hlt
  · exact absurd h.1 (hother.2 level hlt)
  · exact heq
  · exact absurd hother.1 (h.2 other hlt)

/-- Binds a name in one of the frames. -/
def bindAt (scopes : Scopes) (level : Nat) (name : String) (value : Value) : Scopes where
  globals :=
    if level = scopes.locals.length then scopes.globals.bind name value else scopes.globals
  locals := scopes.locals.modify level fun frame => frame.bind name value

theorem frames_bindAt (scopes : Scopes) (level : Nat) (name : String) (value : Value) :
    (scopes.bindAt level name value).frames =
      scopes.frames.modify level fun frame => frame.bind name value := by
  unfold bindAt frames
  apply List.ext_getElem?
  intro other
  rw [List.getElem?_modify, List.getElem?_append, List.getElem?_append, List.length_modify,
    List.getElem?_modify]
  by_cases hother : other < scopes.locals.length
  · rw [if_pos hother, if_pos hother]
  · -- Behind the local frames there is the global one and no other.
    rw [if_neg hother, if_neg hother]
    cases hcount : other - scopes.locals.length with
    | zero =>
        have hlength : other = scopes.locals.length := by omega
        rw [hlength]
        by_cases hlevel : level = scopes.locals.length <;> simp [hlevel]
    | succ count => simp

/-- Binding a name in a frame leaves the other names there and the other frames alone. -/
theorem value?_bindAt_of_ne (scopes : Scopes) {level other : Nat} {name found : String}
    (value : Value) (hne : other = level → found ≠ name) :
    (scopes.bindAt level name value).value? other found = scopes.value? other found := by
  unfold value?
  rw [frames_bindAt, List.getElem?_modify]
  cases scopes.frames[other]? with
  | none => rfl
  | some frame =>
      by_cases hlevel : level = other
      · simp [hlevel, Frame.find?_bind, hne hlevel.symm]
      · simp [hlevel]

theorem bind_eq_bindAt (scopes : Scopes) (name : String) (value : Value) :
    scopes.bind name value = scopes.bindAt 0 name value := by
  obtain ⟨globals, locals⟩ := scopes
  cases locals <;> rfl

theorem exists_of_assignIn {name : String} {value : Value} {frames changed : List Frame}
    (h : assignIn name value frames = some changed) :
    ∃ level, level < frames.length ∧ (frames[level]?.any fun frame => frame.contains name) ∧
      (∀ inner < level, ¬ frames[inner]?.any fun frame => frame.contains name) ∧
      changed = frames.modify level fun frame => frame.bind name value := by
  induction frames generalizing changed with
  | nil => exact nomatch h
  | cons frame outer ih =>
      unfold assignIn at h
      by_cases hhead : frame.contains name
      · rw [if_pos hhead] at h
        refine ⟨0, Nat.succ_pos _, hhead, fun inner hinner => absurd hinner (Nat.not_lt_zero _), ?_⟩
        rw [← Option.some.inj h, List.modify_zero_cons, Frame.bind, if_pos hhead]
      · rw [if_neg hhead] at h
        obtain ⟨rest, hrest, rfl⟩ := Option.map_eq_some_iff.mp h
        obtain ⟨level, hlevel, hfound, hinner, rfl⟩ := ih hrest
        refine ⟨level + 1, Nat.succ_lt_succ hlevel, hfound, fun inner hlt => ?_, rfl⟩
        cases inner with
        | zero => exact hhead
        | succ inner => exact hinner inner (Nat.lt_of_succ_lt_succ hlt)

theorem not_any_of_assignIn {name : String} {value : Value} {frames : List Frame}
    (h : assignIn name value frames = none) (level : Nat) :
    ¬ frames[level]?.any fun frame => frame.contains name := by
  induction frames generalizing level with
  | nil => simp
  | cons frame outer ih =>
      unfold assignIn at h
      by_cases hhead : frame.contains name
      · rw [if_pos hhead] at h
        cases h
      · rw [if_neg hhead, Option.map_eq_none_iff] at h
        cases level with
        | zero => exact hhead
        | succ level => exact ih h level

/-- An assignment binds the name in the innermost frame that has it. -/
theorem exists_of_assign? {scopes after : Scopes} {name : String} {value : Value}
    (h : scopes.assign? name value = some after) :
    ∃ level, scopes.Finds level name ∧ after = scopes.bindAt level name value := by
  have hlocal {level : Nat} (hlevel : level < scopes.locals.length) :
      scopes.binds level name = scopes.locals[level]?.any fun frame => frame.contains name := by
    rw [binds, frames, List.getElem?_append_left hlevel]
  unfold assign? at h
  split at h
  · next locals hlocals =>
      obtain ⟨level, hlevel, hfound, hinner, rfl⟩ := exists_of_assignIn hlocals
      refine ⟨level, ⟨(hlocal hlevel).trans hfound, fun inner hlt => ?_⟩, ?_⟩
      · rw [hlocal (hlt.trans hlevel)]
        exact hinner inner hlt
      · rw [← Option.some.inj h, bindAt, if_neg (Nat.ne_of_lt hlevel)]
  · next hlocals =>
      split at h
      · next hglobals =>
          refine ⟨scopes.locals.length, ⟨(scopes.binds_length name).trans hglobals,
            fun inner hlt => ?_⟩, ?_⟩
          · rw [hlocal hlt]
            exact not_any_of_assignIn hlocals inner
          · rw [← Option.some.inj h, bindAt, if_pos rfl, Frame.bind, if_pos hglobals,
              List.modify_eq_self (Nat.le_refl _)]
      · cases h

end Scopes

/-! ### Elementary statements -/

/-- The statement declares, assigns, steps or returns, and its expressions are quiet. -/
def Stmt.isElementary : Stmt → Bool
  | .declare _ _ value => Expr.isQuietOr value
  | .sub _ _ _ _ => true
  | .returns _ value => Expr.isQuietOr value
  | .assign _ target value => target.isQuiet && value.isQuiet
  | .step _ _ target amount => target.isQuiet && Expr.isQuietOr amount
  | _ => false

/-- Where an elementary statement makes its change. -/
inductive Target
  | nowhere
  | binding (level : Nat) (name : String)
  | slot (slot : Slot)

/-- Gives the target a value. -/
def State.put (state : State) (target : Target) (value : Value) : State :=
  match target with
  | .nowhere => state
  | .binding level name => { state with scopes := state.scopes.bindAt level name value }
  | .slot slot => { state with heap := state.heap.writeSlot slot value }

namespace State

variable {state : State} {target : Target}

theorem value?_put_of_ne {level : Nat} {name : String} (hne : target ≠ .binding level name)
    (value : Value) :
    (state.put target value).scopes.value? level name = state.scopes.value? level name := by
  cases target with
  | binding found bound =>
      refine state.scopes.value?_bindAt_of_ne value fun hlevel hname => hne ?_
      rw [hlevel, hname]
  | _ => rfl

theorem readSlot_put_of_ne {slot : Slot} (hne : target ≠ .slot slot) (value : Value) :
    (state.put target value).heap.readSlot slot = state.heap.readSlot slot := by
  cases target with
  | slot written => exact Heap.readSlot_writeSlot_of_ne (fun heq => hne (by rw [heq])) value
  | _ => rfl

end State

namespace Interpreter

/-- From the state, the expression names the target: a bound name, a slot that is there, or the
entry of a member. -/
inductive Names (interpreter : Interpreter) : Expr → State → Target → Prop
  | name {position : Position} {name : String} {state : State} {level : Nat}
      (h : state.scopes.Finds level name) :
      Names interpreter (.name position name) state (.binding level name)
  | index {position : Position} {object index : Expr} {state last : State}
      {container place : Value} {slot : Slot}
      (hplaces : interpreter.Locates object index state container place last)
      (hslot : last.heap.Addresses container place slot) :
      Names interpreter (.index position object index) state (.slot slot)
  | member {position : Position} {object : Expr} {property : String} {state last : State}
      {ref : HashRef} (h : interpreter.evaluate object state = .ok (.hash ref) last) :
      Names interpreter (.member position object property) state
        (.slot (.entry ref (.string property)))

/-- The statement names the target. The amount of a step is evaluated before its target. -/
inductive Writes (interpreter : Interpreter) : Stmt → State → Target → Prop
  | declare {position : Position} {name : String} {value : Option Expr} {state : State} :
      Writes interpreter (.declare position name value) state (.binding 0 name)
  | sub {position : Position} {name : String} {parameters : List String} {body : List Stmt}
      {state : State} : Writes interpreter (.sub position name parameters body) state
        (.binding 0 name)
  | returns {position : Position} {value : Option Expr} {state : State} :
      Writes interpreter (.returns position value) state .nowhere
  | assign {position : Position} {target value : Expr} {state : State} {place : Target}
      (h : interpreter.Names target state place) :
      Writes interpreter (.assign position target value) state place
  | step {position : Position} {direction : Direction} {target : Expr} {amount : Option Expr}
      {size : Value} {state middle : State} {place : Target}
      (hamount : interpreter.evaluateOr (.number 1) amount state = .ok size middle)
      (h : interpreter.Names target middle place) :
      Writes interpreter (.step position direction target amount) state place

variable {interpreter : Interpreter}

theorem Names.unique {expression : Expr} {state : State} {target other : Target}
    (h : interpreter.Names expression state target)
    (hother : interpreter.Names expression state other) : target = other := by
  cases h with
  | name h =>
      cases hother with
      | name hother => rw [h.unique hother]
  | index hplaces hslot =>
      cases hother with
      | index hothers hother =>
          obtain ⟨middle, hobject, hindex⟩ := hplaces
          obtain ⟨next, hobject', hindex'⟩ := hothers
          rw [hobject] at hobject'
          obtain ⟨rfl, rfl⟩ := Outcome.ok.inj hobject'
          rw [hindex] at hindex'
          obtain ⟨rfl, rfl⟩ := Outcome.ok.inj hindex'
          rw [hslot.unique hother]
  | member h =>
      cases hother with
      | member hother =>
          rw [h] at hother
          obtain ⟨hvalue, -⟩ := Outcome.ok.inj hother
          rw [Value.hash.inj hvalue]

theorem Writes.unique {statement : Stmt} {state : State} {target other : Target}
    (h : interpreter.Writes statement state target)
    (hother : interpreter.Writes statement state other) : target = other := by
  cases h with
  | declare => cases hother; rfl
  | sub => cases hother; rfl
  | returns => cases hother; rfl
  | assign h =>
      cases hother with
      | assign hother => exact h.unique hother
  | step hamount h =>
      cases hother with
      | step hothers hother =>
          rw [hamount] at hothers
          obtain ⟨-, rfl⟩ := Outcome.ok.inj hothers
          exact h.unique hother

end Interpreter

/-- If the step fails, then nothing has happened but that cells have been added. If it succeeds,
then a target with a property has got a value besides. -/
def Outcome.PutsOnce {α : Type} (named : Target → Prop) (start : State) : Outcome α → Prop
  | ok _ after => ∃ middle target value,
      start.Allocates middle ∧ named target ∧ after = middle.put target value
  | error _ after => start.Allocates after
  | aborted => True
  | outOfFuel => True

namespace Outcome.PutsOnce

variable {α β : Type} {named : Target → Prop} {start middle : State}

theorem error (h : start.Allocates middle) (failure : RuntimeError) :
    (Outcome.error failure middle : Outcome α).PutsOnce named start :=
  h

/-- Nothing is written until the last step. -/
theorem andThen {outcome : Outcome α} {next : α → State → Outcome β}
    (hmiddle : start.Allocates middle) (h : outcome.AllocatesFrom middle)
    (hnext : ∀ value last, outcome = .ok value last → start.Allocates last →
      (next value last).PutsOnce named start) : (outcome.andThen next).PutsOnce named start := by
  cases outcome with
  | ok value last => exact hnext value last rfl (hmiddle.trans h)
  | error failure last => exact hmiddle.trans h
  | _ => trivial

theorem map {outcome : Outcome α} (h : outcome.PutsOnce named start) (transform : α → β) :
    (outcome.map transform).PutsOnce named start := by
  cases outcome <;> exact h

theorem locatedAt {outcome : Outcome α} (h : outcome.PutsOnce named start) (position : Position) :
    (outcome.locatedAt position).PutsOnce named start := by
  cases outcome <;> exact h

theorem nowhere {outcome : Outcome α} (h : outcome.AllocatesFrom start)
    (hnowhere : named .nowhere) : outcome.PutsOnce named start := by
  cases outcome with
  | ok value after => exact ⟨after, .nowhere, .nil, h, hnowhere, rfl⟩
  | error failure after => exact h
  | _ => trivial

theorem writeSlot (hmiddle : start.Allocates middle) {slot : Slot} (hslot : named (.slot slot))
    (value : Value) : (middle.writeSlot slot value).PutsOnce named start :=
  ⟨middle, .slot slot, value, hmiddle, hslot, rfl⟩

theorem stepSlot (hmiddle : start.Allocates middle) {slot : Slot} (hslot : named (.slot slot))
    (delta : Number) : (middle.stepSlot slot delta).PutsOnce named start :=
  .andThen hmiddle (.ofExcept _) fun value _ _ hlast => (writeSlot hlast hslot value).map _

theorem assign (hmiddle : start.Allocates middle) {name : String}
    (hname : ∀ level, start.scopes.Finds level name → named (.binding level name))
    (value : Value) : (middle.assign name value).PutsOnce named start := by
  unfold State.assign
  split
  · next scopes hscopes =>
      obtain ⟨level, hlevel, rfl⟩ := Scopes.exists_of_assign? hscopes
      rw [hmiddle.scopes_eq] at hlevel
      exact ⟨middle, .binding level name, value, hmiddle, hname level hlevel, rfl⟩
  · exact .error hmiddle _

theorem stepName (hmiddle : start.Allocates middle) {name : String}
    (hname : ∀ level, start.scopes.Finds level name → named (.binding level name))
    (delta : Number) : (middle.stepName name delta).PutsOnce named start := by
  unfold State.stepName
  split
  · exact .error hmiddle _
  · exact .andThen hmiddle (.ofExcept _) fun value last _ hlast => (assign hlast hname value).map _

theorem declare (hmiddle : start.Allocates middle) {name : String} (hname : named (.binding 0 name))
    (value : Value) : (middle.declare name value).PutsOnce named start := by
  unfold State.declare Scopes.declare?
  by_cases hdeclared : middle.scopes.isDeclaredHere name
  · rw [if_pos hdeclared]
    exact hmiddle
  · rw [if_neg hdeclared]
    refine ⟨middle, .binding 0 name, value, hmiddle, hname, ?_⟩
    rw [Scopes.bind_eq_bindAt]
    rfl

end Outcome.PutsOnce

namespace Interpreter

open Outcome.PutsOnce

variable {interpreter : Interpreter} {named : Target → Prop} {start middle : State}

namespace IsQuiet

variable (h : interpreter.IsQuiet)
include h

theorem putsOnce_declare {named : Target → Prop} {name : String} (hname : named (.binding 0 name))
    {value : Option Expr} (hvalue : Expr.isQuietOr value) (start : State) :
    (interpreter.executeDeclare name value start).PutsOnce named start := by
  unfold executeDeclare
  split
  · exact .error (.refl start) _
  · refine .andThen (.refl start) (h.evaluateOr _ hvalue start) fun value last _ hlast => ?_
    exact (PutsOnce.declare hlast hname value).map _

theorem putsOnce_stepTarget {target : Expr} (hquiet : target.isQuiet)
    (hmiddle : start.Allocates middle)
    (hnamed : ∀ place, interpreter.Names target middle place → named place) (delta : Number) :
    (interpreter.stepTarget target delta middle).PutsOnce named start := by
  cases target with
  | name _ name =>
      refine stepName hmiddle (fun level hlevel => hnamed _ (.name ?_)) delta
      rwa [hmiddle.scopes_eq]
  | index _ object index =>
      obtain ⟨hobject, hindex⟩ := Bool.and_eq_true_iff.mp hquiet
      refine .andThen hmiddle (h object hobject middle) fun container next hcontainer hnext => ?_
      refine .andThen hnext (h index hindex next) fun place last hplace hlast => ?_
      cases hslot : last.heap.indexSlot container place .notIndexable with
      | error failure => exact hlast
      | ok slot =>
          have hplaces : interpreter.Locates object index middle container place last :=
            ⟨next, hcontainer, hplace⟩
          exact stepSlot hlast (hnamed _ (.index hplaces (Heap.indexSlot_eq_ok_iff.mp hslot))) delta
  | member _ object property =>
      refine .andThen hmiddle (h object hquiet middle) fun container last hcontainer hlast => ?_
      cases container with
      | hash ref =>
          dsimp only [Heap.memberSlot, Heap.entrySlot]
          split
          · exact stepSlot hlast (hnamed _ (.member hcontainer)) delta
          · exact hlast
      | _ => exact hlast
  | _ => exact .error hmiddle _

theorem putsOnce_step {direction : Direction} {target : Expr} {amount : Option Expr}
    (hquiet : target.isQuiet) (hamount : Expr.isQuietOr amount) (start : State)
    (hnamed : ∀ size middle place,
      interpreter.evaluateOr (.number 1) amount start = .ok size middle →
        interpreter.Names target middle place → named place) :
    (interpreter.step direction target amount start).PutsOnce named start := by
  refine .andThen (.refl start) (h.evaluateOr _ hamount start) fun size middle hsize hmiddle => ?_
  cases size with
  | number size =>
      exact h.putsOnce_stepTarget hquiet hmiddle (hnamed _ middle · hsize) _
  | _ => exact .error hmiddle _

theorem putsOnce_assign {members names : String → Prop}
    (hadvancing : interpreter.IsAdvancing members names) {target value : Expr}
    (htarget : target.isQuiet) (hvalue : value.isQuiet) (start : State)
    (hnamed : ∀ place, interpreter.Names target start place → named place) :
    (interpreter.assign target value start).PutsOnce named start := by
  have hstart := State.Allocates.refl start
  cases target with
  | name position name =>
      refine .andThen hstart (h value hvalue start) fun result last _ hlast => ?_
      have hfound (level : Nat) (hlevel : start.scopes.Finds level name) := hnamed _ (.name hlevel)
      exact (PutsOnce.assign hlast hfound result).locatedAt position
  | index position object index =>
      obtain ⟨hobject, hindex⟩ := Bool.and_eq_true_iff.mp htarget
      change (interpreter.assignIndex position object index value start).PutsOnce named start
      -- The slot is sought before the value and again after it, where it is still there.
      rw [assignIndex_eq_once hadvancing]
      refine .andThen hstart (h object hobject start) fun container next hcontainer hnext => ?_
      refine .andThen hnext (h index hindex next) fun place last hplace hlast => ?_
      cases hslot : last.heap.indexSlot container place .notIndexAssignable with
      | error failure => exact hlast
      | ok slot =>
          have hplaces : interpreter.Locates object index start container place last :=
            ⟨next, hcontainer, hplace⟩
          have hslot := hnamed _ (.index hplaces (Heap.indexSlot_eq_ok_iff.mp hslot))
          change ((interpreter.evaluate value last).andThen fun result final =>
            final.writeSlot slot result).PutsOnce named start
          exact .andThen hlast (h value hvalue last) fun result final _ hfinal =>
            writeSlot hfinal hslot result
  | member position object property =>
      refine .andThen hstart (h object htarget start) fun container last hcontainer hlast => ?_
      cases container with
      | hash ref =>
          have hslot := hnamed _ (.member hcontainer)
          change ((interpreter.evaluate value last).andThen fun result final =>
            final.writeSlot (.entry ref (.string property)) result).PutsOnce named start
          exact .andThen hlast (h value hvalue last) fun result final _ hfinal =>
            writeSlot hfinal hslot result
      | _ => exact hlast
  | _ => exact .error hstart _

/-- What the rule for an elementary statement does. -/
theorem putsOnce_executeStmt {members names : String → Prop}
    (hadvancing : interpreter.IsAdvancing members names) {statement : Stmt}
    (helementary : statement.isElementary) (start : State) :
    (interpreter.executeStmt statement start).PutsOnce (interpreter.Writes statement start)
      start := by
  cases statement with
  | declare _ name value => exact h.putsOnce_declare .declare helementary start
  | sub _ name parameters body =>
      have hnew := start.allocates_newFunction (.sub (some name) parameters body)
      change ((start.newFunction (.sub (some name) parameters body)).andThen fun value state =>
        (state.declare name value).map fun _ => Flow.normal).PutsOnce _ start
      exact PutsOnce.andThen (.refl start) hnew fun value last _ hlast =>
        (PutsOnce.declare hlast .sub value).map _
  | returns _ value =>
      -- The target is nowhere, so that it does not matter what is put there.
      exact (nowhere (h.evaluateOr .nil helementary start) .returns).map _
  | assign _ target value =>
      obtain ⟨htarget, hvalue⟩ := Bool.and_eq_true_iff.mp helementary
      exact (h.putsOnce_assign hadvancing htarget hvalue start fun place => .assign).map _
  | step _ direction target amount =>
      obtain ⟨htarget, hamount⟩ := Bool.and_eq_true_iff.mp helementary
      exact (h.putsOnce_step htarget hamount start fun size middle place => .step).map _
  | _ => exact nomatch helementary

end IsQuiet

end Interpreter

/-- **An elementary statement changes the place that it names, or nothing.** If it fails, then the
state is as it was, but for new cells. If it succeeds, then the one target that it names has got a
value besides; every other binding and every other slot is as it was. -/
theorem elementary_statements_change_one_place (fuel : Nat) (start : State) {statement : Stmt}
    (helementary : statement.isElementary) :
    (∀ failure after, (ofFuel (fuel + 1)).execute statement start = .error failure after →
      ∃ heap : Heap, heap.Extends start.heap ∧ after = { start with heap := heap }) ∧
    ∀ flow after, (ofFuel (fuel + 1)).execute statement start = .ok flow after →
      ∃ (heap : Heap) (target : Target) (value : Value), heap.Extends start.heap ∧
        (∀ other, (ofFuel fuel).Writes statement start other ↔ other = target) ∧
        after = ({ start with heap := heap } : State).put target value ∧
        (∀ level name, target ≠ .binding level name →
          after.scopes.value? level name = start.scopes.value? level name) ∧
        ∀ slot, target ≠ .slot slot → after.heap.readSlot slot = heap.readSlot slot := by
  have hends : ((ofFuel (fuel + 1)).execute statement start).PutsOnce
      ((ofFuel fuel).Writes statement start) start :=
    ((isQuiet_ofFuel fuel).putsOnce_executeStmt (isAdvancing_ofFuel fuel) helementary
      start).locatedAt _
  refine ⟨fun failure after h => ?_, fun flow after h => ?_⟩
  · rw [h] at hends
    exact hends
  · rw [h] at hends
    obtain ⟨_, target, value, ⟨heap, hheap, rfl⟩, htarget, rfl⟩ := hends
    refine ⟨heap, target, value, hheap, fun other => ⟨fun hother => hother.unique htarget, ?_⟩, rfl,
      fun level name hne => State.value?_put_of_ne hne value,
      fun slot hne => State.readSlot_put_of_ne hne value⟩
    rintro rfl
    exact htarget

/-- `list[1] = []` and `lost = []`, where `lost` is not bound. -/
theorem elementary_statements_change_one_place_slottedState :
    let target := Expr.index .first (.name .first "list") (.number .first 1)
    let assigning := Stmt.assign .first target (.array .first [])
    let losing := Stmt.assign .first (.name .first "lost") (.array .first [])
    assigning.isElementary ∧ losing.isElementary ∧
      (∃ (heap : Heap) (value : Value), heap.Extends slottedState.heap ∧
        (ofFuel 2).execute assigning slottedState =
          .ok .normal (({ slottedState with heap := heap } : State).put
            (.slot (.item ⟨0⟩ 1)) value)) ∧
      ∃ (heap : Heap) (failure : RuntimeError), heap.Extends slottedState.heap ∧
        (ofFuel 2).execute losing slottedState =
          .error failure { slottedState with heap := heap } := by
  intro target assigning losing
  refine ⟨rfl, rfl, ?_, ?_⟩
  · obtain ⟨after, hrun⟩ : ∃ after, (ofFuel 2).execute assigning slottedState = .ok .normal after :=
      ⟨_, rfl⟩
    have helementary : assigning.isElementary := rfl
    obtain ⟨heap, place, value, hheap, hwrites, rfl, -⟩ :=
      (elementary_statements_change_one_place 1 slottedState helementary).2 _ _ hrun
    have haddress : slottedState.heap.Addresses (.array ⟨0⟩) (.number 1) (.item ⟨0⟩ 1) :=
      .item (by decide) (by decide)
    obtain rfl := (hwrites _).mp (.assign (.index ⟨slottedState, rfl, rfl⟩ haddress))
    exact ⟨heap, value, hheap, hrun⟩
  · obtain ⟨failure, after, hrun⟩ :
        ∃ failure after, (ofFuel 2).execute losing slottedState = .error failure after :=
      ⟨_, _, rfl⟩
    have helementary : losing.isElementary := rfl
    obtain ⟨heap, hheap, rfl⟩ :=
      (elementary_statements_change_one_place 1 slottedState helementary).1 _ _ hrun
    exact ⟨heap, failure, hheap, hrun⟩

end ScriptEngine
