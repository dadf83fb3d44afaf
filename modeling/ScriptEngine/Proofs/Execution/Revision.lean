import ScriptEngine.Proofs.Library.Carrying
import ScriptEngine.Proofs.Program.Nodes

/-!
# Revised runs

A program with its places moved, in a state with the places of its functions moved and with another
limit of the call depth. A revision says what is moved and what the limit becomes. The same steps
can then be done in both states: the errors have their places moved, and a limit that is high enough
is not noticed.
-/

namespace ScriptEngine

/-- The callable with each place in its body moved. -/
def Callable.relocate (move : Position → Position) : Callable → Callable
  | sub name parameters body => sub name parameters (Stmt.relocateAll move body)
  | block body => block (body.relocate move)
  | native function => native function

theorem Callable.render_relocate (move : Position → Position) (callable : Callable) :
    (callable.relocate move).render = callable.render := by
  cases callable with
  | sub name => cases name <;> rfl
  | block => rfl
  | native => rfl

theorem Callable.relocate_id (callable : Callable) : callable.relocate id = callable := by
  cases callable with
  | sub name parameters body => exact congrArg _ (Stmt.relocateAll_id body)
  | block body => exact congrArg _ body.relocate_id
  | native => rfl

namespace Heap

variable (move : Position → Position) (heap : Heap)

/-- The heap with each place in the body of a function moved. -/
def relocate : Heap :=
  heap.withFunctions (heap.functions.map (Callable.relocate move))

theorem relocate_id : heap.relocate id = heap := by
  have hcallables : Callable.relocate id = id := funext Callable.relocate_id
  unfold relocate
  rw [hcallables, Array.map_id]
  rfl

theorem callable?_relocate (ref : FunctionRef) :
    (heap.relocate move).callable? ref = (heap.callable? ref).map (Callable.relocate move) :=
  Array.getElem?_map

theorem printFunction_relocate : (heap.relocate move).printFunction = heap.printFunction := by
  funext ref
  unfold printFunction
  rw [callable?_relocate]
  cases heap.callable? ref with
  | none => rfl
  | some callable => exact callable.render_relocate move

theorem newFunction_relocate (callable : Callable) :
    (heap.relocate move).newFunction (callable.relocate move) =
      (heap.newFunction callable).map id (relocate move) := by
  simp only [newFunction, relocate, withFunctions, Array.size_map, Array.map_push, Prod.map, id_eq]

theorem writeSlot_relocate (slot : Slot) (value : Value) :
    (heap.relocate move).writeSlot slot value = (heap.writeSlot slot value).relocate move := by
  cases slot <;> rfl

theorem readSlot_relocate : (heap.relocate move).readSlot = heap.readSlot := by
  funext slot
  cases slot <;> rfl

theorem applyBinary_relocate (operator : BinaryOperator) (left right : Value) :
    (heap.relocate move).applyBinary operator left right =
      heap.applyBinary operator left right := by
  cases operator with
  | add =>
      unfold applyBinary add
      rw [relocate, print_withFunctions (heap.printFunction_relocate move)]
  | _ => rfl

end Heap

/-- How the places of a program, the limit of the call depth and the errors change. Of the states
within so many active calls the revision admits some, among them all that a run goes through from
one of these. -/
structure Revision where
  move : Position → Position
  limit : Nat → Nat
  error : RuntimeError → RuntimeError
  admits : Nat → State → Prop
  lenient : Prop
  error_of_isPlain {failure : RuntimeError} (h : failure.IsPlain) : error failure = failure
  error_locatedAt (failure : RuntimeError) (position : Position) :
    error (failure.locatedAt position) = (error failure).locatedAt (move position)
  admits_of_eq {active : Nat} {start after : State} (h : admits active start)
    (hcallDepth : after.callDepth = start.callDepth)
    (hmaxCallDepth : after.maxCallDepth = start.maxCallDepth)
    (hsink : after.world.sink = start.world.sink) : admits active after
  admits_enterLevel {active : Nat} {start : State} (h : admits active start)
    (hdepth : start.callDepth < start.maxCallDepth) :
    admits (active + 1) (Interpreter.enterLevel start)
  admits_leaveLevel {active : Nat} {start : State} (h : admits (active + 1) start) :
    admits active (Interpreter.leaveLevel start)
  lt_limit {active : Nat} {start : State} (h : admits active start)
    (hdepth : start.callDepth < start.maxCallDepth) : start.callDepth < limit start.maxCallDepth

namespace Revision

variable (revision : Revision)

def state (start : State) : State :=
  { start with
    heap := start.heap.relocate revision.move
    maxCallDepth := revision.limit start.maxCallDepth }

/-- The revision for steps within so many active calls. -/
def transfer (active : Nat) : Transfer where
  state := revision.state
  error := revision.error
  admits := revision.admits active
  lenient := revision.lenient
  error_of_isPlain := revision.error_of_isPlain
  admits_of_eq := revision.admits_of_eq
  world_state _ := rfl
  heap_state _ := rfl
  printFunction_state start := start.heap.printFunction_relocate revision.move
  state_withWorld _ _ := rfl
  state_withHeap {start heap} h := by
    unfold state Heap.relocate
    rw [h]
    rfl

end Revision

open Transfer

namespace Transfer.Carries

variable {revision : Revision} {active : Nat} {α : Type} {start : State}

theorem locatedAt {left right : Outcome α} (h : (revision.transfer active).Carries left right)
    {position other : Position} (hother : other = revision.move position) :
    (revision.transfer active).Carries (left.locatedAt position) (right.locatedAt other) := by
  subst hother
  obtain ⟨hends, rfl | ⟨hlenient, hoverflow⟩⟩ := h
  · cases left with
    | ok value after => exact ⟨hends, .inl rfl⟩
    | error failure after =>
        refine ⟨hends, .inl ?_⟩
        exact congrArg (Outcome.error · _) (revision.error_locatedAt failure position).symm
    | aborted => exact aborted
    | outOfFuel => exact outOfFuel
  · cases left with
    | error failure after => exact ⟨hends, .inr ⟨hlenient, hoverflow⟩⟩
    | _ => exact hoverflow.elim

theorem withScopes (h : revision.admits active start) (scopes : Scopes)
    {left right : State → Outcome α}
    (hnext : ∀ start, revision.admits active start →
      (revision.transfer active).Carries (left start) (right (revision.state start))) :
    (revision.transfer active).Carries (left { start with scopes := scopes })
      (right { revision.state start with scopes := scopes }) := by
  have hadmits : revision.admits active { start with scopes := scopes } :=
    revision.admits_of_eq h rfl rfl rfl
  exact hnext _ hadmits

theorem mapState {other : Nat} {left right : Outcome α} {change : State → State}
    (h : (revision.transfer active).Carries left right)
    (hadmits : ∀ after, revision.admits active after → revision.admits other (change after))
    (hstate : ∀ after, change (revision.state after) = revision.state (change after)) :
    (revision.transfer other).Carries (left.mapState change) (right.mapState change) := by
  obtain ⟨hends, rfl | ⟨hlenient, hoverflow⟩⟩ := h
  · cases left with
    | ok value after =>
        exact ⟨hadmits after hends, .inl (congrArg (Outcome.ok value) (hstate after))⟩
    | error failure after =>
        exact ⟨hadmits after hends, .inl (congrArg (Outcome.error _) (hstate after))⟩
    | aborted => exact aborted
    | outOfFuel => exact outOfFuel
  · cases left with
    | error failure after => exact ⟨hadmits after hends, .inr ⟨hlenient, hoverflow⟩⟩
    | _ => exact hoverflow.elim

theorem leaveLevel {left right : Outcome α}
    (h : (revision.transfer (active + 1)).Carries left right) :
    (revision.transfer active).Carries (left.mapState Interpreter.leaveLevel)
      (right.mapState Interpreter.leaveLevel) :=
  h.mapState (fun _ => revision.admits_leaveLevel) fun _ => rfl

theorem leaveCall {left right : Outcome α} (h : (revision.transfer active).Carries left right)
    (saved : List Frame) :
    (revision.transfer active).Carries (left.mapState (State.leaveCall saved))
      (right.mapState (State.leaveCall saved)) :=
  h.mapState (fun _ hafter => revision.admits_of_eq hafter rfl rfl rfl) fun _ => rfl

end Transfer.Carries

/-! ### Names, slots and new cells -/

namespace State

variable {revision : Revision} {active : Nat} {start : State}
  (h : revision.admits active start)
include h

theorem carries_newArray (items : Array Value) :
    (revision.transfer active).Carries (start.newArray items)
      ((revision.state start).newArray items) := by
  have hadmits : revision.admits active { start with heap := (start.heap.newArray items).2 } :=
    revision.admits_of_eq h rfl rfl rfl
  exact .ok hadmits _

theorem carries_newHash (table : Table) :
    (revision.transfer active).Carries (start.newHash table)
      ((revision.state start).newHash table) := by
  have hadmits : revision.admits active { start with heap := (start.heap.newHash table).2 } :=
    revision.admits_of_eq h rfl rfl rfl
  exact .ok hadmits _

theorem carries_newFunction (callable : Callable) :
    (revision.transfer active).Carries (start.newFunction callable)
      ((revision.state start).newFunction (callable.relocate revision.move)) := by
  have hadmits : revision.admits active
      { start with heap := (start.heap.newFunction callable).2 } :=
    revision.admits_of_eq h rfl rfl rfl
  have hnew := start.heap.newFunction_relocate revision.move callable
  have hright : (revision.state start).newFunction (callable.relocate revision.move) =
      .ok (start.heap.newFunction callable).1
        (revision.state { start with heap := (start.heap.newFunction callable).2 }) :=
    congrArg (fun made : Value × Heap =>
      Outcome.ok made.1 { revision.state start with heap := made.2 }) hnew
  rw [hright]
  exact .ok hadmits _

theorem carries_assign (name : String) (value : Value) :
    (revision.transfer active).Carries (start.assign name value)
      ((revision.state start).assign name value) := by
  have hscopes : (revision.state start).scopes = start.scopes := rfl
  unfold assign
  rw [hscopes]
  cases start.scopes.assign? name value with
  | some scopes => exact .withScopes h scopes fun _ hstart => .ok hstart ()
  | none => exact .error h ⟨nofun, rfl⟩

theorem carries_stepName (name : String) (delta : Number) :
    (revision.transfer active).Carries (start.stepName name delta)
      ((revision.state start).stepName name delta) := by
  have hscopes : (revision.state start).scopes = start.scopes := rfl
  unfold stepName
  rw [hscopes]
  cases start.scopes.lookup? name with
  | none => exact .error h ⟨nofun, rfl⟩
  | some value =>
      refine (Carries.ofExcept h (failsPlainly_stepped _ _)).andThen fun value after hafter => ?_
      exact (carries_assign hafter name value).map _

theorem carries_declare (name : String) (value : Value) :
    (revision.transfer active).Carries (start.declare name value)
      ((revision.state start).declare name value) := by
  have hscopes : (revision.state start).scopes = start.scopes := rfl
  unfold declare
  rw [hscopes]
  cases start.scopes.declare? name value with
  | some scopes => exact .withScopes h scopes fun _ hstart => .ok hstart ()
  | none => exact .error h ⟨nofun, rfl⟩

theorem carries_writeSlot (slot : Slot) (value : Value) :
    (revision.transfer active).Carries (start.writeSlot slot value)
      ((revision.state start).writeSlot slot value) := by
  have hadmits : revision.admits active
      { start with heap := start.heap.writeSlot slot value } :=
    revision.admits_of_eq h rfl rfl rfl
  have hwrite := start.heap.writeSlot_relocate revision.move slot value
  have hright : (revision.state start).writeSlot slot value =
      .ok () (revision.state { start with heap := start.heap.writeSlot slot value }) :=
    congrArg (fun heap => Outcome.ok () { revision.state start with heap := heap }) hwrite
  rw [hright]
  exact .ok hadmits ()

theorem carries_indexSlot (container index : Value) {refused : Value → RuntimeError}
    (hrefused : ∀ value, (refused value).IsOrdinary) :
    (revision.transfer active).Carries
      (Outcome.ofExcept (start.heap.indexSlot container index refused) start)
      (Outcome.ofExcept ((revision.state start).heap.indexSlot container index refused)
        (revision.state start)) :=
  .ofRead h (·.indexSlot container index refused) (fun _ _ => rfl)
    (start.heap.failsPlainly_indexSlot container index hrefused)

theorem carries_memberSlot (container : Value) (property : String) :
    (revision.transfer active).Carries
      (Outcome.ofExcept (start.heap.memberSlot container property) start)
      (Outcome.ofExcept ((revision.state start).heap.memberSlot container property)
        (revision.state start)) :=
  .ofRead h (·.memberSlot container property) (fun _ _ => rfl)
    (start.heap.failsPlainly_memberSlot container property)

omit h in
theorem carries_readSlot {left right : Outcome Slot}
    (hslot : (revision.transfer active).Carries left right) :
    (revision.transfer active).Carries (left.map start.heap.readSlot)
      (right.map (revision.state start).heap.readSlot) := by
  have hread : (revision.state start).heap.readSlot = start.heap.readSlot :=
    start.heap.readSlot_relocate revision.move
  rw [hread]
  exact hslot.map _

theorem carries_stepSlot (slot : Slot) (delta : Number) :
    (revision.transfer active).Carries (start.stepSlot slot delta)
      ((revision.state start).stepSlot slot delta) := by
  have hread : (revision.state start).heap.readSlot = start.heap.readSlot :=
    start.heap.readSlot_relocate revision.move
  unfold stepSlot
  rw [hread]
  refine (Carries.ofExcept h (failsPlainly_stepped _ _)).andThen fun value after hafter => ?_
  exact (carries_writeSlot hafter slot value).map _

theorem carries_newPairs (entries : List (Key × Value)) :
    (revision.transfer active).Carries (start.newPairs entries)
      ((revision.state start).newPairs entries) := by
  induction entries generalizing start with
  | nil => exact .ok h []
  | cons entry rest ih =>
      exact (carries_newArray h _).andThen fun pair after hafter => (ih hafter).map _

theorem carries_iterationItems (subject : Value) :
    (revision.transfer active).Carries (start.iterationItems subject)
      ((revision.state start).iterationItems subject) := by
  cases subject with
  | array ref => exact .ok h _
  | hash ref => exact carries_newPairs h _
  | _ => exact .error h ⟨nofun, rfl⟩

theorem carries_bind (name : String) (value : Value) {α : Type} {left right : State → Outcome α}
    (hnext : ∀ start, revision.admits active start →
      (revision.transfer active).Carries (left start) (right (revision.state start))) :
    (revision.transfer active).Carries (left (start.bind name value))
      (right ((revision.state start).bind name value)) :=
  .withScopes h _ hnext

end State

end ScriptEngine
