import ScriptEngine.Proofs.Execution.Advance
import ScriptEngine.Proofs.Execution.Bindings
import ScriptEngine.Proofs.Value.Policy

/-!
# States that obey a policy

A state obeys a policy if its heap is in order and its names stand for values that may be at hand.
Each single change that an interpreter makes keeps it so, provided that the values it puts anywhere
may be at hand. The values that it gets from the state may. Since cells are only added, what was at
hand before a step is so after it.
-/

namespace ScriptEngine

theorem Heap.Allocates.fitsIn {before after : Heap} (h : before.Allocates after) :
    before.FitsIn after := by
  induction h with
  | refl => exact .refl _
  | newArray items _ ih => exact ih.trans (.newArray _ items)
  | newHash table _ ih => exact ih.trans (.newHash _ table)
  | newFunction callable _ ih => exact ih.trans (.newFunction _ callable)

/-- If there is a value, then it has a property. -/
def GivesOnly {α : Type} (holds : α → Prop) (result : Except RuntimeError α) : Prop :=
  ∀ value, result = .ok value → holds value

namespace GivesOnly

variable {α β : Type} {holds : α → Prop} {others : β → Prop} {result : Except RuntimeError α}

theorem ok {value : α} (h : holds value) : GivesOnly holds (.ok value) :=
  fun _ heq => Except.ok.inj heq ▸ h

theorem error {failure : RuntimeError} : GivesOnly holds (.error failure) :=
  fun _ heq => nomatch heq

theorem any (result : Except RuntimeError α) : GivesOnly (fun _ => True) result :=
  fun _ _ => trivial

theorem bind {next : α → Except RuntimeError β} (h : GivesOnly holds result)
    (hnext : ∀ value, holds value → GivesOnly others (next value)) :
    GivesOnly others (result >>= next) := by
  cases result with
  | ok value => exact hnext value (h value rfl)
  | error failure => exact error

/-- A step of which only matters that it is there. -/
theorem after {next : α → Except RuntimeError β} (hnext : ∀ value, GivesOnly others (next value)) :
    GivesOnly others (result >>= next) :=
  (any result).bind fun value _ => hnext value

theorem map {transform : α → β} (h : GivesOnly holds result)
    (hvalue : ∀ value, holds value → others (transform value)) :
    GivesOnly others (result.map transform) := by
  cases result with
  | ok value => exact ok (hvalue value (h value rfl))
  | error failure => exact error

end GivesOnly

/-- The heap is in order, and each name stands for a value that may be at hand. -/
structure State.Obeys (policy : Policy) (state : State) : Prop where
  scopes : state.scopes.All (policy.allows state.heap)
  heap : policy.accepts state.heap

namespace Outcome

variable {α β : Type} {policy : Policy}

/-- A step from a heap, the cells of which it keeps, to a state that obeys a policy. If it succeeds,
then with a value that has a property in the heap of that state. -/
def Obeys (policy : Policy) (start : Heap) (holds : Heap → α → Prop) : Outcome α → Prop
  | ok value after => start.FitsIn after.heap ∧ after.Obeys policy ∧ holds after.heap value
  | error _ after => start.FitsIn after.heap ∧ after.Obeys policy
  | aborted => True
  | outOfFuel => True

namespace Obeys

variable {holds : Heap → α → Prop} {outcome : Outcome α} {start : Heap} {state : State}

theorem ok {value : α} (h : state.Obeys policy) (hvalue : holds state.heap value) :
    (Outcome.ok value state).Obeys policy state.heap holds :=
  ⟨.refl _, h, hvalue⟩

theorem error {failure : RuntimeError} (h : state.Obeys policy) :
    (Outcome.error failure state : Outcome α).Obeys policy state.heap holds :=
  ⟨.refl _, h⟩

theorem aborted : (Outcome.aborted : Outcome α).Obeys policy start holds :=
  trivial

theorem outOfFuel : (Outcome.outOfFuel : Outcome α).Obeys policy start holds :=
  trivial

theorem ofExcept {result : Except RuntimeError α} (h : state.Obeys policy)
    (hresult : GivesOnly (holds state.heap) result) :
    (Outcome.ofExcept result state).Obeys policy state.heap holds := by
  cases result with
  | ok value => exact ok h (hresult value rfl)
  | error failure => exact error h

/-- What comes after a computation that leaves the state alone. -/
theorem ofExcept_andThen {result : Except RuntimeError α} {gives : α → Prop}
    {next : α → State → Outcome β} {others : Heap → β → Prop} (h : state.Obeys policy)
    (hresult : GivesOnly gives result)
    (hnext : ∀ value, gives value → (next value state).Obeys policy state.heap others) :
    ((Outcome.ofExcept result state).andThen next).Obeys policy state.heap others := by
  cases result with
  | ok value => exact hnext value (hresult value rfl)
  | error failure => exact error h

theorem ends (h : outcome.Obeys policy start holds) :
    outcome.Ends fun after => start.FitsIn after.heap ∧ after.Obeys policy := by
  cases outcome with
  | ok value after => exact ⟨h.1, h.2.1⟩
  | error failure after => exact h
  | aborted => trivial
  | outOfFuel => trivial

/-- A step that begins later has kept the cells of before. -/
theorem from_fitsIn {earlier : Heap} (h : outcome.Obeys policy start holds)
    (hfits : earlier.FitsIn start) : outcome.Obeys policy earlier holds := by
  cases outcome with
  | ok value after => exact ⟨hfits.trans h.1, h.2⟩
  | error failure after => exact ⟨hfits.trans h.1, h.2⟩
  | aborted => exact aborted
  | outOfFuel => exact outOfFuel

theorem andThen {next : α → State → Outcome β} {others : Heap → β → Prop}
    (h : outcome.Obeys policy start holds)
    (hnext : ∀ value state, holds state.heap value → start.FitsIn state.heap →
      state.Obeys policy → (next value state).Obeys policy state.heap others) :
    (outcome.andThen next).Obeys policy start others := by
  cases outcome with
  | ok value state =>
      obtain ⟨hfits, hstate, hvalue⟩ := h
      exact (hnext value state hvalue hfits hstate).from_fitsIn hfits
  | error failure state => exact h
  | aborted => exact aborted
  | outOfFuel => exact outOfFuel

theorem map {transform : α → β} {others : Heap → β → Prop}
    (h : outcome.Obeys policy start holds)
    (hvalue : ∀ value heap, holds heap value → start.FitsIn heap →
      others heap (transform value)) :
    (outcome.map transform).Obeys policy start others :=
  h.andThen fun value state hholds hfits hstate => ok hstate (hvalue value state.heap hholds hfits)

theorem locatedAt (h : outcome.Obeys policy start holds) (position : Position) :
    (outcome.locatedAt position).Obeys policy start holds := by
  cases outcome <;> exact h

/-- The state is changed after the step, but not its heap. -/
theorem mapState {change : State → State} (h : outcome.Obeys policy start holds)
    (hheap : ∀ state, (change state).heap = state.heap)
    (hchange : ∀ state : State, start.FitsIn state.heap → state.Obeys policy →
      (change state).scopes.All (policy.allows state.heap)) :
    (outcome.mapState change).Obeys policy start holds := by
  have hobeys {state : State} (hfits : start.FitsIn state.heap) (hstate : state.Obeys policy) :
      (change state).Obeys policy :=
    ⟨by rw [hheap]; exact hchange state hfits hstate, by rw [hheap]; exact hstate.heap⟩
  cases outcome with
  | ok value state =>
      obtain ⟨hfits, hstate, hvalue⟩ := h
      exact ⟨by rwa [hheap], hobeys hfits hstate, by rwa [hheap]⟩
  | error failure state => exact ⟨by rw [hheap]; exact h.1, hobeys h.1 h.2⟩
  | aborted => exact aborted
  | outOfFuel => exact outOfFuel

end Obeys

end Outcome

open Outcome

namespace Policy

variable {policy : Policy}

/-- All values of a list may be at hand. -/
def allowsAll (policy : Policy) (heap : Heap) (values : List Value) : Prop :=
  ∀ value ∈ values, policy.allows heap value

/-- All values of a list of entries may be at hand. -/
def allowsEntries (policy : Policy) (heap : Heap) (entries : List (Key × Value)) : Prop :=
  ∀ entry ∈ entries, policy.allows heap entry.2

theorem allowsAll_mono {before after : Heap} (hfits : before.FitsIn after) {values : List Value}
    (h : policy.allowsAll before values) : policy.allowsAll after values :=
  fun value hvalue => policy.allows_mono hfits (h value hvalue)

theorem allowsEntries_mono {before after : Heap} (hfits : before.FitsIn after)
    {entries : List (Key × Value)} (h : policy.allowsEntries before entries) :
    policy.allowsEntries after entries :=
  fun entry hentry => policy.allows_mono hfits (h entry hentry)

/-- An array of two values that may be at hand. -/
theorem allows_pair {heap : Heap} {first second : Value} (hfirst : policy.allows heap first)
    (hsecond : policy.allows heap second) : ItemsAll (policy.allows heap) #[first, second] :=
  .ofList (List.forall_mem_cons.mpr ⟨hfirst, List.forall_mem_singleton.mpr hsecond⟩)

end Policy

namespace State.Obeys

variable {policy : Policy} {state : State} (h : state.Obeys policy)
include h

theorem withWorld (world : World) : { state with world := world }.Obeys policy :=
  ⟨h.scopes, h.heap⟩

theorem ok_withWorld {α : Type} {holds : Heap → α → Prop} {value : α}
    (hvalue : holds state.heap value) (world : World) :
    (Outcome.ok value { state with world := world }).Obeys policy state.heap holds :=
  .ok (h.withWorld world) hvalue

theorem error_withWorld {α : Type} {holds : Heap → α → Prop} (failure : RuntimeError)
    (world : World) :
    (Outcome.error failure { state with world := world } : Outcome α).Obeys policy state.heap
      holds :=
  .error (h.withWorld world)

theorem withHeap {heap : Heap} (hfits : state.heap.FitsIn heap) (hheap : policy.accepts heap) :
    { state with heap := heap }.Obeys policy :=
  ⟨h.scopes.imp fun _ => policy.allows_mono hfits, hheap⟩

theorem enterCall {frame : Frame} (hframe : frame.All (policy.allows state.heap)) :
    (state.enterCall frame).1.Obeys policy :=
  ⟨⟨h.scopes.globals, fun _ hother => List.eq_of_mem_singleton hother ▸ hframe⟩, h.heap⟩

/-- The frames of the caller, which come back after a call, stand for values that were at hand before
it. -/
theorem leaveCall {α : Type} {holds : Heap → α → Prop} {outcome : Outcome α}
    (houtcome : outcome.Obeys policy state.heap holds) :
    (outcome.mapState (State.leaveCall state.scopes.locals)).Obeys policy state.heap holds :=
  houtcome.mapState (fun _ => rfl) fun _ hfits hafter =>
    ⟨hafter.scopes.globals, (h.scopes.imp fun _ => policy.allows_mono hfits).locals⟩

theorem bind (name : String) {value : Value} (hvalue : policy.allows state.heap value) :
    (state.bind name value).Obeys policy :=
  ⟨h.scopes.bind name hvalue, h.heap⟩

theorem newArray {items : Array Value} (hitems : ItemsAll (policy.allows state.heap) items) :
    (state.newArray items).Obeys policy state.heap policy.allows :=
  have hfits := Heap.FitsIn.newArray state.heap items
  ⟨hfits, h.withHeap hfits (policy.accepts_newArray h.heap hitems),
    policy.allows_newArray h.heap items⟩

theorem newHash {table : Table} (htable : table.All (policy.allows state.heap)) :
    (state.newHash table).Obeys policy state.heap policy.allows :=
  have hfits := Heap.FitsIn.newHash state.heap table
  ⟨hfits, h.withHeap hfits (policy.accepts_newHash h.heap htable),
    policy.allows_newHash h.heap table⟩

theorem newFunction (callable : Callable) :
    (state.newFunction callable).Obeys policy state.heap policy.allows :=
  have hfits := Heap.FitsIn.newFunction state.heap callable
  ⟨hfits, h.withHeap hfits (policy.accepts_newFunction h.heap callable),
    policy.allows_newFunction h.heap callable⟩

theorem declare (name : String) {value : Value} (hvalue : policy.allows state.heap value) :
    (state.declare name value).Obeys policy state.heap fun _ _ => True := by
  unfold State.declare
  split
  · rename_i scopes hscopes
    exact ⟨.refl _, ⟨h.scopes.declare? hvalue hscopes, h.heap⟩, trivial⟩
  · exact .error h

theorem assign (name : String) {value : Value} (hvalue : policy.allows state.heap value) :
    (state.assign name value).Obeys policy state.heap fun _ _ => True := by
  unfold State.assign
  split
  · rename_i scopes hscopes
    exact ⟨.refl _, ⟨h.scopes.assign? hvalue hscopes, h.heap⟩, trivial⟩
  · exact .error h

theorem newPairs {entries : List (Key × Value)}
    (hentries : policy.allowsEntries state.heap entries) :
    (state.newPairs entries).Obeys policy state.heap policy.allowsAll := by
  induction entries generalizing state with
  | nil => exact .ok h (List.forall_mem_nil _)
  | cons entry rest ih =>
      obtain ⟨hentry, hrest⟩ := List.forall_mem_cons.mp hentries
      have hitems := policy.allows_pair (policy.allows_key state.heap entry.1) hentry
      refine (h.newArray hitems).andThen fun pair state hpair hfits hstate => ?_
      refine (ih hstate (policy.allowsEntries_mono hfits hrest)).map fun pairs heap hpairs hfits => ?_
      exact List.forall_mem_cons.mpr ⟨policy.allows_mono hfits hpair, hpairs⟩

theorem iterationItems {subject : Value} (hsubject : policy.allows state.heap subject) :
    (state.iterationItems subject).Obeys policy state.heap policy.allowsAll := by
  cases subject with
  | array ref => exact .ok h (policy.allows_items h.heap hsubject).toList
  | hash ref => exact h.newPairs (policy.allows_table h.heap hsubject)
  | _ => exact .error h

end State.Obeys

/-! ### Slots -/

/-- A place in a container that may be at hand. -/
def Slot.IsAllowed (policy : Policy) (heap : Heap) : Slot → Prop
  | item ref _ => policy.allows heap (.array ref)
  | entry ref _ => policy.allows heap (.hash ref)

theorem Slot.IsAllowed.mono {policy : Policy} {before after : Heap} (hfits : before.FitsIn after)
    {slot : Slot} (h : slot.IsAllowed policy before) : slot.IsAllowed policy after := by
  cases slot <;> exact policy.allows_mono hfits h

namespace Heap

variable {policy : Policy} {heap : Heap} {container index : Value} {slot : Slot}

theorem givesOnly_entrySlot {ref : HashRef} (href : policy.allows heap (.hash ref)) (key : Key) :
    GivesOnly (Slot.IsAllowed policy heap) (heap.entrySlot ref key) := by
  unfold entrySlot
  split
  · exact .ok href
  · exact .error

/-- A place in a container at hand. -/
theorem givesOnly_indexSlot (hcontainer : policy.allows heap container) (index : Value)
    (refused : Value → RuntimeError) :
    GivesOnly (Slot.IsAllowed policy heap) (heap.indexSlot container index refused) := by
  unfold indexSlot
  split
  · exact (GivesOnly.any _).map fun _ _ => hcontainer
  · split
    · exact givesOnly_entrySlot hcontainer _
    · exact .error
  · exact .error

theorem givesOnly_memberSlot (hcontainer : policy.allows heap container) (property : String) :
    GivesOnly (Slot.IsAllowed policy heap) (heap.memberSlot container property) := by
  unfold memberSlot
  split
  · exact givesOnly_entrySlot hcontainer _
  · exact .error

theorem givesOnly_newMemberSlot (hcontainer : policy.allows heap container) (property : String) :
    GivesOnly (Slot.IsAllowed policy heap) (newMemberSlot container property) := by
  unfold newMemberSlot
  split
  · exact .ok hcontainer
  · exact .error

theorem allows_readSlot (h : policy.accepts heap) (hslot : slot.IsAllowed policy heap) :
    policy.allows heap (heap.readSlot slot) := by
  cases slot with
  | item ref place =>
      exact policy.allows_getD fun value hvalue =>
        policy.allows_items h hslot value (Array.mem_of_getElem? hvalue)
  | entry ref key => exact policy.allows_getD fun value => (policy.allows_table h hslot).find?

theorem fitsIn_writeSlot (heap : Heap) (slot : Slot) (value : Value) :
    heap.FitsIn (heap.writeSlot slot value) := by
  cases slot with
  | item ref place => exact .setItem heap ref place value
  | entry ref key => exact .setEntry heap ref key value

theorem accepts_writeSlot (h : policy.accepts heap) (hslot : slot.IsAllowed policy heap)
    {value : Value} (hvalue : policy.allows heap value) :
    policy.accepts (heap.writeSlot slot value) := by
  cases slot with
  | item ref place => exact policy.accepts_setItem h hslot place hvalue
  | entry ref key => exact policy.accepts_setEntry h hslot key hvalue

end Heap

theorem givesOnly_stepped (policy : Policy) (heap : Heap) (value : Value) (delta : Number) :
    GivesOnly (policy.allows heap) (stepped value delta) := by
  unfold stepped
  split
  · exact .ok (policy.allows_scalar heap rfl)
  · exact .error

namespace State.Obeys

variable {policy : Policy} {state : State} (h : state.Obeys policy)
include h

theorem writeSlot {slot : Slot} (hslot : slot.IsAllowed policy state.heap) {value : Value}
    (hvalue : policy.allows state.heap value) :
    (state.writeSlot slot value).Obeys policy state.heap fun _ _ => True :=
  have hfits := state.heap.fitsIn_writeSlot slot value
  ⟨hfits, h.withHeap hfits (Heap.accepts_writeSlot h.heap hslot hvalue), trivial⟩

theorem stepped (value : Value) (delta : Number) :
    (Outcome.ofExcept (stepped value delta) state).Obeys policy state.heap policy.allows :=
  .ofExcept h (givesOnly_stepped policy state.heap value delta)

theorem stepSlot {slot : Slot} (hslot : slot.IsAllowed policy state.heap) (delta : Number) :
    (state.stepSlot slot delta).Obeys policy state.heap policy.allows := by
  refine (h.stepped _ delta).andThen fun value state hvalue hfits hstate => ?_
  refine (hstate.writeSlot (hslot.mono hfits) hvalue).map fun _ heap _ hfits => ?_
  exact policy.allows_mono hfits hvalue

theorem stepName (name : String) (delta : Number) :
    (state.stepName name delta).Obeys policy state.heap policy.allows := by
  unfold State.stepName
  split
  · exact .error h
  · refine (h.stepped _ delta).andThen fun value state hvalue _ hstate => ?_
    exact (hstate.assign name hvalue).map fun _ heap _ hfits => policy.allows_mono hfits hvalue

end State.Obeys

end ScriptEngine
