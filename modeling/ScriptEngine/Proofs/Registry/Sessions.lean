import ScriptEngine.Execution.Script
import ScriptEngine.Proofs.Execution.Confinement
import ScriptEngine.Proofs.Execution.Frames
import ScriptEngine.Proofs.Registry.Building
import ScriptEngine.Registry.Standard

/-!
# Sessions obey policies

If the embedding program obeys a policy, then so does every state of a session with it, whatever
scripts run. The policy that every value has its cell is of this kind. So no reference of a session
dangles, although a reference is no more than the number of a cell.
-/

namespace ScriptEngine

open Interpreter Outcome

variable {policy : Policy}

/-! ### Installing a registry -/

/-- What a binding gives a name may be at hand if the registered values may. -/
theorem Heap.makes_newBinding {heap : Heap} (h : policy.accepts heap) {binding : Binding}
    (hvalues : policy.allowsAll heap binding.values) :
    Makes policy policy.allows heap (heap.newBinding binding) := by
  cases binding with
  | function arity value => exact ⟨.refl heap, h, List.forall_mem_singleton.mp hvalues⟩
  | constant value => exact ⟨.refl heap, h, List.forall_mem_singleton.mp hvalues⟩
  | module members =>
      refine makes_newHash h fun entry hentry => ?_
      obtain ⟨member, hmember, rfl⟩ := List.mem_map.mp hentry
      exact hvalues _ (List.mem_map_of_mem hmember)

namespace State.Obeys

theorem installEntry {state : State} (h : state.Obeys policy) {entry : RegistryEntry}
    (hvalues : policy.allowsAll state.heap entry.binding.values) :
    state.heap.FitsIn (state.installEntry entry).heap ∧
      (state.installEntry entry).Obeys policy := by
  obtain ⟨hfits, hheap, hvalue⟩ := Heap.makes_newBinding h.heap hvalues
  have hscopes := (h.withHeap hfits hheap).scopes
  exact ⟨hfits, hscopes.defineGlobal entry.name hvalue, hheap⟩

theorem install {registry : Registry} {state : State} (h : state.Obeys policy)
    (hvalues : ∀ entry ∈ registry.entries, policy.allowsAll state.heap entry.binding.values) :
    (registry.install state).Obeys policy := by
  unfold Registry.install
  generalize registry.entries = entries at hvalues
  induction entries generalizing state with
  | nil => exact h
  | cons entry rest ih =>
      obtain ⟨hentry, hrest⟩ := List.forall_mem_cons.mp hvalues
      obtain ⟨hfits, hstate⟩ := h.installEntry hentry
      exact ih hstate fun other hother => policy.allowsAll_mono hfits (hrest other hother)

end State.Obeys

/-! ### Sessions -/

theorem RunResult.state?_of_ofOutcome {α : Type} {outcome : Outcome α} {failure : Option Failure}
    {after : State} (h : ofOutcome outcome = .done failure after) : outcome.state? = some after := by
  cases outcome with
  | ok value state =>
      cases h
      rfl
  | error failure state =>
      cases h
      rfl
  | aborted => exact nomatch h
  | outOfFuel => exact nomatch h

/-- The states of a session in which the embedding program obeys a policy. It gives names, registries
and calls only such values as may be at hand, and makes only heaps that are in order. -/
inductive ObedientSession (policy : Policy) : State → Prop
  | initial {heap : Heap} (hheap : policy.accepts heap) (world : World) :
      ObedientSession policy (.initial heap world)
  | allocate {state : State} {heap : Heap} (h : ObedientSession policy state)
      (hheap : state.heap.Allocates heap) (haccepts : policy.accepts heap) :
      ObedientSession policy { state with heap := heap }
  | define {state : State} (name : String) {value : Value} (h : ObedientSession policy state)
      (hvalue : policy.allows state.heap value) :
      ObedientSession policy (state.defineGlobal name value)
  | install {state : State} {registry : Registry} (h : ObedientSession policy state)
      (hvalues : ∀ entry ∈ registry.entries, policy.allowsAll state.heap entry.binding.values) :
      ObedientSession policy (registry.install state)
  | limit {state : State} (depth : Nat) (h : ObedientSession policy state) :
      ObedientSession policy { state with maxCallDepth := depth }
  | world {state : State} (world : World) (h : ObedientSession policy state) :
      ObedientSession policy { state with world := world }
  | run {state after : State} {fuel : Nat} {program : Program} (h : ObedientSession policy state)
      (hend : ((ofFuel fuel).run program state).state? = some after) :
      ObedientSession policy after
  | evaluate {state after : State} {fuel : Nat} {expression : Expr}
      (h : ObedientSession policy state)
      (hend : ((ofFuel fuel).evaluate expression state).state? = some after) :
      ObedientSession policy after
  | execute {state after : State} {fuel : Nat} {statement : Stmt}
      (h : ObedientSession policy state)
      (hend : ((ofFuel fuel).execute statement state).state? = some after) :
      ObedientSession policy after
  | call {state after : State} {fuel : Nat} {callee : Value} {arguments : List Value}
      (h : ObedientSession policy state) (harguments : policy.allowsAll state.heap arguments)
      (hend : ((ofFuel fuel).call callee arguments state).state? = some after) :
      ObedientSession policy after

namespace ObedientSession

variable {state : State}

theorem session (h : ObedientSession policy state) : Session state := by
  induction h with
  | initial _ world => exact .initial _ world
  | allocate _ hheap _ ih => exact ih.allocate hheap
  | define name _ _ ih => exact ih.define name _
  | install _ _ ih => exact ih.install _
  | limit depth _ ih => exact ih.limit depth
  | world world _ ih => exact ih.world world
  | run _ hend ih => exact ih.run hend
  | evaluate _ hend ih => exact ih.evaluate hend
  | execute _ hend ih => exact ih.execute hend
  | call _ _ hend ih => exact ih.call hend

/-- A session obeys the policy that its embedding program obeys. -/
theorem obeys (h : ObedientSession policy state) : state.Obeys policy := by
  induction h with
  | initial hheap _ => exact ⟨⟨Frame.All.nil, List.forall_mem_nil _⟩, hheap⟩
  | allocate _ hheap haccepts ih => exact ih.withHeap hheap.fitsIn haccepts
  | define name _ hvalue ih => exact ⟨ih.scopes.defineGlobal name hvalue, ih.heap⟩
  | install _ hvalues ih => exact ih.install hvalues
  | limit _ _ ih => exact ⟨ih.scopes, ih.heap⟩
  | world world _ ih => exact ih.withWorld world
  | @run _ _ fuel program _ hend ih =>
      exact ((obeys_run fuel program ih).ends.of_state? hend).2
  | @evaluate _ _ fuel expression _ hend ih =>
      exact (((obeys_ofFuel policy fuel).evaluate expression ih).ends.of_state? hend).2
  | @execute _ _ fuel statement _ hend ih =>
      exact (((obeys_ofFuel policy fuel).execute statement ih).ends.of_state? hend).2
  | @call _ _ fuel _ _ _ harguments hend ih =>
      exact (((obeys_ofFuel policy fuel).call harguments ih).ends.of_state? hend).2

/-- A script belongs to the session, whether it parses or not and however it ends. -/
theorem runScript (h : ObedientSession policy state) {registry : Registry}
    (hvalues : ∀ entry ∈ registry.entries, policy.allowsAll state.heap entry.binding.values)
    {fuel : Nat} {source : String} {failure : Option Failure} {after : State}
    (hend : (ofFuel fuel).runScript registry source state = .done failure after) :
    ObedientSession policy after := by
  unfold Interpreter.runScript at hend
  cases hparse : Program.parse source with
  | error error =>
      rw [hparse] at hend
      cases hend
      exact h
  | ok program =>
      rw [hparse] at hend
      exact (h.install hvalues).run (RunResult.state?_of_ofOutcome hend)

end ObedientSession

/-! ### References lead to cells -/

/-- **No reference dangles.** In a session in which the embedding program hands over only values of
the heap, every name stands for a value whose cell is there, and so does every place in an array or a
hash. What an expression gives next has its cell too. -/
theorem isClosed_of_session {state : State} (h : ObedientSession .closed state) :
    state.scopes.All (·.IsIn state.heap) ∧ state.heap.IsClosed ∧
      ∀ fuel expression value after,
        (ofFuel fuel).evaluate expression state = .ok value after → value.IsIn after.heap := by
  refine ⟨h.obeys.scopes, h.obeys.heap, fun fuel expression value after hvalue => ?_⟩
  have hobeys := (obeys_ofFuel .closed fuel).evaluate expression h.obeys
  rw [hvalue] at hobeys
  exact hobeys.2.2

/-- While programs run, a registry stays built on the heap that they share. -/
theorem Registry.IsBuilt.run {registry : Registry} {state after : State}
    (hbuilt : registry.IsBuilt state.heap) (hscopes : state.scopes.All (·.IsIn state.heap))
    {fuel : Nat} {program : Program}
    (hend : ((ofFuel fuel).run program state).state? = some after) :
    registry.IsBuilt after.heap := by
  have hstate : state.Obeys .closed := ⟨hscopes, hbuilt.isIn.closed⟩
  obtain ⟨hfits, hafter⟩ := (obeys_run fuel program hstate).ends.of_state? hend
  exact hbuilt.change hfits hafter.heap

/-- The constants of the standard library are no containers. -/
theorem Standard.isIn_of_mem_library (heap : Heap) (arguments : List String) :
    ∀ item ∈ library arguments, item.IsIn heap := by
  have hfunctions (items : List FunctionItem) :
      ∀ item ∈ items.map LibraryItem.function, item.IsIn heap := by
    intro item hitem
    obtain ⟨function, -, rfl⟩ := List.mem_map.mp hitem
    trivial
  have hmonths : ∀ item ∈ monthMembers, item.IsIn heap := by
    intro item hitem
    obtain ⟨month, -, rfl⟩ := List.mem_map.mp hitem
    trivial
  refine List.forall_mem_append.mpr ⟨hfunctions _, ?_⟩
  simp only [modules, List.forall_mem_cons, LibraryItem.IsIn]
  refine ⟨?_, ?_, ?_, ?_, ?_, List.forall_mem_nil _⟩
  · simp [mathMembers, unary, binary, MemberItem.IsIn, Value.IsIn]
  · simp [jsonMembers, MemberItem.IsIn]
  · simp [fileMembers, file, MemberItem.IsIn]
  · simp [systemMembers, system, MemberItem.IsIn, Value.IsIn]
  · refine List.forall_mem_append.mpr ⟨?_, hmonths⟩
    simp [time, MemberItem.IsIn]

/-- Whatever script runs with the standard library, no reference dangles when it has ended. -/
theorem isClosed_of_runScript (arguments : List String) (source : String) (world : World)
    (maxCallDepth fuel : Nat) {failure : Option Failure} {after : State}
    (hend : (ofFuel fuel).runScript (Registry.standard arguments .empty).1 source
      { State.initial (Registry.standard arguments .empty).2 world with
        maxCallDepth := maxCallDepth } = .done failure after) :
    after.scopes.All (·.IsIn after.heap) ∧ after.heap.IsClosed := by
  have hbuilt : (Registry.standard arguments .empty).1.IsBuilt
      (Registry.standard arguments .empty).2 :=
    (Registry.IsBuilt.empty .empty).registerItems (Standard.isIn_of_mem_library .empty arguments)
  have hclosed := hbuilt.isIn.closed
  have hstart : ObedientSession .closed _ := .limit maxCallDepth (.initial hclosed world)
  have hafter := hstart.runScript hbuilt.isIn.values hend
  exact ⟨(isClosed_of_session hafter).1, (isClosed_of_session hafter).2.1⟩

end ScriptEngine
