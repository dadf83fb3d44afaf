import ScriptEngine.Proofs.Execution.Confinement
import ScriptEngine.Proofs.Execution.Runs
import ScriptEngine.Proofs.Value.Correspondence

/-!
# What a run can reach

A run gets at a container only on a way that begins with a name. So the containers to which no name
leads are a reserve: whatever program runs, they hold afterwards what they held before, and still no
name leads to them. A value that an embedding program keeps to itself is safe from the scripts that
it runs.
-/

namespace ScriptEngine

open Outcome

/-- The values that names stand for. -/
def Scopes.values (scopes : Scopes) : List Value :=
  (scopes.globals :: scopes.locals).flatMap fun frame => frame.map Prod.snd

theorem Scopes.all_iff {holds : Value → Prop} {scopes : Scopes} :
    scopes.All holds ↔ ∀ value ∈ scopes.values, holds value := by
  have hvalues : (∀ value ∈ scopes.values, holds value) ↔
      ∀ frame ∈ scopes.globals :: scopes.locals, Frame.All holds frame := by
    simp only [values, List.forall_mem_flatMap, List.forall_mem_map, Frame.All]
  rw [hvalues, List.forall_mem_cons]
  exact ⟨fun h => ⟨h.globals, h.locals⟩, fun h => ⟨h.1, h.2⟩⟩

namespace State

/-- A name leads to a container. -/
def Reaches (state : State) (container : ContainerRef) : Prop :=
  ∃ value ∈ state.scopes.values, state.heap.Reaches value container

/-- The containers of the heap to which no name leads. -/
def unreached (state : State) : Reserve where
  heap := state.heap
  holds container := container ∈ state.heap.containers ∧ ¬state.Reaches container
  array_cell h := state.heap.mem_containers_iff.mp h.1
  hash_cell h := state.heap.mem_containers_iff.mp h.1

theorem not_holds_unreached {state : State} {container : ContainerRef}
    (h : state.Reaches container) : ¬state.unreached.holds container :=
  fun hheld => hheld.2 h

theorem obeys_unreached (state : State) : state.Obeys (.sparing state.unreached) where
  scopes := by
    refine Scopes.all_iff.mpr fun value hvalue => Value.isClear_iff.mpr ?_
    rintro container rfl
    exact not_holds_unreached ⟨_, hvalue, Heap.reaches_self container⟩
  heap := by
    refine Heap.spares_self fun outer hfree value hvalue => Value.isClear_iff.mpr ?_
    rintro inner rfl
    -- A container that is not held has something in it, so that a name leads to it.
    have hcell := state.heap.mem_containers_of_mem_contents hvalue
    obtain ⟨bound, hbound, hreaches⟩ := not_and_not_right.mp hfree hcell
    exact not_holds_unreached ⟨bound, hbound, hreaches.tail hvalue⟩

/-- As long as a reserve is spared, no name leads into it. -/
theorem Obeys.not_reaches {reserve : Reserve} {state : State} (h : state.Obeys (.sparing reserve))
    {container : ContainerRef} (hheld : reserve.holds container) : ¬state.Reaches container := by
  rintro ⟨value, hvalue, hreaches⟩
  have hclear := Scopes.all_iff.mp h.scopes value hvalue
  exact h.heap.not_holds_of_reaches hclear hreaches hheld

end State

namespace Interpreter

/-- **A run changes nothing but what names lead to.** Any other container of the heap holds after the
run what it held before, whether the run succeeds or fails, and no name leads to it then. -/
theorem ends_run_unreached (fuel : Nat) (program : Program) (state : State) :
    ((ofFuel fuel).run program state).Ends fun after =>
      ∀ container ∈ state.heap.containers, ¬state.Reaches container →
        after.heap.SameAt state.heap container ∧ ¬after.Reaches container := by
  refine (obeys_run fuel program state.obeys_unreached).ends.imp fun after hafter => ?_
  obtain ⟨-, hobeys⟩ := hafter
  intro container hcell hfree
  exact ⟨hobeys.heap.sameAt ⟨hcell, hfree⟩, hobeys.not_reaches ⟨hcell, hfree⟩⟩

/-- **What names do not lead to prints the same.** A run makes no difference to how a value prints
if no name leads to any of the containers that the value reaches. -/
theorem print_eq_of_run (fuel : Nat) (program : Program) {state : State}
    (hclosed : state.heap.IsClosed) {value : Value} (hvalue : value.IsIn state.heap)
    (hfree : ∀ container, state.heap.Reaches value container → ¬state.Reaches container)
    {after : State} (hend : ((ofFuel fuel).run program state).state? = some after) :
    after.heap.print value = state.heap.print value := by
  have hsame := (ends_run_unreached fuel program state).of_state? hend
  have hadvances := ((isAdvancing_ofFuel fuel).run program state).of_state? hend
  refine Heap.print_eq_of_sameAt hclosed hadvances.callable?_eq_some hvalue
    fun container hreaches => ?_
  have hcell := hclosed.mem_containers_of_reaches hvalue hreaches
  exact (hsame container hcell (hfree container hreaches)).1

end Interpreter

end ScriptEngine
