import ScriptEngine.Execution.State
import ScriptEngine.Proofs.Library.Plain
import ScriptEngine.Proofs.Program.Code

/-!
# Regimes

A regime says which code a run may come across, which callables it may store, which members it may
add to a hash and with which errors it may fail. What it admits has to be closed under all that the
interpreter does of itself.
-/

namespace ScriptEngine

/-- The code, callables, new members and errors that a run keeps to. -/
structure Regime where
  code : Code → Prop
  callable : Callable → Prop
  property : String → Prop
  failure : RuntimeError → Prop
  code_of_part {whole part : Code} (h : code whole) (hpart : part ∈ whole.parts) : code part
  code_of_callable {made : Callable} {part : Code} (h : callable made)
    (hpart : part ∈ made.parts) : code part
  callable_of_made {whole : Code} {made : Callable} (h : code whole)
    (hmade : whole.made? = some made) : callable made
  failure_of_isOrdinary {error : RuntimeError} (h : error.IsOrdinary) : failure error
  failure_stackOverflow (limit : Nat) : failure (.stackOverflow limit)
  failure_locatedAt {error : RuntimeError} (h : failure error) (position : Position) :
    failure (error.locatedAt position)

namespace Regime

/-- Anything goes, but for members that may not be added. -/
def lax (property : String → Prop) : Regime where
  code _ := True
  callable _ := True
  property := property
  failure _ := True
  code_of_part _ _ := trivial
  code_of_callable _ _ := trivial
  callable_of_made _ _ := trivial
  failure_of_isOrdinary _ := trivial
  failure_stackOverflow _ := trivial
  failure_locatedAt _ _ := trivial

variable (regime : Regime)

/-- All of the given code may be come across. -/
def All (parts : List Code) : Prop :=
  ∀ part ∈ parts, regime.code part

/-- All stored callables are admitted. -/
def Admits (heap : Heap) : Prop :=
  ∀ callable ∈ heap.functions, regime.callable callable

/-- The run may fail in any way. -/
def IsLenient : Prop :=
  ∀ error, regime.failure error

variable {regime}

theorem admits_lax {property : String → Prop} (heap : Heap) : (lax property).Admits heap :=
  fun _ _ => trivial

theorem all_lax {property : String → Prop} (parts : List Code) : (lax property).All parts :=
  fun _ _ => trivial

theorem isLenient_lax {property : String → Prop} : (lax property).IsLenient :=
  fun _ => trivial

theorem Admits.of_callable? {heap : Heap} (h : regime.Admits heap) {ref : FunctionRef}
    {callable : Callable} (hcallable : heap.callable? ref = some callable) :
    regime.callable callable :=
  h callable (Array.mem_of_getElem? hcallable)

theorem Admits.newFunction {heap : Heap} (h : regime.Admits heap) {callable : Callable}
    (hcallable : regime.callable callable) : regime.Admits (heap.newFunction callable).2 := by
  intro other hother
  rcases Array.mem_push.mp hother with hold | rfl
  · exact h other hold
  · exact hcallable

namespace All

@[simp]
theorem nil : regime.All [] :=
  nofun

@[simp]
theorem cons_iff {part : Code} {rest : List Code} :
    regime.All (part :: rest) ↔ regime.code part ∧ regime.All rest :=
  List.forall_mem_cons

@[simp]
theorem append_iff {first second : List Code} :
    regime.All (first ++ second) ↔ regime.All first ∧ regime.All second :=
  List.forall_mem_append

theorem of_code {whole : Code} (h : regime.code whole) : regime.All whole.parts :=
  fun _ hpart => regime.code_of_part h hpart

theorem of_callable {made : Callable} (h : regime.callable made) : regime.All made.parts :=
  fun _ hpart => regime.code_of_callable h hpart

end All

end Regime

end ScriptEngine
