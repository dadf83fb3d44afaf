import ScriptEngine.Proofs.Execution.Names
import ScriptEngine.Proofs.Value.Contents

/-!
# Callbacks over an array

The functions that call back go through the items that an array has on entry, and make one call for
each of them. What a call does to that array, or to anything else, is seen by the calls after it and
not by the function. So a function is described by the calls made in turn, whatever they do, and by
what it makes of their results.
-/

namespace ScriptEngine

/-- Calls with the given arguments, one after the other, each in the state that the one before it
has left. The first call that does not succeed is the last one. The results are those of the calls
that succeeded. -/
inductive CallsInTurn (call : List Value → State → Outcome Value) :
    List (List Value) → State → List Value → Outcome Unit → Prop
  | done (state : State) : CallsInTurn call [] state [] (.ok () state)
  | next {arguments : List Value} {rest : List (List Value)} {before after : State}
      {result : Value} {results : List Value} {ending : Outcome Unit}
      (h : call arguments before = .ok result after)
      (hrest : CallsInTurn call rest after results ending) :
      CallsInTurn call (arguments :: rest) before (result :: results) ending
  | fails {arguments : List Value} {before after : State} {failure : RuntimeError}
      (h : call arguments before = .error failure after) (rest : List (List Value)) :
      CallsInTurn call (arguments :: rest) before [] (.error failure after)
  | aborted {arguments : List Value} {before : State} (h : call arguments before = .aborted)
      (rest : List (List Value)) : CallsInTurn call (arguments :: rest) before [] .aborted
  | outOfFuel {arguments : List Value} {before : State} (h : call arguments before = .outOfFuel)
      (rest : List (List Value)) : CallsInTurn call (arguments :: rest) before [] .outOfFuel

namespace CallsInTurn

variable {call : List Value → State → Outcome Value} {calls : List (List Value)}
  {before last : State} {results : List Value} {ending : Outcome Unit}

/-- If no call fails, then all of them are made. -/
theorem length_eq (h : CallsInTurn call calls before results ending)
    (hending : ending = .ok () last) : results.length = calls.length := by
  induction h with
  | done => rfl
  | next _ _ ih => rw [List.length_cons, List.length_cons, ih hending]
  | fails => exact nomatch hending
  | aborted => exact nomatch hending
  | outOfFuel => exact nomatch hending

/-- What every single call does to the state holds of all of them together. -/
theorem ends (related : State → State → Prop) (h : CallsInTurn call calls before results ending)
    (hrefl : ∀ state, related state state)
    (htrans : ∀ first second third, related first second → related second third →
      related first third)
    (hcall : ∀ arguments state, (call arguments state).Ends (related state)) :
    ending.Ends (related before) := by
  have hstep {arguments : List Value} {state : State} {outcome : Outcome Value}
      (heq : call arguments state = outcome) : outcome.Ends (related state) :=
    heq ▸ hcall arguments state
  induction h with
  | done state => exact hrefl state
  | next h _ ih => exact ih.imp fun _ hafter => htrans _ _ _ (hstep h) hafter
  | fails h => exact hstep h
  | aborted => trivial
  | outOfFuel => trivial

end CallsInTurn

/-- A step makes calls in turn, and ends as they do. Which calls it makes may depend on what the
earlier ones gave. -/
def Outcome.IsByCalls {α : Type} (call : List Value → State → Outcome Value)
    (calls : List Value → List (List Value)) (before : State) (finish : List Value → α)
    (outcome : Outcome α) : Prop :=
  ∃ results ending, CallsInTurn call (calls results) before results ending ∧
    outcome = ending.map fun _ => finish results

theorem Outcome.IsByCalls.congr {α : Type} {call : List Value → State → Outcome Value}
    {calls : List Value → List (List Value)} {before : State} {finish other : List Value → α}
    {outcome : Outcome α} (h : outcome.IsByCalls call calls before finish)
    (heq : ∀ results, finish results = other results) :
    outcome.IsByCalls call calls before other := by
  rw [← funext heq]
  exact h

namespace Callbacks

/-- A function that goes on after a call as if it made the further calls itself. -/
theorem isByCalls_andThen {α : Type} {call : List Value → State → Outcome Value}
    {arguments : List Value} {calls : List Value → List (List Value)} {before : State}
    {next : Value → State → Outcome α} {finish : List Value → α}
    (hnext : ∀ result after, (next result after).IsByCalls call
      (fun results => calls (result :: results)) after fun results => finish (result :: results)) :
    ((call arguments before).andThen next).IsByCalls call
      (fun results => arguments :: calls results) before finish := by
  cases hcall : call arguments before with
  | ok result after =>
      obtain ⟨results, ending, hcalls, heq⟩ := hnext result after
      exact ⟨result :: results, ending, .next hcall hcalls, heq⟩
  | error failure after => exact ⟨[], .error failure after, .fails hcall _, rfl⟩
  | aborted => exact ⟨[], .aborted, .aborted hcall _, rfl⟩
  | outOfFuel => exact ⟨[], .outOfFuel, .outOfFuel hcall _, rfl⟩

variable (call : Caller) (callback : Value)

/-- The arguments of the calls that are made with each item alone. -/
def single (items : List Value) : List (List Value) :=
  items.map fun item => [item]

/-- The arguments of the calls that are made with each item and what the call before gave. -/
def chained (initial : Value) (items results : List Value) : List (List Value) :=
  List.zipWith (fun accumulator item => [accumulator, item]) (initial :: results) items

/-- The items whose calls gave something truthy. -/
def accepted (items results : List Value) : List Value :=
  ((items.zip results).filter fun pair => pair.2.isTruthy).map Prod.fst

theorem accepted_cons (item result : Value) (items results : List Value) :
    accepted (item :: items) (result :: results) =
      (if result.isTruthy then [item] else []) ++ accepted items results := by
  unfold accepted
  rw [List.zip_cons_cons, List.filter_cons]
  split <;> rfl

theorem isByCalls_mapItems (items : List Value) (carried : Array Value) (state : State) :
    (mapItems call callback items carried state).IsByCalls (call callback)
      (fun _ => single items) state fun results => carried ++ results.toArray := by
  induction items generalizing carried state with
  | nil =>
      exact ⟨[], .ok () state, .done state, by simp [mapItems, Outcome.map, Outcome.andThen]⟩
  | cons item rest ih =>
      refine isByCalls_andThen fun result after => ?_
      exact (ih (carried.push result) after).congr fun results => by simp

theorem isByCalls_filterItems (items : List Value) (carried : Array Value) (state : State) :
    (filterItems call callback items carried state).IsByCalls (call callback)
      (fun _ => single items) state fun results => carried ++ (accepted items results).toArray := by
  induction items generalizing carried state with
  | nil =>
      exact ⟨[], .ok () state, .done state,
        by simp [filterItems, accepted, Outcome.map, Outcome.andThen]⟩
  | cons item rest ih =>
      refine isByCalls_andThen fun result after => ?_
      refine (ih (if result.isTruthy then carried.push item else carried) after).congr
        fun results => ?_
      rw [accepted_cons]
      split <;> simp

theorem isByCalls_foldItems (items : List Value) (accumulator : Value) (state : State) :
    (foldItems call callback items accumulator state).IsByCalls (call callback)
      (chained accumulator items) state fun results => results.getLastD accumulator := by
  induction items generalizing accumulator state with
  | nil => exact ⟨[], .ok () state, .done state, rfl⟩
  | cons item rest ih =>
      have hrest (result : Value) (after : State) :
          (foldItems call callback rest result after).IsByCalls (call callback)
            (chained result rest) after fun results => (result :: results).getLastD accumulator :=
        (ih result after).congr fun results => by cases results <;> rfl
      exact isByCalls_andThen hrest

/-- A fold starts from the third argument, or else from the first item. -/
theorem perform_reduce (ref : ArrayRef) (initial : Option Value) (state : State) :
    CallbackOperation.reduce.perform call (.array ref :: callback :: initial.toList) state =
      match initial.toList ++ (state.heap.items ref).toList with
      | [] => .error (Collections.emptyArray CallbackOperation.reduce.name) state
      | first :: rest => (foldItems call callback rest first state).map .value := by
  cases initial with
  | some initial => rfl
  | none =>
      cases hitems : (state.heap.items ref).toList with
      | nil =>
          simp [CallbackOperation.perform, Collections.itemsArgument, argument, Value.toArray,
            Except.map, Outcome.ofExcept, Outcome.andThen, hitems]
      | cons first rest =>
          simp [CallbackOperation.perform, Collections.itemsArgument, argument, Value.toArray,
            Except.map, Outcome.ofExcept, Outcome.andThen, hitems]

end Callbacks

/-- A heap with one more array, which has the given items. All else is as it was before. -/
structure Heap.AddsArray (before after : Heap) (made : ArrayRef) (items : List Value) : Prop where
  fresh : before.arrays.size ≤ made.index
  items : (after.items made).toList = items
  others (ref : ArrayRef) (h : ref ≠ made) : after.items ref = before.items ref
  hashes : after.hashes = before.hashes
  functions : after.functions = before.functions

theorem Heap.addsArray_newArray (heap : Heap) (items : List Value) :
    heap.AddsArray (heap.newArray items.toArray).2 ⟨heap.arrays.size⟩ items where
  fresh := Nat.le_refl _
  items := by rw [heap.items_newArray, if_pos rfl]
  others ref h := by
    have hindex : ref.index ≠ heap.arrays.size := fun heq => h (congrArg ArrayRef.mk heq)
    rw [heap.items_newArray, if_neg hindex]
  hashes := rfl
  functions := rfl

namespace Interpreter

/-- A function succeeds if all its calls did. Otherwise it ends as the one that did not. -/
def Concludes (ending : Outcome Unit) (outcome : Outcome Value) (succeeds : State → Prop) : Prop :=
  match ending with
  | .ok _ last => succeeds last
  | .error failure last => outcome = .error failure (leaveLevel last)
  | .aborted => outcome = .aborted
  | .outOfFuel => outcome = .outOfFuel

/-- A function gives an array that was not there at its start, nor after its last call. It changes
nothing else. -/
def GivesFresh (before last : State) (items : List Value) (outcome : Outcome Value) : Prop :=
  ∃ made heap, outcome = .ok (.array made) { leaveLevel last with heap := heap } ∧
    before.heap.arrays.size ≤ made.index ∧ last.heap.AddsArray heap made items

/-- What a call gives that performs a library function. -/
def realized (result : Outcome LibraryResult) : Outcome Value :=
  (result.andThen fun result state => state.realize result).mapState leaveLevel

/-- A call that is not refused performs what the function is there for, one level further down. -/
theorem call_native {state : State} {function : FunctionRef} {native : Native}
    {arguments : List Value} (fuel : Nat)
    (hcallable : state.heap.callable? function = some (.native native))
    (harity : native.arity.accepts arguments.length)
    (hdepth : state.callDepth < state.maxCallDepth) :
    (ofFuel (fuel + 1)).call (.function function) arguments state =
      realized (native.operation.perform (ofFuel fuel).call arguments (enterLevel state)) := by
  simp only [ofFuel, callValue, hcallable, callCallable, callNative, harity, realized,
    if_neg (Nat.not_le.mpr hdepth), if_true]

variable {call : List Value → State → Outcome Value} {calls : List Value → List (List Value)}
  {before : State} {count : Nat}

/-- A function that makes an array of the results of its calls. -/
theorem concludes_array {step : Outcome (Array Value)} {finish : List Value → List Value}
    (hstep : step.IsByCalls call calls before fun results => #[] ++ (finish results).toArray)
    (hcount : ∀ results, (calls results).length = count)
    (hcall : ∀ arguments state, (call arguments state).Ends fun after =>
      state.heap.arrays.size ≤ after.heap.arrays.size) :
    ∃ results ending, CallsInTurn call (calls results) before results ending ∧
      Concludes ending (realized (step.map .array)) fun last =>
        results.length = count ∧
          GivesFresh before last (finish results) (realized (step.map .array)) := by
  obtain ⟨results, ending, hcalls, rfl⟩ := hstep
  refine ⟨results, ending, hcalls, ?_⟩
  cases ending with
  | ok _ last =>
      have hsize : before.heap.arrays.size ≤ last.heap.arrays.size :=
        hcalls.ends (fun before after => before.heap.arrays.size ≤ after.heap.arrays.size)
          (fun _ => Nat.le_refl _) (fun _ _ _ => Nat.le_trans) hcall
      refine ⟨(hcalls.length_eq rfl).trans (hcount results), _, _, ?_, hsize,
        last.heap.addsArray_newArray (finish results)⟩
      simp [realized, Outcome.map, Outcome.andThen, Outcome.mapState, State.realize, Heap.realize,
        Heap.newArray, leaveLevel]
  | error failure last => rfl
  | aborted => rfl
  | outOfFuel => rfl

/-- A fold goes through the items that follow what it starts from. -/
theorem concludes_fold (caller : Caller) (callback first : Value) (rest : List Value)
    (before : State) :
    ∃ results ending,
      CallsInTurn (caller callback) (Callbacks.chained first rest results) before results ending ∧
        Concludes ending (realized
          ((Callbacks.foldItems caller callback rest first before).map .value)) fun last =>
            results.length = rest.length ∧
              realized ((Callbacks.foldItems caller callback rest first before).map .value) =
                .ok (results.getLastD first) (leaveLevel last) := by
  obtain ⟨results, ending, hcalls, heq⟩ :=
    Callbacks.isByCalls_foldItems caller callback rest first before
  rw [heq]
  refine ⟨results, ending, hcalls, ?_⟩
  cases ending with
  | ok _ last =>
      have hlength := hcalls.length_eq rfl
      simp only [Callbacks.chained, List.length_zipWith, List.length_cons] at hlength
      exact ⟨by omega, rfl⟩
  | error failure last => rfl
  | aborted => rfl
  | outOfFuel => rfl

end Interpreter

open Interpreter Callbacks

/-- **Callbacks are called in turn on what an array had on entry.** A call of `map`, `filter` or
`reduce` calls its callback with each item that the array had at the start, from the first to the
last, each time in the state that the call before has left. `reduce` also hands over what the call
before gave, or at first its third argument, or else the first item. The first call that fails is
the last one, and its error is that of the whole. Otherwise the results, the items whose results are
truthy, or the last result are given, in a fresh array as far as they are a list, and nothing is
written besides what the calls wrote. -/
theorem callbacks_fold_snapshot (fuel : Nat) {state : State} {function : FunctionRef}
    {native : Native} {operation : CallbackOperation} {ref : ArrayRef} {callback : Value}
    {initial : Option Value}
    (hcallable : state.heap.callable? function = some (.native native))
    (hoperation : native.operation = .callback operation)
    (harity : native.arity.accepts (Value.array ref :: callback :: initial.toList).length)
    (hdepth : state.callDepth < state.maxCallDepth) :
    let items := (state.heap.items ref).toList
    let call := (ofFuel fuel).call callback
    let outcome := (ofFuel (fuel + 1)).call (.function function)
      (.array ref :: callback :: initial.toList) state
    match operation with
    | .map => ∃ results ending, CallsInTurn call (single items) (enterLevel state) results ending ∧
        Concludes ending outcome fun last => results.length = items.length ∧
          GivesFresh state last results outcome
    | .filter =>
        ∃ results ending, CallsInTurn call (single items) (enterLevel state) results ending ∧
          Concludes ending outcome fun last => results.length = items.length ∧
            GivesFresh state last (accepted items results) outcome
    | .reduce =>
        match initial.toList ++ items with
        | [] => outcome = .error (Collections.emptyArray operation.name) state
        | first :: rest => ∃ results ending,
            CallsInTurn call (chained first rest results) (enterLevel state) results ending ∧
              Concludes ending outcome fun last => results.length = rest.length ∧
                outcome = .ok (results.getLastD first) (leaveLevel last) := by
  intro items call outcome
  have hcount (results : List Value) : (single items).length = items.length := List.length_map _
  have hgrows (arguments : List Value) (state : State) :
      (call arguments state).Ends fun after =>
        state.heap.arrays.size ≤ after.heap.arrays.size :=
    ((isAdvancing_ofFuel fuel).call callback arguments state).imp fun _ hafter =>
      hafter.grows.arrays
  have houtcome : outcome = realized (operation.perform (ofFuel fuel).call
      (.array ref :: callback :: initial.toList) (enterLevel state)) := by
    have h := call_native fuel hcallable harity hdepth
    rw [hoperation] at h
    exact h
  rw [houtcome]
  cases operation with
  | map =>
      have hstep := isByCalls_mapItems (ofFuel fuel).call callback items #[] (enterLevel state)
      exact concludes_array hstep hcount hgrows
  | filter =>
      have hstep := isByCalls_filterItems (ofFuel fuel).call callback items #[] (enterLevel state)
      exact concludes_array hstep hcount hgrows
  | reduce =>
      rw [perform_reduce]
      have hitems : ((enterLevel state).heap.items ref).toList = items := rfl
      rw [hitems]
      cases initial.toList ++ items with
      | nil => rfl
      | cons first rest => exact concludes_fold (ofFuel fuel).call callback first rest _

/-- An array `[first, second]`, the function `map`, and a sub that gives what it was called with
before. -/
def delayingState : State :=
  { State.blank with
    scopes := ⟨[("last", .nil)], []⟩
    heap := ⟨#[#[.string "first", .string "second"]], #[],
      #[.native ⟨"map", .exactly 2, .callback .map⟩,
        .sub none ["item"]
          [.declare .first "previous" (some (.name .first "last")),
            .assign .first (.name .first "last") (.name .first "item"),
            .returns .first (some (.name .first "previous"))]]⟩ }

theorem callbacks_fold_snapshot_delaying :
    let outcome :=
      (ofFuel 9).call (.function ⟨0⟩) [.array ⟨0⟩, .function ⟨1⟩] delayingState
    (outcome.Ends fun after => after.heap.items ⟨1⟩ = #[.nil, .string "first"]) ∧
      ∃ results ending, CallsInTurn ((ofFuel 8).call (.function ⟨1⟩))
          [[.string "first"], [.string "second"]] (enterLevel delayingState) results ending ∧
        Concludes ending outcome fun last => results.length = 2 ∧
          GivesFresh delayingState last results outcome := by
  intro outcome
  have hcallable : delayingState.heap.callable? ⟨0⟩ =
      some (.native ⟨"map", .exactly 2, .callback .map⟩) := rfl
  have harity : (Arity.exactly 2).accepts
      (Value.array ⟨0⟩ :: .function ⟨1⟩ :: (none : Option Value).toList).length := rfl
  exact ⟨rfl, callbacks_fold_snapshot 8 hcallable rfl harity (by decide)⟩

end ScriptEngine
