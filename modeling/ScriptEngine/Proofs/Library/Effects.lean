import ScriptEngine.Proofs.Execution.Advance
import ScriptEngine.Proofs.Library.Reading

/-!
# What library functions change

A library function adds cells to the heap and changes the outside world. Besides that, only
`map`, `filter` and `reduce` change anything, through the callback that they call.
-/

namespace ScriptEngine

namespace Heap

theorem Allocates.trans {first second third : Heap} (hfirst : first.Allocates second)
    (hsecond : second.Allocates third) : first.Allocates third := by
  induction hsecond with
  | refl => exact hfirst
  | newArray items _ ih => exact ih.newArray items
  | newHash table _ ih => exact ih.newHash table
  | newFunction callable _ ih => exact ih.newFunction callable

end Heap

namespace JsonCodec

mutual

theorem allocates_decode (heap : Heap) :
    (document : JsonDocument) → heap.Allocates (decode heap document).2
  | .null => .refl heap
  | .boolean _ => .refl heap
  | .number _ => .refl heap
  | .string _ => .refl heap
  | .array elements => (allocates_decodeElements heap elements).newArray _
  | .object members => (allocates_decodeMembers heap members).newHash _

theorem allocates_decodeElements (heap : Heap) :
    (elements : List JsonDocument) → heap.Allocates (decodeElements heap elements).2
  | [] => .refl heap
  | head :: rest => (allocates_decode heap head).trans (allocates_decodeElements _ rest)

theorem allocates_decodeMembers (heap : Heap) :
    (members : List JsonMember) → heap.Allocates (decodeMembers heap members).2
  | [] => .refl heap
  | .mk _ document :: rest =>
    (allocates_decode heap document).trans (allocates_decodeMembers _ rest)

end

end JsonCodec

namespace Heap

theorem allocates_newHashes (heap : Heap) (inner : List (Key × List (Key × Value))) :
    heap.Allocates (heap.newHashes inner).2 := by
  induction inner generalizing heap with
  | nil => exact .refl heap
  | cons entry rest ih =>
      have hfirst : heap.Allocates (heap.newHash (.ofList entry.2)).2 := .newHash _ (.refl heap)
      exact hfirst.trans (ih _)

/-- The containers of a result are all new. -/
theorem allocates_realize (heap : Heap) (result : LibraryResult) :
    heap.Allocates (heap.realize result).2 := by
  cases result with
  | value value => exact .refl heap
  | array items => exact .newArray items (.refl heap)
  | taken value left => exact .newArray _ (.newArray left (.refl heap))
  | hash entries inner => exact .newHash _ (heap.allocates_newHashes inner)
  | document document => exact JsonCodec.allocates_decode heap document

end Heap

open Outcome

variable {regime : Regime} {activity : Activity}

namespace State

variable (state : State)

theorem advances_write (text : String) : (state.write text).AdvancesFrom regime activity state := by
  unfold write
  split
  · exact .ok ()
  · split
    · exact .ordinary ⟨nofun, rfl⟩
    · exact .after (.world activity state _) (.ok ())

theorem advances_flush : state.flush.AdvancesFrom regime activity state := by
  unfold flush
  split
  · exact .ordinary ⟨nofun, rfl⟩
  · exact .ok ()

theorem advances_realize (result : LibraryResult) :
    (state.realize result).AdvancesFrom regime activity state := by
  have hadmits (h : regime.Admits state.heap) : regime.Admits (state.heap.realize result).2 := by
    unfold Regime.Admits
    rw [state.heap.functions_realize]
    exact h
  exact .after (.allocate activity (state.heap.allocates_realize result) hadmits) (.ok _)

theorem advances_applyFile (operation : FileOperation) (arguments : List Value) :
    (state.applyFile operation arguments).AdvancesFrom regime activity state := by
  unfold applyFile
  cases hresult : operation.apply arguments state.heap state.world with
  | ok result => exact .after (.world activity state _) (.ok result.1)
  | error failure => exact .ordinary (operation.failsPlainly_apply _ _ _ failure hresult)

theorem advances_applyTime (operation : TimeOperation) (arguments : List Value) :
    (state.applyTime operation arguments).AdvancesFrom regime activity state :=
  .after (.world activity state _) (.ofExcept (operation.failsPlainly_apply _ _ _))

end State

namespace Console

theorem advances_write (text : String) (state : State) :
    (write text state).AdvancesFrom regime activity state :=
  (state.advances_write text).map _

theorem advances_formatted (function : String) (arguments : List Value) (state : State) :
    (formatted function arguments state).AdvancesFrom regime activity state := by
  unfold formatted
  cases hformat : argument Value.toText function arguments 0 with
  | error failure => exact .ordinary (failsPlainly_argument _ _ _ _ failure hformat)
  | ok format =>
      dsimp only
      split
      · exact .ok _
      · exact .aborted

end Console

theorem ConsoleOperation.advances_perform (operation : ConsoleOperation) (arguments : List Value)
    (state : State) : (operation.perform arguments state).AdvancesFrom regime activity state := by
  cases operation with
  | print => exact Console.advances_write _ state
  | println => exact Console.advances_write _ state
  | printf => exact (Console.advances_formatted _ _ state).andThen Console.advances_write
  | sprintf => exact (Console.advances_formatted _ _ state).map _

namespace Surroundings

variable (state : State)

theorem advances_exit (status : Int) : (exit status state).AdvancesFrom regime activity state := by
  unfold exit
  split
  · exact state.advances_flush.andThen fun _ state => .ordinary ⟨nofun, rfl⟩
  · exact .ordinary ⟨nofun, rfl⟩

theorem advances_changeFiles (function path : String) (files : Except FileError FileTree) :
    (changeFiles state function path files).AdvancesFrom regime activity state := by
  unfold changeFiles
  cases hfiles : Storage.attempt function path files with
  | ok files => exact .after (.world activity state _) (.ok _)
  | error failure => exact .ordinary (Storage.failsPlainly_attempt _ _ _ failure hfiles)

theorem advances_moveEntry (source target : String) :
    (moveEntry state source target).AdvancesFrom regime activity state := by
  unfold moveEntry
  cases hmoved : Storage.move "os.mv" state.world source target with
  | ok world => exact .after (.world activity state _) (.ok _)
  | error failure => exact .ordinary (Storage.failsPlainly_move _ _ _ _ failure hmoved)

theorem advances_createDirectories (path : String) :
    (createDirectories state path).AdvancesFrom regime activity state := by
  unfold createDirectories
  simp only
  split
  · exact .after (.world activity state _) (.ok _)
  · exact .after (.world activity state _) (.ordinary ⟨nofun, rfl⟩)

theorem advances_changeDirectory (path : String) :
    (changeDirectory state path).AdvancesFrom regime activity state := by
  unfold changeDirectory
  simp only
  cases hmoved : Storage.attempt "os.chdir" path
      (state.world.files.changeDirectory state.world.directory path) with
  | ok directory => exact .after (.world activity state _) (.ok _)
  | error failure => exact .ordinary (Storage.failsPlainly_attempt _ _ _ failure hmoved)

end Surroundings

open Surroundings in
theorem SystemOperation.advances_perform (operation : SystemOperation) (arguments : List Value)
    (state : State) : (operation.perform arguments state).AdvancesFrom regime activity state := by
  have htext := failsPlainly_argument Value.toText
  cases operation with
  | args scriptArguments => exact .ok _
  | env => exact (AdvancesFrom.ofExcept (htext _ _ _)).map _
  | getwd => exact (AdvancesFrom.ofExcept (failsPlainly_workingDirectory _)).map _
  | chdir => exact .ofExcept_andThen (htext _ _ _) fun path => advances_changeDirectory state path
  | mkdir => exact .ofExcept_andThen (htext _ _ _) fun path =>
      advances_changeFiles state _ path _
  | mkdirAll => exact .ofExcept_andThen (htext _ _ _) fun path =>
      advances_createDirectories state path
  | cp => exact .ofExcept_andThen (htext _ _ _) fun source =>
      .ofExcept_andThen (htext _ _ _) fun target => advances_changeFiles state _ source _
  | mv => exact .ofExcept_andThen (htext _ _ _) fun source =>
      .ofExcept_andThen (htext _ _ _) fun target => advances_moveEntry state source target
  | exit => exact .ofExcept_andThen (failsPlainly_argument _ _ _ _) fun status =>
      advances_exit state status

section

variable {call : Caller}
  (hcall : ∀ callee arguments state,
    (call callee arguments state).AdvancesFrom regime .hosting state)
include hcall

namespace Callbacks

theorem advances_mapItems (callback : Value) (items : List Value) (results : Array Value)
    (state : State) :
    (mapItems call callback items results state).AdvancesFrom regime .hosting state := by
  induction items generalizing results state with
  | nil => exact .ok results
  | cons item rest ih => exact (hcall _ _ state).andThen fun result state => ih _ state

theorem advances_filterItems (callback : Value) (items : List Value) (results : Array Value)
    (state : State) :
    (filterItems call callback items results state).AdvancesFrom regime .hosting state := by
  induction items generalizing results state with
  | nil => exact .ok results
  | cons item rest ih => exact (hcall _ _ state).andThen fun result state => ih _ state

theorem advances_foldItems (callback : Value) (items : List Value) (accumulator : Value)
    (state : State) :
    (foldItems call callback items accumulator state).AdvancesFrom regime .hosting state := by
  induction items generalizing accumulator state with
  | nil => exact .ok accumulator
  | cons item rest ih => exact (hcall _ _ state).andThen fun result state => ih result state

end Callbacks

open Callbacks in
theorem CallbackOperation.advances_perform (operation : CallbackOperation)
    (arguments : List Value) (state : State) :
    (operation.perform call arguments state).AdvancesFrom regime .hosting state := by
  have hitems := Collections.failsPlainly_itemsArgument state.heap operation.name arguments
  unfold perform
  refine .ofExcept_andThen hitems fun items => ?_
  cases operation with
  | map => exact (advances_mapItems hcall _ _ _ state).map _
  | filter => exact (advances_filterItems hcall _ _ _ state).map _
  | reduce =>
      simp only
      split
      · exact (advances_foldItems hcall _ _ _ state).map _
      · exact (advances_foldItems hcall _ _ _ state).map _
      · exact .ordinary ⟨nofun, rfl⟩

theorem HostSteps.advances_perform (steps : HostSteps) (atHand : List Value) (state : State) :
    (steps.perform call atHand state).AdvancesFrom regime .hosting state := by
  induction steps generalizing atHand state with
  | single result => exact .ok _
  | multiple results => exact .ok _
  | refuse message => exact .ordinary ⟨nofun, rfl⟩
  | write text next ih => exact (state.advances_write text).andThen fun _ state => ih atHand state
  | print subject next ih => exact ih _ atHand state
  | look subject next ih => exact ih _ _ state
  | newArray items next ih => exact (state.advances_realize _).andThen fun _ state => ih _ state
  | newHash entries next ih => exact (state.advances_realize _).andThen fun _ state => ih _ state
  | call callee arguments next ih => exact (hcall _ _ state).andThen fun _ state => ih _ state

/-- A library function reaches the script only through `call`. -/
theorem Operation.advances_perform (operation : Operation) (arguments : List Value)
    (state : State) :
    (operation.perform call arguments state).AdvancesFrom regime .hosting state := by
  cases operation with
  | console operation => exact operation.advances_perform arguments state
  | conversion operation =>
      exact (AdvancesFrom.ofExcept (operation.failsPlainly_apply arguments state.heap)).map _
  | collection operation => exact .ofExcept (operation.failsPlainly_apply arguments state.heap)
  | callback operation => exact operation.advances_perform hcall arguments state
  | math operation => exact (AdvancesFrom.ofExcept (operation.failsPlainly_apply arguments)).map _
  | json operation => exact .ofExcept (operation.failsPlainly_apply arguments _ state.heap)
  | file operation => exact state.advances_applyFile operation arguments
  | system operation => exact operation.advances_perform arguments state
  | time operation => exact state.advances_applyTime operation arguments
  | host operation => exact HostSteps.advances_perform hcall _ arguments state

end

end ScriptEngine
