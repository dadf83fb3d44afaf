import ScriptEngine.Proofs.Execution.Transfer
import ScriptEngine.Proofs.Library.Effects

/-!
# Library functions carry over

A library function sees of the heap its arrays and hashes, and how functions print, and changes the
state only by new arrays and hashes and in the outside world. So it does the same in states that a
transfer relates, as far as its callbacks do.
-/

namespace ScriptEngine

/-! ### Steps of the library -/

/-- A file function that succeeds leaves the sink as it was. -/
def KeepsSink (world : World) (outcome : Except RuntimeError (LibraryResult × World)) : Prop :=
  ∀ result after, outcome = .ok (result, after) → after.sink = world.sink

namespace KeepsSink

variable {world after : World}

theorem ok (result : LibraryResult) (h : after.sink = world.sink) :
    KeepsSink world (.ok (result, after)) := by
  intro _ _ heq
  cases heq
  exact h

theorem bind {α : Type} {first : Except RuntimeError α}
    {next : α → Except RuntimeError (LibraryResult × World)}
    (h : ∀ value, first = .ok value → KeepsSink world (next value)) :
    KeepsSink world (first >>= next) := by
  cases first with
  | ok value => exact h value rfl
  | error failure => exact fun _ _ heq => nomatch heq

end KeepsSink

theorem Storage.sink_of_move {function source target : String} {world after : World}
    (h : move function world source target = .ok after) : after.sink = world.sink := by
  unfold move at h
  cases hfiles : attempt function source (world.files.rename world.directory source target) with
  | ok moved =>
      rw [hfiles] at h
      cases h
      rfl
  | error failure =>
      rw [hfiles] at h
      cases h

theorem FileOperation.keepsSink_apply (operation : FileOperation) (arguments : List Value)
    (heap : Heap) (world : World) : KeepsSink world (operation.apply arguments heap world) := by
  cases operation with
  | persist => exact .bind fun _ _ => .bind fun _ _ => .bind fun _ _ => .ok _ rfl
  | read => exact .bind fun _ _ => .bind fun _ _ => .ok _ rfl
  | write => exact .bind fun _ _ => .bind fun _ _ => .bind fun _ _ => .ok _ rfl
  | present => exact .bind fun _ _ => .ok _ rfl
  | remove => exact .bind fun _ _ => .bind fun _ _ => .ok _ rfl
  | rename =>
      refine .bind fun source _ => .bind fun target _ => .bind fun moved hmoved => ?_
      exact .ok _ (Storage.sink_of_move hmoved)
  | stat => exact .bind fun _ _ => .bind fun _ _ => .ok _ rfl

namespace Transfer

variable {transfer : Transfer} {start : State}

/-- What does not depend on the functions of the heap stays the same. -/
theorem read_state {β : Type} (transfer : Transfer) (start : State) (read : Heap → β)
    (hread : ∀ functions,
      (start.heap.withFunctions functions).printFunction = start.heap.printFunction →
        read (start.heap.withFunctions functions) = read start.heap) :
    read (transfer.state start).heap = read start.heap := by
  have hprint := transfer.printFunction_state start
  rw [transfer.heap_state] at hprint ⊢
  exact hread _ hprint

theorem print_state (transfer : Transfer) (start : State) :
    (transfer.state start).heap.print = start.heap.print :=
  transfer.read_state start Heap.print fun _ => Heap.print_withFunctions

/-- A host function sees the same of a value. -/
theorem look_state (transfer : Transfer) (start : State) (value : Value) :
    (transfer.state start).look value = start.look value := by
  unfold State.look
  rw [transfer.world_state, transfer.heap_state]
  cases value <;> rfl

namespace Carries

variable {α : Type}

theorem ofRead (h : transfer.admits start) (read : Heap → Except RuntimeError α)
    (hread : ∀ functions,
      (start.heap.withFunctions functions).printFunction = start.heap.printFunction →
        read (start.heap.withFunctions functions) = read start.heap)
    (hplain : FailsPlainly (read start.heap)) :
    transfer.Carries (Outcome.ofExcept (read start.heap) start)
      (Outcome.ofExcept (read (transfer.state start).heap) (transfer.state start)) := by
  rw [transfer.read_state start read hread]
  exact ofExcept h hplain

theorem withWorld {world : World} {left right : State → Outcome α}
    (h : transfer.admits start) (hsink : world.sink = start.world.sink)
    (hnext : ∀ start, transfer.admits start →
      transfer.Carries (left start) (right (transfer.state start))) :
    transfer.Carries (left { start with world := world })
      (right { transfer.state start with world := world }) := by
  have hadmits : transfer.admits { start with world := world } :=
    transfer.admits_of_eq h rfl rfl hsink
  rw [← transfer.state_withWorld]
  exact hnext _ hadmits

theorem write (h : transfer.admits start) (text : String) :
    transfer.Carries (start.write text) ((transfer.state start).write text) := by
  unfold State.write
  rw [transfer.world_state]
  split
  · exact .ok h ()
  · split
    · exact .error h ⟨nofun, rfl⟩
    · exact withWorld h rfl fun _ hstart => .ok hstart ()

theorem flush (h : transfer.admits start) :
    transfer.Carries start.flush (transfer.state start).flush := by
  unfold State.flush
  rw [transfer.world_state]
  split
  · exact .error h ⟨nofun, rfl⟩
  · exact .ok h ()

theorem realize (h : transfer.admits start) (result : LibraryResult) :
    transfer.Carries (start.realize result) ((transfer.state start).realize result) := by
  have hadmits : transfer.admits { start with heap := (start.heap.realize result).2 } :=
    transfer.admits_of_eq h rfl rfl rfl
  have hok := Carries.ok hadmits (start.heap.realize result).1
  rw [transfer.state_withHeap (start.heap.functions_realize result)] at hok
  unfold State.realize
  rw [transfer.heap_state, Heap.realize_withFunctions]
  exact hok

end Carries

end Transfer

/-! ### Library functions -/

open Transfer

variable {transfer : Transfer} {start : State}

namespace Console

theorem carries_write (h : transfer.admits start) (text : String) :
    transfer.Carries (write text start) (write text (transfer.state start)) :=
  (Carries.write h text).map _

theorem carries_formatted (h : transfer.admits start) (function : String)
    (arguments : List Value) :
    transfer.Carries (formatted function arguments start)
      (formatted function arguments (transfer.state start)) := by
  unfold formatted
  cases hformat : argument Value.toText function arguments 0 with
  | error failure => exact .error h (failsPlainly_argument _ _ _ _ failure hformat).isPlain
  | ok format =>
      have hread := transfer.read_state start (·.format format (arguments.drop 1))
        fun _ hprint => Heap.format_withFunctions hprint format _
      simp only [hread]
      split
      · exact .ok h _
      · exact .aborted

end Console

theorem ConsoleOperation.carries_perform (h : transfer.admits start)
    (operation : ConsoleOperation) (arguments : List Value) :
    transfer.Carries (operation.perform arguments start)
      (operation.perform arguments (transfer.state start)) := by
  cases operation with
  | print =>
      have hread := transfer.read_state start (Console.adjacentText · arguments)
        fun _ hprint => Console.adjacentText_withFunctions hprint arguments
      unfold perform
      rw [hread]
      exact Console.carries_write h _
  | println =>
      have hread := transfer.read_state start (Console.lineText · arguments)
        fun _ hprint => Console.lineText_withFunctions hprint arguments
      unfold perform
      rw [hread]
      exact Console.carries_write h _
  | printf =>
      have hformatted := Console.carries_formatted h "printf" arguments
      exact hformatted.andThen fun text _ hafter => Console.carries_write hafter text
  | sprintf => exact (Console.carries_formatted h "sprintf" arguments).map _

namespace State

theorem carries_applyFile (h : transfer.admits start) (operation : FileOperation)
    (arguments : List Value) :
    transfer.Carries (start.applyFile operation arguments)
      ((transfer.state start).applyFile operation arguments) := by
  have hread := transfer.read_state start (operation.apply arguments · start.world)
    fun _ hprint => operation.apply_withFunctions hprint arguments start.world
  unfold State.applyFile
  rw [transfer.world_state, hread]
  cases hresult : operation.apply arguments start.heap start.world with
  | ok result =>
      have hsink := operation.keepsSink_apply _ _ _ _ _ hresult
      exact .withWorld h hsink fun _ hstart => .ok hstart result.1
  | error failure => exact .error h (operation.failsPlainly_apply _ _ _ failure hresult).isPlain

theorem carries_applyTime (h : transfer.admits start) (operation : TimeOperation)
    (arguments : List Value) :
    transfer.Carries (start.applyTime operation arguments)
      ((transfer.state start).applyTime operation arguments) := by
  have hread := transfer.read_state start (operation.apply arguments start.world.clock)
    fun _ hprint => operation.apply_withFunctions hprint arguments start.world.clock
  have hplain := operation.failsPlainly_apply arguments start.world.clock start.heap
  unfold State.applyTime State.advanceClock
  rw [transfer.world_state, hread]
  refine .withWorld h ?_ fun _ hstart => .ofExcept hstart hplain
  rfl

end State

namespace Surroundings

theorem carries_exit (h : transfer.admits start) (status : Int) :
    transfer.Carries (exit status start) (exit status (transfer.state start)) := by
  unfold exit
  split
  · exact (Carries.flush h).andThen fun _ after hafter => .error hafter ⟨nofun, rfl⟩
  · exact .error h ⟨nofun, rfl⟩

theorem carries_changeFiles (h : transfer.admits start) (function path : String)
    (files : Except FileError FileTree) :
    transfer.Carries (changeFiles start function path files)
      (changeFiles (transfer.state start) function path files) := by
  unfold changeFiles State.withFiles
  rw [transfer.world_state]
  cases hfiles : Storage.attempt function path files with
  | ok files => exact .withWorld h rfl fun _ hstart => .ok hstart _
  | error failure => exact .error h (Storage.failsPlainly_attempt _ _ _ failure hfiles).isPlain

theorem carries_moveEntry (h : transfer.admits start) (source target : String) :
    transfer.Carries (moveEntry start source target)
      (moveEntry (transfer.state start) source target) := by
  unfold moveEntry
  rw [transfer.world_state]
  cases hmoved : Storage.move "os.mv" start.world source target with
  | ok world => exact .withWorld h (Storage.sink_of_move hmoved) fun _ hstart => .ok hstart _
  | error failure => exact .error h (Storage.failsPlainly_move _ _ _ _ failure hmoved).isPlain

theorem carries_createDirectories (h : transfer.admits start) (path : String) :
    transfer.Carries (createDirectories start path)
      (createDirectories (transfer.state start) path) := by
  unfold createDirectories State.withFiles
  simp only [transfer.world_state]
  split
  · exact .withWorld h rfl fun _ hstart => .ok hstart _
  · exact .withWorld h rfl fun _ hstart => .error hstart ⟨nofun, rfl⟩

theorem carries_changeDirectory (h : transfer.admits start) (path : String) :
    transfer.Carries (changeDirectory start path)
      (changeDirectory (transfer.state start) path) := by
  unfold changeDirectory State.withDirectory
  simp only [transfer.world_state]
  cases hmoved : Storage.attempt "os.chdir" path
      (start.world.files.changeDirectory start.world.directory path) with
  | ok directory => exact .withWorld h rfl fun _ hstart => .ok hstart _
  | error failure => exact .error h (Storage.failsPlainly_attempt _ _ _ failure hmoved).isPlain

end Surroundings

open Surroundings in
theorem SystemOperation.carries_perform (h : transfer.admits start)
    (operation : SystemOperation) (arguments : List Value) :
    transfer.Carries (operation.perform arguments start)
      (operation.perform arguments (transfer.state start)) := by
  have htext := failsPlainly_argument Value.toText
  unfold perform
  simp only [transfer.world_state]
  cases operation with
  | args scriptArguments => exact .ok h _
  | env => exact (Carries.ofExcept h (htext _ _ _)).map _
  | getwd => exact (Carries.ofExcept h (failsPlainly_workingDirectory _)).map _
  | chdir =>
      refine (Carries.ofExcept h (htext _ _ _)).andThen fun path after hafter => ?_
      exact carries_changeDirectory hafter path
  | mkdir =>
      refine (Carries.ofExcept h (htext _ _ _)).andThen fun path after hafter => ?_
      exact carries_changeFiles hafter _ path _
  | mkdirAll =>
      refine (Carries.ofExcept h (htext _ _ _)).andThen fun path after hafter => ?_
      exact carries_createDirectories hafter path
  | cp =>
      refine (Carries.ofExcept h (htext _ _ _)).andThen fun source _ _ => ?_
      refine (Carries.ofExcept h (htext _ _ _)).andThen fun target after hafter => ?_
      exact carries_changeFiles hafter _ source _
  | mv =>
      refine (Carries.ofExcept h (htext _ _ _)).andThen fun source _ _ => ?_
      refine (Carries.ofExcept h (htext _ _ _)).andThen fun target after hafter => ?_
      exact carries_moveEntry hafter source target
  | exit =>
      refine (Carries.ofExcept h (failsPlainly_argument _ _ _ _)).andThen
        fun status after hafter => ?_
      exact carries_exit hafter status

namespace Callbacks

variable {left right : Caller}
  (hcall : ∀ callee arguments start, transfer.admits start →
    transfer.Carries (left callee arguments start) (right callee arguments (transfer.state start)))
include hcall

theorem carries_mapItems (callback : Value) (items : List Value) (results : Array Value)
    (h : transfer.admits start) :
    transfer.Carries (mapItems left callback items results start)
      (mapItems right callback items results (transfer.state start)) := by
  induction items generalizing results start with
  | nil => exact .ok h results
  | cons item rest ih => exact (hcall _ _ _ h).andThen fun result after hafter => ih _ hafter

theorem carries_filterItems (callback : Value) (items : List Value) (results : Array Value)
    (h : transfer.admits start) :
    transfer.Carries (filterItems left callback items results start)
      (filterItems right callback items results (transfer.state start)) := by
  induction items generalizing results start with
  | nil => exact .ok h results
  | cons item rest ih => exact (hcall _ _ _ h).andThen fun result after hafter => ih _ hafter

theorem carries_foldItems (callback : Value) (items : List Value) (accumulator : Value)
    (h : transfer.admits start) :
    transfer.Carries (foldItems left callback items accumulator start)
      (foldItems right callback items accumulator (transfer.state start)) := by
  induction items generalizing accumulator start with
  | nil => exact .ok h accumulator
  | cons item rest ih => exact (hcall _ _ _ h).andThen fun result after hafter => ih result hafter

end Callbacks

section

variable {left right : Caller}
  (hcall : ∀ callee arguments start, transfer.admits start →
    transfer.Carries (left callee arguments start) (right callee arguments (transfer.state start)))
include hcall

open Callbacks in
theorem CallbackOperation.carries_perform (h : transfer.admits start)
    (operation : CallbackOperation) (arguments : List Value) :
    transfer.Carries (operation.perform left arguments start)
      (operation.perform right arguments (transfer.state start)) := by
  have hitems := Carries.ofRead h
    (Collections.itemsArgument · operation.name arguments) (fun _ _ => rfl)
    (Collections.failsPlainly_itemsArgument start.heap operation.name arguments)
  refine hitems.andThen fun items after hafter => ?_
  cases operation with
  | map => exact (carries_mapItems hcall _ _ _ hafter).map _
  | filter => exact (carries_filterItems hcall _ _ _ hafter).map _
  | reduce =>
      simp only
      split
      · exact (carries_foldItems hcall _ _ _ hafter).map _
      · exact (carries_foldItems hcall _ _ _ hafter).map _
      · exact .error hafter ⟨nofun, rfl⟩

theorem HostSteps.carries_perform (h : transfer.admits start) (steps : HostSteps)
    (atHand : List Value) :
    transfer.Carries (steps.perform left atHand start)
      (steps.perform right atHand (transfer.state start)) := by
  induction steps generalizing atHand start with
  | single result => exact .ok h _
  | multiple results => exact .ok h _
  | refuse message => exact .error h ⟨nofun, rfl⟩
  | write text next ih => exact (Carries.write h text).andThen fun _ _ hafter => ih hafter atHand
  | print subject next ih =>
      unfold perform State.print
      rw [transfer.print_state]
      exact ih _ h atHand
  | look subject next ih =>
      unfold perform
      rw [transfer.look_state]
      exact ih _ h _
  | newArray items next ih => exact (Carries.realize h _).andThen fun _ _ hafter => ih hafter _
  | newHash entries next ih => exact (Carries.realize h _).andThen fun _ _ hafter => ih hafter _
  | call callee arguments next ih => exact (hcall _ _ _ h).andThen fun _ _ hafter => ih hafter _

/-- A library function carries over as far as its callbacks do. -/
theorem Operation.carries_perform (h : transfer.admits start) (operation : Operation)
    (arguments : List Value) :
    transfer.Carries (operation.perform left arguments start)
      (operation.perform right arguments (transfer.state start)) := by
  cases operation with
  | console operation => exact operation.carries_perform h arguments
  | conversion operation =>
      have hcarries := Carries.ofRead h (operation.apply arguments)
        (fun _ hprint => operation.apply_withFunctions hprint arguments)
        (operation.failsPlainly_apply arguments start.heap)
      exact hcarries.map _
  | collection operation =>
      exact .ofRead h _ (fun _ hprint => operation.apply_withFunctions hprint arguments)
        (operation.failsPlainly_apply arguments start.heap)
  | callback operation => exact operation.carries_perform hcall h arguments
  | math operation => exact (Carries.ofExcept h (operation.failsPlainly_apply arguments)).map _
  | json operation =>
      unfold perform
      rw [transfer.world_state]
      exact .ofRead h (operation.apply arguments start.world.order)
        (fun _ _ => operation.apply_withFunctions arguments start.world.order)
        (operation.failsPlainly_apply arguments start.world.order start.heap)
  | file operation => exact State.carries_applyFile h operation arguments
  | system operation => exact operation.carries_perform h arguments
  | time operation => exact State.carries_applyTime h operation arguments
  | host operation => exact HostSteps.carries_perform hcall h _ arguments

end

end ScriptEngine
