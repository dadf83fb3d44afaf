import ScriptEngine.Execution.Expression

/-!
# Errors of the library

What a library function fails with has no position, since only the interpreter knows where it is, is
no stack overflow, since only a call raises one, and says nothing of `return`, `break` and `next`.
The same goes for what operators and slots fail with.
-/

namespace ScriptEngine

/-- An error that says nothing about the program that runs into it. -/
structure RuntimeError.IsPlain (error : RuntimeError) : Prop where
  kind : error.kind ≠ .stackOverflow
  position : error.position = none

/-- The errors that only calls and programs as a whole raise. -/
def ErrorKind.isOfControl : ErrorKind → Bool
  | .stackOverflow => true
  | .returnOutsideFunction => true
  | .loopControlOutsideLoop => true
  | _ => false

/-- A plain error that has nothing to do with how control is passed on either. -/
structure RuntimeError.IsOrdinary (error : RuntimeError) : Prop where
  kind : error.kind.isOfControl ≠ true
  position : error.position = none

namespace RuntimeError

theorem IsOrdinary.isPlain {error : RuntimeError} (h : error.IsOrdinary) : error.IsPlain :=
  ⟨fun hkind => h.kind (hkind ▸ rfl), h.position⟩

theorem isOrdinary_notIndexable (container : Value) : (notIndexable container).IsOrdinary :=
  ⟨nofun, rfl⟩

theorem isOrdinary_notIndexAssignable (container : Value) :
    (notIndexAssignable container).IsOrdinary :=
  ⟨nofun, rfl⟩

theorem isOrdinary_notCallable (callee : Value) : (notCallable callee).IsOrdinary :=
  ⟨nofun, rfl⟩

theorem isOrdinary_invalidTarget : invalidTarget.IsOrdinary :=
  ⟨nofun, rfl⟩

theorem isOrdinary_invalidStepTarget : invalidStepTarget.IsOrdinary :=
  ⟨nofun, rfl⟩

end RuntimeError

/-- If there is no value, then the error is an ordinary one. -/
def FailsPlainly {α : Type} (result : Except RuntimeError α) : Prop :=
  ∀ error, result = .error error → error.IsOrdinary

namespace FailsPlainly

variable {α β : Type}

theorem ok (value : α) : FailsPlainly (.ok value : Except RuntimeError α) :=
  fun _ h => nomatch h

theorem error {failure : RuntimeError} (h : failure.IsOrdinary) :
    FailsPlainly (.error failure : Except RuntimeError α) :=
  fun _ heq => Except.error.inj heq ▸ h

theorem bind {result : Except RuntimeError α} {next : α → Except RuntimeError β}
    (h : FailsPlainly result) (hnext : ∀ value, FailsPlainly (next value)) :
    FailsPlainly (result >>= next) := by
  cases result with
  | ok value => exact hnext value
  | error failure => exact error (h failure rfl)

/-- A check that has to be passed before anything else is done. -/
theorem guarded {condition : Prop} {decision : Decidable condition} {failure : RuntimeError}
    {next : Unit → Except RuntimeError α} (hnext : FailsPlainly (next ()))
    (h : failure.IsOrdinary) :
    FailsPlainly (if condition then (throw failure : Except RuntimeError Unit) >>= next
      else next ()) := by
  split
  · exact error h
  · exact hnext

theorem map {result : Except RuntimeError α} (h : FailsPlainly result) (transform : α → β) :
    FailsPlainly (result.map transform) := by
  cases result with
  | ok value => exact ok _
  | error failure => exact error (h failure rfl)

theorem mapM {transform : α → Except RuntimeError β} (h : ∀ item, FailsPlainly (transform item))
    (items : List α) : FailsPlainly (items.mapM transform) := by
  induction items with
  | nil => exact ok []
  | cons item rest ih =>
      rw [List.mapM_cons]
      exact (h item).bind fun _ => ih.bind fun _ => ok _

theorem mapError {ε : Type} (result : Except ε α) {transform : ε → RuntimeError}
    (h : ∀ failure, (transform failure).IsOrdinary) : FailsPlainly (result.mapError transform) := by
  cases result with
  | ok value => exact ok value
  | error failure => exact error (h failure)

end FailsPlainly

open FailsPlainly

theorem failsPlainly_argument {α : Type} (read : Value → Except String α) (function : String)
    (arguments : List Value) (index : Nat) :
    FailsPlainly (argument read function arguments index) := by
  unfold argument
  split
  · exact error ⟨nofun, rfl⟩
  · split
    · exact ok _
    · exact error ⟨nofun, rfl⟩

/-! ### Values and slots -/

theorem failsPlainly_toKey (value : Value) : FailsPlainly value.toKey := by
  unfold Value.toKey
  split
  · exact ok _
  · exact error ⟨nofun, rfl⟩

theorem failsPlainly_arraySlot (index : Value) (length : Nat) :
    FailsPlainly (arraySlot index length) := by
  unfold arraySlot
  split
  · split
    · split
      · exact ok _
      · exact error ⟨nofun, rfl⟩
    · exact error ⟨nofun, rfl⟩
  · exact error ⟨nofun, rfl⟩

theorem failsPlainly_stepped (value : Value) (delta : Number) :
    FailsPlainly (stepped value delta) := by
  unfold stepped
  split
  · exact ok _
  · exact error ⟨nofun, rfl⟩

namespace Heap

variable (heap : Heap)

theorem failsPlainly_entrySlot (ref : HashRef) (key : Key) :
    FailsPlainly (heap.entrySlot ref key) := by
  unfold entrySlot
  split
  · exact ok _
  · exact error ⟨nofun, rfl⟩

theorem failsPlainly_indexSlot (container index : Value) {refused : Value → RuntimeError}
    (hrefused : ∀ value, (refused value).IsOrdinary) :
    FailsPlainly (heap.indexSlot container index refused) := by
  unfold indexSlot
  split
  · exact (failsPlainly_arraySlot index _).map _
  · split
    · exact heap.failsPlainly_entrySlot _ _
    · rename_i failure hfailure
      exact error (failsPlainly_toKey index failure hfailure)
  · exact error (hrefused _)

theorem failsPlainly_memberSlot (container : Value) (property : String) :
    FailsPlainly (heap.memberSlot container property) := by
  unfold memberSlot
  split
  · exact heap.failsPlainly_entrySlot _ _
  · exact error ⟨nofun, rfl⟩

theorem failsPlainly_newMemberSlot (container : Value) (property : String) :
    FailsPlainly (newMemberSlot container property) := by
  unfold newMemberSlot
  split
  · exact ok _
  · exact error ⟨nofun, rfl⟩

theorem failsPlainly_arithmetic (operator : BinaryOperator) (left right : Value)
    (apply : Number → Number → Value) :
    FailsPlainly (Value.arithmetic operator left right apply) := by
  unfold Value.arithmetic
  split
  · exact ok _
  · exact error ⟨nofun, rfl⟩

theorem failsPlainly_applyBinary (operator : BinaryOperator) (left right : Value) :
    FailsPlainly (heap.applyBinary operator left right) := by
  unfold applyBinary
  split
  · unfold add
    split
    · exact ok _
    · exact ok _
    · exact error ⟨nofun, rfl⟩
  · exact failsPlainly_arithmetic _ _ _ _
  · exact failsPlainly_arithmetic _ _ _ _
  · exact failsPlainly_arithmetic _ _ _ _
  · split
    · unfold Value.remainder
      dsimp only
      split
      · exact error ⟨nofun, rfl⟩
      · exact ok _
    · exact error ⟨nofun, rfl⟩
  · exact ok _
  · exact ok _
  · exact failsPlainly_arithmetic _ _ _ _
  · exact failsPlainly_arithmetic _ _ _ _
  · exact failsPlainly_arithmetic _ _ _ _
  · exact failsPlainly_arithmetic _ _ _ _
  · exact ok _
  · exact ok _

end Heap

theorem Interpreter.failsPlainly_applyUnary (operator : UnaryOperator) (operand : Value) :
    FailsPlainly (applyUnary operator operand) := by
  unfold applyUnary
  split
  · exact ok _
  · unfold Value.negate
    split
    · exact ok _
    · exact error ⟨nofun, rfl⟩

/-! ### Library functions -/

theorem ConversionOperation.failsPlainly_apply (operation : ConversionOperation)
    (arguments : List Value) (heap : Heap) : FailsPlainly (operation.apply arguments heap) := by
  refine (failsPlainly_argument _ _ _ _).bind fun value => ?_
  cases operation with
  | type => exact ok _
  | str => exact ok _
  | num =>
      change FailsPlainly (Conversion.toNumber value)
      unfold Conversion.toNumber
      split
      · exact ok _
      · exact ok _
      · exact ok _
      · exact error ⟨nofun, rfl⟩

namespace Collections

theorem failsPlainly_length (heap : Heap) (value : Value) : FailsPlainly (length heap value) := by
  unfold length
  split
  · exact ok _
  · exact ok _
  · exact ok _
  · exact error ⟨nofun, rfl⟩

theorem failsPlainly_itemsArgument (heap : Heap) (function : String) (arguments : List Value) :
    FailsPlainly (itemsArgument heap function arguments) :=
  (failsPlainly_argument _ _ _ _).map _

theorem failsPlainly_entriesArgument (heap : Heap) (function : String) (arguments : List Value) :
    FailsPlainly (entriesArgument heap function arguments) :=
  (failsPlainly_argument _ _ _ _).map _

theorem failsPlainly_slice (items : Array Value) (start stop : Int) :
    FailsPlainly (slice items start stop) := by
  unfold slice
  split
  · exact ok _
  · exact error ⟨nofun, rfl⟩

end Collections

open Collections in
theorem CollectionOperation.failsPlainly_apply (operation : CollectionOperation)
    (arguments : List Value) (heap : Heap) : FailsPlainly (operation.apply arguments heap) := by
  have hitems := failsPlainly_itemsArgument heap operation.name arguments
  have hentries := failsPlainly_entriesArgument heap operation.name arguments
  have hvalue := failsPlainly_argument .ok operation.name arguments
  have htext := failsPlainly_argument Value.toText operation.name arguments
  have hinteger := failsPlainly_argument Value.toInteger operation.name arguments
  cases operation with
  | len => exact (hvalue 0).bind fun value => (failsPlainly_length heap value).bind fun _ => ok _
  | push => exact hitems.bind fun _ => (hvalue 1).bind fun _ => ok _
  | unshift => exact (hvalue 1).bind fun _ => hitems.bind fun _ => ok _
  | pop =>
      refine hitems.bind fun items => ?_
      split
      · exact ok _
      · exact error ⟨nofun, rfl⟩
  | shift =>
      refine hitems.bind fun items => ?_
      split
      · exact ok _
      · exact error ⟨nofun, rfl⟩
  | join => exact hitems.bind fun _ => (htext 1).bind fun _ => ok _
  | split => exact (htext 0).bind fun _ => (htext 1).bind fun _ => ok _
  | index => exact hitems.bind fun _ => (hvalue 1).bind fun _ => ok _
  | slice =>
      refine hitems.bind fun items => ?_
      refine (hinteger 1).bind fun start => (hinteger 2).bind fun stop => ?_
      exact (failsPlainly_slice items start stop).bind fun _ => ok _
  | reverse => exact hitems.bind fun _ => ok _
  | keys => exact hentries.bind fun _ => ok _
  | values => exact hentries.bind fun _ => ok _

theorem MathOperation.failsPlainly_apply (operation : MathOperation) (arguments : List Value) :
    FailsPlainly (operation.apply arguments) := by
  have hnumber := failsPlainly_argument Value.toNumber operation.name arguments
  cases operation with
  | unary => exact (hnumber 0).bind fun _ => ok _
  | binary => exact (hnumber 0).bind fun _ => (hnumber 1).bind fun _ => ok _
  | inf => exact (hnumber 0).bind fun _ => ok _
  | nan => exact ok _
  | signbit => exact (hnumber 0).bind fun _ => ok _

namespace JsonText

theorem failsPlainly_encode (order : EntryOrder) (heap : Heap) (levels : Nat) (value : Value) :
    FailsPlainly (JsonCodec.encode order heap levels value) := by
  induction levels generalizing value with
  | zero => exact error ⟨nofun, rfl⟩
  | succ levels ih =>
      cases value with
      | number number =>
          unfold JsonCodec.encode JsonCodec.encodeNumber
          split
          · split <;> exact ok _
          · split
            · exact ok _
            · exact error ⟨nofun, rfl⟩
      | array ref => exact (FailsPlainly.mapM ih _).bind fun _ => ok _
      | hash ref =>
          refine (FailsPlainly.mapM (fun entry : Key × Value => ?_) _).bind fun _ => ok _
          exact (ih entry.2).bind fun _ => ok _
      | function ref => exact error ⟨nofun, rfl⟩
      | _ => exact ok _

theorem failsPlainly_write (order : EntryOrder) (heap : Heap) (value : Value) :
    FailsPlainly (write order heap value) :=
  (failsPlainly_encode order heap _ value).map _

theorem failsPlainly_read (place text : String) : FailsPlainly (read place text) := by
  unfold read
  split
  · exact ok _
  · exact error ⟨nofun, rfl⟩

end JsonText

theorem JsonOperation.failsPlainly_apply (operation : JsonOperation) (arguments : List Value)
    (order : EntryOrder) (heap : Heap) : FailsPlainly (operation.apply arguments order heap) := by
  cases operation with
  | encode =>
      refine (failsPlainly_argument _ _ _ _).bind fun value => ?_
      exact (JsonText.failsPlainly_write _ heap value).bind fun _ => ok _
  | decode =>
      refine (failsPlainly_argument _ _ _ _).bind fun text => ?_
      exact (JsonText.failsPlainly_read _ text).bind fun _ => ok _
  | validate => exact (failsPlainly_argument _ _ _ _).bind fun _ => ok _

namespace Storage

theorem failsPlainly_attempt {α : Type} (function path : String) (result : Except FileError α) :
    FailsPlainly (attempt function path result) :=
  mapError result fun _ => ⟨nofun, rfl⟩

theorem failsPlainly_persist (heap : Heap) (world : World) (path : String) (value : Value) :
    FailsPlainly (persist heap world path value) := by
  unfold persist
  split
  · refine (failsPlainly_attempt _ _ _).bind fun text => ?_
    exact (JsonText.failsPlainly_read _ text).bind fun _ => ok _
  · refine (JsonText.failsPlainly_write _ heap value).bind fun text => ?_
    exact (failsPlainly_attempt _ _ _).bind fun _ => ok _

theorem failsPlainly_move (function : String) (world : World) (source target : String) :
    FailsPlainly (move function world source target) :=
  (failsPlainly_attempt _ _ _).bind fun _ => ok _

end Storage

open Storage in
theorem FileOperation.failsPlainly_apply (operation : FileOperation) (arguments : List Value)
    (heap : Heap) (world : World) : FailsPlainly (operation.apply arguments heap world) := by
  cases operation with
  | persist =>
      refine (failsPlainly_argument _ _ _ _).bind fun path => ?_
      refine (failsPlainly_argument _ _ _ _).bind fun value => ?_
      exact (Storage.failsPlainly_persist heap world path value).bind fun _ => ok _
  | read =>
      refine (failsPlainly_argument _ _ _ _).bind fun path => ?_
      exact (failsPlainly_attempt _ _ _).bind fun _ => ok _
  | write =>
      refine (failsPlainly_argument _ _ _ _).bind fun path => ?_
      refine (failsPlainly_argument _ _ _ _).bind fun value => ?_
      exact (failsPlainly_attempt _ _ _).bind fun _ => ok _
  | present => exact (failsPlainly_argument _ _ _ _).bind fun _ => ok _
  | remove =>
      refine (failsPlainly_argument _ _ _ _).bind fun path => ?_
      exact (failsPlainly_attempt _ _ _).bind fun _ => ok _
  | rename =>
      refine (failsPlainly_argument _ _ _ _).bind fun source => ?_
      refine (failsPlainly_argument _ _ _ _).bind fun target => ?_
      exact (Storage.failsPlainly_move _ world source target).bind fun _ => ok _
  | stat =>
      refine (failsPlainly_argument _ _ _ _).bind fun path => ?_
      exact (failsPlainly_attempt _ _ _).bind fun _ => ok _

namespace Clock

theorem failsPlainly_narrowed (field : String) (number : Int) :
    FailsPlainly (narrowed field number) := by
  unfold narrowed
  split
  · exact ok _
  · exact error ⟨nofun, rfl⟩

theorem failsPlainly_build (parts : Parts) : FailsPlainly (build parts) := by
  have hnarrowed := failsPlainly_narrowed
  have hrange : (outOfRange "year" parts.year).IsOrdinary := ⟨nofun, rfl⟩
  have hinvalid : (invalidDate parts).IsOrdinary := ⟨nofun, rfl⟩
  unfold build
  dsimp only
  refine guarded ?_ hrange
  refine (hnarrowed _ _).bind fun month => (hnarrowed _ _).bind fun day => ?_
  refine guarded ?_ hinvalid
  refine (hnarrowed _ _).bind fun hour => (hnarrowed _ _).bind fun minute => ?_
  refine (hnarrowed _ _).bind fun second => (hnarrowed _ _).bind fun nanosecond => ?_
  split
  · exact ok _
  · exact error hinvalid

theorem failsPlainly_field (heap : Heap) (table : Table) (name : String) (default : Int) :
    FailsPlainly (field heap table name default) := by
  unfold field
  dsimp only
  split
  · exact ok _
  · exact ok _
  · split
    · exact ok _
    · exact error ⟨nofun, rfl⟩
  · exact error ⟨nofun, rfl⟩

theorem failsPlainly_momentArgument (heap : Heap) (function : String) (arguments : List Value)
    (index : Nat) : FailsPlainly (momentArgument heap function arguments index) := by
  refine (failsPlainly_argument _ _ _ _).bind fun ref => ?_
  have hfield := failsPlainly_field heap (heap.table ref)
  refine (hfield _ _).bind fun year => (hfield _ _).bind fun month => ?_
  refine (hfield _ _).bind fun day => (hfield _ _).bind fun hour => ?_
  refine (hfield _ _).bind fun minute => (hfield _ _).bind fun second => ?_
  exact (hfield _ _).bind fun nanosecond => failsPlainly_build _

theorem failsPlainly_ofArguments (arguments : List Value) :
    FailsPlainly (ofArguments arguments) := by
  have hpart : ∀ index default, FailsPlainly (if index < arguments.length then
      argument Value.toInteger "time.from" arguments index else .ok default) := by
    intro index default
    split
    · exact failsPlainly_argument _ _ _ _
    · exact ok _
  have hcount : (RuntimeError.arityMismatch
      "time.from: expected 1, 2, 3, 6 or 7 arguments").IsOrdinary := ⟨nofun, rfl⟩
  unfold ofArguments
  dsimp only
  refine guarded ?_ hcount
  refine (hpart _ _).bind fun year => (hpart _ _).bind fun month => ?_
  refine (hpart _ _).bind fun day => (hpart _ _).bind fun hour => ?_
  refine (hpart _ _).bind fun minute => (hpart _ _).bind fun second => ?_
  exact (hpart _ _).bind fun nanosecond => failsPlainly_build _

theorem failsPlainly_formatted (layout : String) (moment : Moment) :
    FailsPlainly (formatted layout moment) := by
  unfold formatted
  split
  · exact ok _
  · exact error ⟨nofun, rfl⟩

end Clock

open Clock in
theorem TimeOperation.failsPlainly_apply (operation : TimeOperation) (arguments : List Value)
    (now : Int) (heap : Heap) : FailsPlainly (operation.apply arguments now heap) := by
  have hmoment := failsPlainly_momentArgument heap
  cases operation with
  | now => exact ok _
  | unix => exact ok _
  | fromUnix =>
      refine (failsPlainly_argument _ _ _ _).bind fun seconds => ?_
      split
      · exact ok _
      · exact error ⟨nofun, rfl⟩
  | build => exact (failsPlainly_ofArguments arguments).bind fun _ => ok _
  | diff => exact (hmoment _ _ _).bind fun _ => (hmoment _ _ _).bind fun _ => ok _
  | format =>
      refine (failsPlainly_argument _ _ _ _).bind fun layout => ?_
      exact (hmoment _ _ _).bind fun moment => failsPlainly_formatted layout moment
  | str => exact (hmoment _ _ _).bind fun moment => failsPlainly_formatted _ moment
  | sleep => exact (failsPlainly_argument _ _ _ _).bind fun _ => ok _

theorem Surroundings.failsPlainly_workingDirectory (world : World) :
    FailsPlainly (workingDirectory world) := by
  unfold workingDirectory
  split
  · exact ok _
  · exact error ⟨nofun, rfl⟩

end ScriptEngine
