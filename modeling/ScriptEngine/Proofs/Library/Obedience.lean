import ScriptEngine.Library.Dispatch
import ScriptEngine.Proofs.Execution.Obedience

/-!
# Library functions obey policies

What a library function gives back comes from its arguments and from the containers that they stand
for, or is new. So it obeys a policy if the arguments and the state do, and as far as its callbacks
do.
-/

namespace ScriptEngine

/-- A result that has no values in it but such as may be at hand. -/
def LibraryResult.IsAllowed (policy : Policy) (heap : Heap) : LibraryResult → Prop
  | value single => policy.allows heap single
  | array items => ItemsAll (policy.allows heap) items
  | taken single left => policy.allows heap single ∧ ItemsAll (policy.allows heap) left
  | hash entries inner =>
    policy.allowsEntries heap entries ∧ ∀ part ∈ inner, policy.allowsEntries heap part.2
  | document _ => True

variable {policy : Policy}

/-- A result without any container in it. -/
theorem LibraryResult.IsAllowed.scalar {heap : Heap} {single : Value}
    (h : (Key.ofValue? single).isSome) : (LibraryResult.value single).IsAllowed policy heap :=
  policy.allows_scalar heap h

/-! ### New containers -/

namespace Heap

/-- Something new that has a property in an accepted heap, which has the cells of another heap. -/
structure Makes {α : Type} (policy : Policy) (holds : Heap → α → Prop) (before : Heap)
    (made : α × Heap) : Prop where
  fits : before.FitsIn made.2
  accepts : policy.accepts made.2
  holds : holds made.2 made.1

variable {heap : Heap}

theorem makes_newArray (h : policy.accepts heap) {items : Array Value}
    (hitems : ItemsAll (policy.allows heap) items) :
    Makes policy policy.allows heap (heap.newArray items) :=
  ⟨.newArray heap items, policy.accepts_newArray h hitems, policy.allows_newArray h items⟩

theorem makes_newHash (h : policy.accepts heap) {pairs : List (Key × Value)}
    (hpairs : policy.allowsEntries heap pairs) :
    Makes policy policy.allows heap (heap.newHash (.ofList pairs)) :=
  ⟨.newHash heap _, policy.accepts_newHash h (.ofList hpairs), policy.allows_newHash h _⟩

mutual

theorem makes_decode {heap : Heap} (h : policy.accepts heap) : (document : JsonDocument) →
    Makes policy policy.allows heap (JsonCodec.decode heap document)
  | .null => ⟨.refl heap, h, policy.allows_scalar heap rfl⟩
  | .boolean _ => ⟨.refl heap, h, policy.allows_scalar heap rfl⟩
  | .number _ => ⟨.refl heap, h, policy.allows_scalar heap rfl⟩
  | .string _ => ⟨.refl heap, h, policy.allows_scalar heap rfl⟩
  | .array elements => by
      obtain ⟨hfits, hheap, hvalues⟩ := makes_decodeElements h elements
      have hmade := makes_newArray hheap (ItemsAll.ofList hvalues)
      exact ⟨hfits.trans hmade.fits, hmade.accepts, hmade.holds⟩
  | .object members => by
      obtain ⟨hfits, hheap, hentries⟩ := makes_decodeMembers h members
      have hmade := makes_newHash hheap hentries
      exact ⟨hfits.trans hmade.fits, hmade.accepts, hmade.holds⟩

theorem makes_decodeElements {heap : Heap} (h : policy.accepts heap) :
    (elements : List JsonDocument) →
      Makes policy policy.allowsAll heap (JsonCodec.decodeElements heap elements)
  | [] => ⟨.refl heap, h, List.forall_mem_nil _⟩
  | head :: rest => by
      obtain ⟨hfits, hheap, hvalue⟩ := makes_decode h head
      obtain ⟨hlater, hafter, hvalues⟩ := makes_decodeElements hheap rest
      have hvalue := policy.allows_mono hlater hvalue
      exact ⟨hfits.trans hlater, hafter, List.forall_mem_cons.mpr ⟨hvalue, hvalues⟩⟩

theorem makes_decodeMembers {heap : Heap} (h : policy.accepts heap) :
    (members : List JsonMember) →
      Makes policy policy.allowsEntries heap (JsonCodec.decodeMembers heap members)
  | [] => ⟨.refl heap, h, List.forall_mem_nil _⟩
  | .mk name document :: rest => by
      obtain ⟨hfits, hheap, hvalue⟩ := makes_decode h document
      obtain ⟨hlater, hafter, hvalues⟩ := makes_decodeMembers hheap rest
      have hvalue := policy.allows_mono hlater hvalue
      exact ⟨hfits.trans hlater, hafter, List.forall_mem_cons.mpr ⟨hvalue, hvalues⟩⟩

end

theorem makes_newHashes (h : policy.accepts heap) {inner : List (Key × List (Key × Value))}
    (hinner : ∀ part ∈ inner, policy.allowsEntries heap part.2) :
    Makes policy policy.allowsEntries heap (heap.newHashes inner) := by
  induction inner generalizing heap with
  | nil => exact ⟨.refl heap, h, List.forall_mem_nil _⟩
  | cons part rest ih =>
      obtain ⟨hpart, hrest⟩ := List.forall_mem_cons.mp hinner
      obtain ⟨hfits, hheap, hvalue⟩ := makes_newHash h hpart
      obtain ⟨hlater, hafter, hvalues⟩ :=
        ih hheap fun part hmem => policy.allowsEntries_mono hfits (hrest part hmem)
      have hvalue := policy.allows_mono hlater hvalue
      exact ⟨hfits.trans hlater, hafter, List.forall_mem_cons.mpr ⟨hvalue, hvalues⟩⟩

theorem makes_realize (h : policy.accepts heap) {result : LibraryResult}
    (hresult : result.IsAllowed policy heap) :
    Makes policy policy.allows heap (heap.realize result) := by
  cases result with
  | value value => exact ⟨.refl heap, h, hresult⟩
  | array items => exact makes_newArray h hresult
  | taken value left =>
      obtain ⟨hvalue, hleft⟩ := hresult
      obtain ⟨hfits, hheap, hrest⟩ := makes_newArray h hleft
      have hitems := policy.allows_pair (policy.allows_mono hfits hvalue) hrest
      have hmade := makes_newArray hheap hitems
      exact ⟨hfits.trans hmade.fits, hmade.accepts, hmade.holds⟩
  | hash entries inner =>
      obtain ⟨hentries, hinner⟩ := hresult
      obtain ⟨hfits, hheap, hhashes⟩ := makes_newHashes h hinner
      have hentries := policy.allowsEntries_mono hfits hentries
      have hmade := makes_newHash hheap (List.forall_mem_append.mpr ⟨hentries, hhashes⟩)
      exact ⟨hfits.trans hmade.fits, hmade.accepts, hmade.holds⟩
  | document document => exact makes_decode h document

end Heap

/-! ### Functions that leave the state alone -/

section

variable {heap : Heap} {arguments : List Value} (harguments : policy.allowsAll heap arguments)
include harguments

/-- What is read from an argument at hand. -/
theorem givesOnly_argument {α : Type} {read : Value → Except String α} {holds : α → Prop}
    (hread : ∀ value, policy.allows heap value → ∀ result, read value = .ok result → holds result)
    (function : String) (index : Nat) :
    GivesOnly holds (argument read function arguments index) := by
  unfold argument
  split
  · exact .error
  · rename_i value hvalue
    have hallowed := harguments value (List.mem_of_getElem? hvalue)
    split
    · rename_i result hresult
      exact .ok (hread value hallowed result hresult)
    · exact .error

theorem givesOnly_value (function : String) (index : Nat) :
    GivesOnly (policy.allows heap) (argument .ok function arguments index) :=
  givesOnly_argument harguments (fun _ h _ heq => Except.ok.inj heq ▸ h) function index

namespace Collections

variable (h : policy.accepts heap) (function : String)
include h

theorem givesOnly_itemsArgument :
    GivesOnly (ItemsAll (policy.allows heap)) (itemsArgument heap function arguments) := by
  have hread (value : Value) (hvalue : policy.allows heap value) (ref : ArrayRef)
      (href : value.toArray = .ok ref) : policy.allows heap (.array ref) := by
    unfold Value.toArray at href
    split at href
    · exact Except.ok.inj href ▸ hvalue
    · simp at href
  exact (givesOnly_argument harguments hread function 0).map fun ref => policy.allows_items h

theorem givesOnly_entriesArgument :
    GivesOnly (policy.allowsEntries heap) (entriesArgument heap function arguments) := by
  have hread (value : Value) (hvalue : policy.allows heap value) (ref : HashRef)
      (href : value.toHash = .ok ref) : policy.allows heap (.hash ref) := by
    unfold Value.toHash at href
    split at href
    · exact Except.ok.inj href ▸ hvalue
    · simp at href
  exact (givesOnly_argument harguments hread function 0).map fun ref => policy.allows_table h

omit harguments h in
theorem givesOnly_slice {items : Array Value} (hitems : ItemsAll (policy.allows heap) items)
    (start stop : Int) : GivesOnly (ItemsAll (policy.allows heap)) (slice items start stop) := by
  unfold slice
  split
  · exact .ok (hitems.extract _ _)
  · exact .error

end Collections

open Collections in
theorem CollectionOperation.givesOnly_apply (operation : CollectionOperation)
    (h : policy.accepts heap) :
    GivesOnly (LibraryResult.IsAllowed policy heap) (operation.apply arguments heap) := by
  have hitems := givesOnly_itemsArgument harguments h operation.name
  have hentries := givesOnly_entriesArgument harguments h operation.name
  have hvalue := givesOnly_value harguments operation.name
  cases operation with
  | len => exact .after fun value => .after fun _ => .ok (.scalar rfl)
  | push =>
      exact hitems.bind fun items hitems => (hvalue 1).bind fun value hvalue =>
        .ok (hitems.push hvalue)
  | unshift =>
      refine (hvalue 1).bind fun value hvalue => hitems.bind fun items hitems => .ok ?_
      intro item hitem
      rcases Array.mem_append.mp hitem with hfirst | hrest
      · exact Array.mem_singleton.mp hfirst ▸ hvalue
      · exact hitems item hrest
  | pop =>
      refine hitems.bind fun items hitems => ?_
      split
      · rename_i last hlast
        exact .ok ⟨hitems last (Array.mem_of_back? hlast), hitems.pop⟩
      · exact .error
  | shift =>
      refine hitems.bind fun items hitems => ?_
      split
      · rename_i first hfirst
        exact .ok ⟨hitems first (Array.mem_of_getElem? hfirst), hitems.extract _ _⟩
      · exact .error
  | join => exact .after fun _ => .after fun _ => .ok (.scalar rfl)
  | split =>
      refine .after fun subject => .after fun separator => .ok (.ofList fun part hpart => ?_)
      obtain ⟨text, -, rfl⟩ := List.mem_map.mp hpart
      exact policy.allows_scalar heap rfl
  | index => exact .after fun _ => .after fun _ => .ok (.scalar rfl)
  | slice =>
      refine hitems.bind fun items hitems => .after fun start => .after fun stop => ?_
      exact (givesOnly_slice hitems start stop).bind fun part hpart => .ok hpart
  | reverse =>
      exact hitems.bind fun items hitems =>
        .ok fun item hitem => hitems item (Array.mem_reverse.mp hitem)
  | keys =>
      refine .after fun entries => .ok (.ofList fun key hkey => ?_)
      obtain ⟨entry, -, rfl⟩ := List.mem_map.mp hkey
      exact policy.allows_key heap entry.1
  | values =>
      refine hentries.bind fun entries hentries => .ok (.ofList fun value hvalue => ?_)
      obtain ⟨entry, hentry, rfl⟩ := List.mem_map.mp hvalue
      exact hentries entry hentry

omit harguments in
theorem Storage.givesOnly_persist (world : World) (path : String) {value : Value}
    (hvalue : policy.allows heap value) :
    GivesOnly (fun result => result.1.IsAllowed policy heap) (persist heap world path value) := by
  unfold persist
  split
  · exact .after fun text => .after fun document => .ok trivial
  · exact .after fun text => .after fun files => .ok hvalue

end

section

variable (policy) (heap : Heap)

/-- Entries that are written down one by one, with scalars for their values. -/
theorem Policy.allowsEntries_of_scalars {entries : List (Key × Value)}
    (h : ∀ entry ∈ entries, (Key.ofValue? entry.2).isSome) : policy.allowsEntries heap entries :=
  fun entry hentry => policy.allows_scalar heap (h entry hentry)

theorem Clock.allowsEntries_entries (moment : Moment) (zone : String) :
    policy.allowsEntries heap (entries moment zone) :=
  policy.allowsEntries_of_scalars heap (by
    simp [entries, Key.ofValue?, Value.ofInt, Value.ofNat])

theorem Clock.allowsEntries_elapsedEntries (start stop : Moment) :
    policy.allowsEntries heap (elapsedEntries start stop) :=
  policy.allowsEntries_of_scalars heap (by simp [elapsedEntries, Key.ofValue?])

theorem Storage.isAllowed_status (path : String) (entry : FileEntry) :
    (status path entry).IsAllowed policy heap := by
  have hmodified := Clock.allowsEntries_entries policy heap (.ofNanoseconds entry.modified) "Local"
  refine ⟨policy.allowsEntries_of_scalars heap ?_, List.forall_mem_cons.mpr ⟨?_, ?_⟩⟩
  · simp [Key.ofValue?, Value.ofNat]
  · exact policy.allowsEntries_of_scalars heap (by simp [Key.ofValue?])
  · exact List.forall_mem_singleton.mpr hmodified

variable (arguments : List Value)

theorem ConversionOperation.givesOnly_apply (operation : ConversionOperation) :
    GivesOnly (policy.allows heap) (operation.apply arguments heap) := by
  refine .after fun value => ?_
  cases operation with
  | type => exact .ok (policy.allows_scalar heap rfl)
  | str => exact .ok (policy.allows_scalar heap rfl)
  | num =>
      change GivesOnly _ (Conversion.toNumber value)
      unfold Conversion.toNumber
      split
      · exact .ok (policy.allows_scalar heap rfl)
      · exact .ok (policy.allows_scalar heap rfl)
      · rename_i text
        refine .ok (policy.allows_scalar heap ?_)
        cases readNumber? (trimBlank text.toList) <;> rfl
      · exact .error

theorem MathOperation.givesOnly_apply (operation : MathOperation) :
    GivesOnly (policy.allows heap) (operation.apply arguments) := by
  cases operation with
  | unary => exact .after fun _ => .ok (policy.allows_scalar heap rfl)
  | binary => exact .after fun _ => .after fun _ => .ok (policy.allows_scalar heap rfl)
  | inf => exact .after fun _ => .ok (policy.allows_scalar heap rfl)
  | nan => exact .ok (policy.allows_scalar heap rfl)
  | signbit => exact .after fun _ => .ok (policy.allows_scalar heap rfl)

theorem JsonOperation.givesOnly_apply (operation : JsonOperation) (order : EntryOrder) :
    GivesOnly (LibraryResult.IsAllowed policy heap) (operation.apply arguments order heap) := by
  cases operation with
  | encode => exact .after fun _ => .after fun _ => .ok (.scalar rfl)
  | decode => exact .after fun _ => .after fun _ => .ok trivial
  | validate => exact .after fun _ => .ok (.scalar rfl)

theorem Clock.givesOnly_formatted (layout : String) (moment : Moment) :
    GivesOnly (LibraryResult.IsAllowed policy heap) (formatted layout moment) := by
  unfold formatted
  split
  · exact .ok (.scalar rfl)
  · exact .error

open Clock in
theorem TimeOperation.givesOnly_apply (operation : TimeOperation) (now : Int) :
    GivesOnly (LibraryResult.IsAllowed policy heap) (operation.apply arguments now heap) := by
  have hentries (moment : Moment) (zone : String) :
      LibraryResult.IsAllowed policy heap (.hash (entries moment zone) []) :=
    ⟨allowsEntries_entries policy heap moment zone, List.forall_mem_nil _⟩
  cases operation with
  | now => exact .ok (hentries _ _)
  | unix => exact .ok (.scalar rfl)
  | fromUnix =>
      refine .after fun seconds => ?_
      split
      · exact .ok (hentries _ _)
      · exact .error
  | build => exact .after fun moment => .ok (hentries _ _)
  | diff =>
      refine .after fun start => .after fun stop => .ok ⟨?_, List.forall_mem_nil _⟩
      exact allowsEntries_elapsedEntries policy heap start stop
  | format =>
      exact .after fun layout => .after fun moment => givesOnly_formatted policy heap layout moment
  | str => exact .after fun moment => givesOnly_formatted policy heap _ moment
  | sleep => exact .after fun _ => .ok (.scalar rfl)

variable {arguments} {heap}

theorem FileOperation.givesOnly_apply (operation : FileOperation)
    (harguments : policy.allowsAll heap arguments) (world : World) :
    GivesOnly (fun result => result.1.IsAllowed policy heap)
      (operation.apply arguments heap world) := by
  cases operation with
  | persist =>
      refine .after fun path => (givesOnly_value harguments _ 1).bind fun value hvalue => ?_
      exact (Storage.givesOnly_persist world path hvalue).bind fun result hresult => .ok hresult
  | read => exact .after fun path => .after fun text => .ok (.scalar rfl)
  | write => exact .after fun path => .after fun value => .after fun files => .ok (.scalar rfl)
  | present => exact .after fun path => .ok (.scalar rfl)
  | remove => exact .after fun path => .after fun files => .ok (.scalar rfl)
  | rename => exact .after fun source => .after fun target => .after fun world => .ok (.scalar rfl)
  | stat =>
      exact .after fun path => .after fun found =>
        .ok (Storage.isAllowed_status policy heap path found.2)

end

/-! ### Values that a host function names -/

namespace HostTerm

variable {heap : Heap} {atHand : List Value} (h : policy.allowsAll heap atHand)
include h

theorem allows_value (term : HostTerm) : policy.allows heap (term.value atHand) := by
  cases term with
  | atHand place =>
      exact policy.allows_getD fun value hvalue => h value (List.mem_of_getElem? hvalue)
  | scalar key => exact policy.allows_key heap key

theorem allowsAll_values (terms : List HostTerm) :
    policy.allowsAll heap (terms.map (·.value atHand)) := by
  intro value hvalue
  obtain ⟨term, -, rfl⟩ := List.mem_map.mp hvalue
  exact allows_value h term

theorem allowsEntries_values (entries : List (Key × HostTerm)) :
    policy.allowsEntries heap (entries.map (·.map id (·.value atHand))) := by
  intro entry hentry
  obtain ⟨named, -, rfl⟩ := List.mem_map.mp hentry
  exact allows_value h named.2

end HostTerm

/-! ### Functions that work on the state -/

open Outcome

namespace State.Obeys

variable {state : State} (h : state.Obeys policy)
include h

theorem write (text : String) :
    (state.write text).Obeys policy state.heap fun _ _ => True := by
  unfold State.write
  split
  · exact .ok h trivial
  · split
    · exact .error h
    · exact h.ok_withWorld trivial _

theorem flush : state.flush.Obeys policy state.heap fun _ _ => True := by
  unfold State.flush
  split
  · exact .error h
  · exact .ok h trivial

theorem realize {result : LibraryResult} (hresult : result.IsAllowed policy state.heap) :
    (state.realize result).Obeys policy state.heap policy.allows := by
  obtain ⟨hfits, hheap, hvalue⟩ := Heap.makes_realize h.heap hresult
  exact ⟨hfits, h.withHeap hfits hheap, hvalue⟩

theorem applyFile (operation : FileOperation) {arguments : List Value}
    (harguments : policy.allowsAll state.heap arguments) :
    (state.applyFile operation arguments).Obeys policy state.heap
      (LibraryResult.IsAllowed policy) := by
  have hgives := operation.givesOnly_apply policy harguments state.world
  unfold State.applyFile
  cases hresult : operation.apply arguments state.heap state.world with
  | ok result => exact h.ok_withWorld (hgives result hresult) _
  | error failure => exact .error h

theorem applyTime (operation : TimeOperation) (arguments : List Value) :
    (state.applyTime operation arguments).Obeys policy state.heap
      (LibraryResult.IsAllowed policy) :=
  .ofExcept (h.withWorld _) (operation.givesOnly_apply policy state.heap arguments _)

theorem console (operation : ConsoleOperation) (arguments : List Value) :
    (operation.perform arguments state).Obeys policy state.heap
      (LibraryResult.IsAllowed policy) := by
  have hwrite {state : State} (hstate : state.Obeys policy) (text : String) :
      (Console.write text state).Obeys policy state.heap (LibraryResult.IsAllowed policy) :=
    (hstate.write text).map fun _ _ _ _ => .scalar rfl
  have hformatted (function : String) :
      (Console.formatted function arguments state).Obeys policy state.heap fun _ _ => True := by
    unfold Console.formatted
    split
    · exact .error h
    · split
      · exact .ok h trivial
      · exact .aborted
  cases operation with
  | print => exact hwrite h _
  | println => exact hwrite h _
  | printf => exact (hformatted _).andThen fun text state _ _ hstate => hwrite hstate text
  | sprintf => exact (hformatted _).map fun _ _ _ _ => .scalar rfl

/-- What is in a value at hand comes to be at hand. -/
theorem look {value : Value} (hvalue : policy.allows state.heap value) :
    policy.allowsAll state.heap (state.look value).2 := by
  cases value with
  | array ref => exact (policy.allows_items h.heap hvalue).toList
  | hash ref =>
      intro item hitem
      obtain ⟨entry, hentry, rfl⟩ := List.mem_map.mp hitem
      exact policy.allows_table h.heap hvalue entry (Heap.mem_storedEntries.mp hentry)
  | _ => exact List.forall_mem_nil _

theorem changeFiles (function path : String) (files : Except FileError FileTree) :
    (Surroundings.changeFiles state function path files).Obeys policy state.heap
      (LibraryResult.IsAllowed policy) := by
  unfold Surroundings.changeFiles
  split
  · exact h.ok_withWorld (.scalar rfl) _
  · exact .error h

theorem moveEntry (source target : String) :
    (Surroundings.moveEntry state source target).Obeys policy state.heap
      (LibraryResult.IsAllowed policy) := by
  unfold Surroundings.moveEntry
  split
  · exact h.ok_withWorld (.scalar rfl) _
  · exact .error h

theorem createDirectories (path : String) :
    (Surroundings.createDirectories state path).Obeys policy state.heap
      (LibraryResult.IsAllowed policy) := by
  unfold Surroundings.createDirectories
  dsimp only
  split
  · exact h.ok_withWorld (.scalar rfl) _
  · exact h.error_withWorld _ _

theorem changeDirectory (path : String) :
    (Surroundings.changeDirectory state path).Obeys policy state.heap
      (LibraryResult.IsAllowed policy) := by
  unfold Surroundings.changeDirectory
  dsimp only
  split
  · exact h.ok_withWorld (.scalar rfl) _
  · exact .error h

theorem exit (status : Int) :
    (Surroundings.exit status state).Obeys policy state.heap (LibraryResult.IsAllowed policy) := by
  unfold Surroundings.exit
  split
  · exact h.flush.andThen fun _ state _ _ hstate => .error hstate
  · exact .error h

theorem system (operation : SystemOperation) (arguments : List Value) :
    (operation.perform arguments state).Obeys policy state.heap
      (LibraryResult.IsAllowed policy) := by
  have hread {α : Type} (result : Except RuntimeError α) {next : α → State → Outcome LibraryResult}
      (hnext : ∀ value, (next value state).Obeys policy state.heap
        (LibraryResult.IsAllowed policy)) :
      ((Outcome.ofExcept result state).andThen next).Obeys policy state.heap
        (LibraryResult.IsAllowed policy) :=
    .ofExcept_andThen h (.any result) fun value _ => hnext value
  cases operation with
  | args scriptArguments =>
      refine .ok h (ItemsAll.ofList fun value hvalue => ?_)
      obtain ⟨text, -, rfl⟩ := List.mem_map.mp hvalue
      exact policy.allows_scalar state.heap rfl
  | env => exact hread _ fun name => .ok h (.scalar rfl)
  | getwd => exact hread _ fun path => .ok h (.scalar rfl)
  | chdir => exact hread _ fun path => h.changeDirectory path
  | mkdir => exact hread _ fun path => h.changeFiles _ path _
  | mkdirAll => exact hread _ fun path => h.createDirectories path
  | cp => exact hread _ fun source => hread _ fun target => h.changeFiles _ source _
  | mv => exact hread _ fun source => hread _ fun target => h.moveEntry source target
  | exit => exact hread _ fun status => h.exit status

end State.Obeys

/-! ### Functions that call back -/

/-- Calls obey a policy if what they are called with may be at hand. -/
def Caller.Obeys (policy : Policy) (call : Caller) : Prop :=
  ∀ ⦃callee : Value⦄ ⦃arguments : List Value⦄ ⦃state : State⦄,
    policy.allowsAll state.heap arguments → state.Obeys policy →
      (call callee arguments state).Obeys policy state.heap policy.allows

namespace Caller.Obeys

variable {call : Caller} (h : Caller.Obeys policy call) {state : State}
  (hstate : state.Obeys policy)
include h hstate

theorem mapItems (callback : Value) {items : List Value}
    (hitems : policy.allowsAll state.heap items) {results : Array Value}
    (hresults : ItemsAll (policy.allows state.heap) results) :
    (Callbacks.mapItems call callback items results state).Obeys policy state.heap
      fun heap => ItemsAll (policy.allows heap) := by
  induction items generalizing results state with
  | nil => exact .ok hstate hresults
  | cons item rest ih =>
      obtain ⟨hitem, hrest⟩ := List.forall_mem_cons.mp hitems
      refine (h (List.forall_mem_singleton.mpr hitem) hstate).andThen fun result state hresult hfits
        hstate => ?_
      have hresults := hresults.imp fun _ => policy.allows_mono hfits
      exact ih hstate (policy.allowsAll_mono hfits hrest) (hresults.push hresult)

theorem filterItems (callback : Value) {items : List Value}
    (hitems : policy.allowsAll state.heap items) {results : Array Value}
    (hresults : ItemsAll (policy.allows state.heap) results) :
    (Callbacks.filterItems call callback items results state).Obeys policy state.heap
      fun heap => ItemsAll (policy.allows heap) := by
  induction items generalizing results state with
  | nil => exact .ok hstate hresults
  | cons item rest ih =>
      obtain ⟨hitem, hrest⟩ := List.forall_mem_cons.mp hitems
      refine (h (List.forall_mem_singleton.mpr hitem) hstate).andThen fun result state _ hfits
        hstate => ih hstate (policy.allowsAll_mono hfits hrest) ?_
      have hresults := hresults.imp fun _ => policy.allows_mono hfits
      split
      · exact hresults.push (policy.allows_mono hfits hitem)
      · exact hresults

theorem foldItems (callback : Value) {items : List Value}
    (hitems : policy.allowsAll state.heap items) {accumulator : Value}
    (haccumulator : policy.allows state.heap accumulator) :
    (Callbacks.foldItems call callback items accumulator state).Obeys policy state.heap
      policy.allows := by
  induction items generalizing accumulator state with
  | nil => exact .ok hstate haccumulator
  | cons item rest ih =>
      obtain ⟨hitem, hrest⟩ := List.forall_mem_cons.mp hitems
      have harguments : policy.allowsAll state.heap [accumulator, item] :=
        List.forall_mem_cons.mpr ⟨haccumulator, List.forall_mem_singleton.mpr hitem⟩
      exact (h harguments hstate).andThen fun result state hresult hfits hstate =>
        ih hstate (policy.allowsAll_mono hfits hrest) hresult

theorem callback (operation : CallbackOperation) {arguments : List Value}
    (harguments : policy.allowsAll state.heap arguments) :
    (operation.perform call arguments state).Obeys policy state.heap
      (LibraryResult.IsAllowed policy) := by
  have hitems := Collections.givesOnly_itemsArgument harguments hstate.heap operation.name
  refine .ofExcept_andThen hstate hitems fun items hitems => ?_
  have hlist : policy.allowsAll state.heap items.toList := hitems.toList
  cases operation with
  | map => exact (h.mapItems hstate _ hlist .empty).map fun _ _ hresults _ => hresults
  | filter => exact (h.filterItems hstate _ hlist .empty).map fun _ _ hresults _ => hresults
  | reduce =>
      dsimp only
      split
      · rename_i initial hinitial
        have hallowed := harguments initial (List.mem_of_getElem? hinitial)
        exact (h.foldItems hstate _ hlist hallowed).map fun _ _ hresult _ => hresult
      · rename_i first rest _ hfirst
        rw [hfirst] at hlist
        obtain ⟨hfirst, hrest⟩ := List.forall_mem_cons.mp hlist
        exact (h.foldItems hstate _ hrest hfirst).map fun _ _ hresult _ => hresult
      · exact .error hstate

/-- A host function has at hand what was given to it, what was in there, and what it got since. -/
theorem hostSteps (steps : HostSteps) {atHand : List Value}
    (hatHand : policy.allowsAll state.heap atHand) :
    (steps.perform call atHand state).Obeys policy state.heap
      (LibraryResult.IsAllowed policy) := by
  have hnext {state after : State} {atHand : List Value} {value : Value}
      (hatHand : policy.allowsAll state.heap atHand) (hfits : state.heap.FitsIn after.heap)
      (hvalue : policy.allows after.heap value) : policy.allowsAll after.heap (atHand ++ [value]) :=
    List.forall_mem_append.mpr
      ⟨policy.allowsAll_mono hfits hatHand, List.forall_mem_singleton.mpr hvalue⟩
  induction steps generalizing atHand state with
  | single result => exact .ok hstate (result.allows_value hatHand)
  | multiple results => exact .ok hstate (.ofList (HostTerm.allowsAll_values hatHand results))
  | refuse message => exact .error hstate
  | write text next ih =>
      exact (hstate.write text).andThen fun _ state _ hfits hstate =>
        ih hstate (policy.allowsAll_mono hfits hatHand)
  | print subject next ih => exact ih _ hstate hatHand
  | look subject next ih =>
      have hsubject := subject.allows_value hatHand
      exact ih _ hstate (List.forall_mem_append.mpr ⟨hatHand, hstate.look hsubject⟩)
  | newArray items next ih =>
      have hitems : (LibraryResult.array (items.map (·.value atHand)).toArray).IsAllowed policy
          state.heap := ItemsAll.ofList (HostTerm.allowsAll_values hatHand items)
      refine (hstate.realize hitems).andThen fun value state hvalue hfits hstate => ?_
      exact ih hstate (hnext hatHand hfits hvalue)
  | newHash entries next ih =>
      have hentries : (LibraryResult.hash (entries.map (·.map id (·.value atHand))) []).IsAllowed
          policy state.heap := ⟨HostTerm.allowsEntries_values hatHand entries, nofun⟩
      refine (hstate.realize hentries).andThen fun value state hvalue hfits hstate => ?_
      exact ih hstate (hnext hatHand hfits hvalue)
  | call callee arguments next ih =>
      have harguments := HostTerm.allowsAll_values hatHand arguments
      refine (h harguments hstate).andThen fun value state hvalue hfits hstate => ?_
      exact ih hstate (hnext hatHand hfits hvalue)

/-- What a library function does obeys a policy if its calls do. -/
theorem perform (operation : Operation) {arguments : List Value}
    (harguments : policy.allowsAll state.heap arguments) :
    (operation.perform call arguments state).Obeys policy state.heap
      (LibraryResult.IsAllowed policy) := by
  cases operation with
  | console operation => exact hstate.console operation arguments
  | conversion operation =>
      have hvalue := operation.givesOnly_apply policy state.heap arguments
      exact (Outcome.Obeys.ofExcept hstate hvalue).map fun _ _ hvalue _ => hvalue
  | collection operation =>
      exact .ofExcept hstate (operation.givesOnly_apply harguments hstate.heap)
  | callback operation => exact h.callback hstate operation harguments
  | math operation =>
      have hvalue := operation.givesOnly_apply policy state.heap arguments
      exact (Outcome.Obeys.ofExcept hstate hvalue).map fun _ _ hvalue _ => hvalue
  | json operation =>
      exact .ofExcept hstate (operation.givesOnly_apply policy state.heap arguments _)
  | file operation => exact hstate.applyFile operation harguments
  | system operation => exact hstate.system operation arguments
  | time operation => exact hstate.applyTime operation arguments
  | host operation => exact h.hostSteps hstate _ harguments

end Caller.Obeys

end ScriptEngine
