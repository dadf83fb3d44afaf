import ScriptEngine.Execution.Call
import ScriptEngine.Proofs.Value.Correspondence
import ScriptEngine.Proofs.Value.Growth

/-!
# How a script sees a hash

A script sees the entries of a hash when it prints it, takes its keys or its values, or loops over
it. All of these go through the entries in the order of the keys. What they show depends on the
entries that a sequence of insertions has left, not on the sequence.
-/

namespace ScriptEngine

theorem Outcome.andThen_eq_ok {α β : Type} {outcome : Outcome α} {next : α → State → Outcome β}
    {value : β} {after : State} :
    outcome.andThen next = .ok value after ↔
      ∃ first middle, outcome = .ok first middle ∧ next first middle = .ok value after := by
  cases outcome <;> simp [Outcome.andThen]

theorem Outcome.map_eq_ok {α β : Type} {outcome : Outcome α} {transform : α → β}
    {value : β} {after : State} :
    outcome.map transform = .ok value after ↔
      ∃ first, outcome = .ok first after ∧ transform first = value := by
  cases outcome <;> simp [Outcome.map, Outcome.andThen, and_comm]

theorem Outcome.locatedAt_eq_ok {α : Type} {outcome : Outcome α} {position : Position} {value : α}
    {after : State} : outcome.locatedAt position = .ok value after ↔ outcome = .ok value after := by
  cases outcome <;> simp [Outcome.locatedAt]

theorem Outcome.ofExcept_eq_ok {α : Type} {result : Except RuntimeError α} {value : α}
    {state after : State} :
    Outcome.ofExcept result state = .ok value after ↔ result = .ok value ∧ state = after := by
  cases result <;> simp [Outcome.ofExcept]

namespace Interpreter

/-- The insertions that a hash literal makes, one for each entry in their order. -/
def evaluatePairs (interpreter : Interpreter) : List Entry → State → Outcome (List (Key × Value))
  | [], state => .ok [] state
  | entry :: rest, state =>
    (interpreter.evaluate entry.key state).andThen fun key state =>
      ((Outcome.ofExcept key.toKey state).locatedAt entry.key.position).andThen fun key state =>
        (interpreter.evaluate entry.value state).andThen fun value state =>
          (interpreter.evaluatePairs rest state).map fun pairs => (key, value) :: pairs

theorem evaluateEntries_eq (interpreter : Interpreter) (entries : List Entry) (table : Table)
    (state : State) :
    interpreter.evaluateEntries entries table state =
      (interpreter.evaluatePairs entries state).map
        (List.foldl (fun table pair => table.insert pair.1 pair.2) table) := by
  induction entries generalizing table state with
  | nil => rfl
  | cons entry rest ih =>
      rw [evaluateEntries, evaluatePairs]
      cases interpreter.evaluate entry.key state with
      | ok key state =>
          simp only [Outcome.andThen]
          cases (Outcome.ofExcept key.toKey state).locatedAt entry.key.position with
          | ok key state =>
              simp only [Outcome.map, Outcome.andThen]
              cases interpreter.evaluate entry.value state with
              | ok value state =>
                  simp only
                  rw [ih]
                  cases interpreter.evaluatePairs rest state <;> rfl
              | _ => rfl
          | _ => rfl
      | _ => rfl

end Interpreter

namespace Heap

variable {heap after : Heap} {ref : HashRef} {pairs : List (Key × Value)}

/-- A hash has come about through a sequence of insertions: its literal, the members of the JSON
object it was read from or the entries it was made of, then assignments to members and under
indexes. In between, anything else may happen to the heap. -/
inductive Filled : Heap → HashRef → List (Key × Value) → Prop
  | literal {interpreter : Interpreter} {position : Position} {entries : List Entry}
      {state middle after : State} {ref : HashRef} {pairs : List (Key × Value)}
      (hpairs : interpreter.evaluatePairs entries state = .ok pairs middle)
      (hmade : interpreter.evaluateExpr (.hash position entries) state = .ok (.hash ref) after) :
      Filled after.heap ref pairs
  | decoded {heap after : Heap} {members : List JsonMember} {ref : HashRef}
      (hmade : heap.ofJson (.object members) = (.hash ref, after)) :
      Filled after ref (JsonCodec.decodeMembers heap members).1
  | made {heap after : Heap} {members : List (String × Value)} {ref : HashRef}
      (hmade : heap.newHash (.ofList (members.map fun member => (.string member.1, member.2))) =
        (.hash ref, after)) :
      Filled after ref (members.map fun member => (.string member.1, member.2))
  | member {heap : Heap} {ref : HashRef} {pairs : List (Key × Value)} (h : Filled heap ref pairs)
      {property : String} {slot : Slot} (hslot : newMemberSlot (.hash ref) property = .ok slot)
      (value : Value) : Filled (heap.writeSlot slot value) ref (pairs ++ [(.string property, value)])
  | index {heap : Heap} {ref : HashRef} {pairs : List (Key × Value)} (h : Filled heap ref pairs)
      {index : Value} {key : Key} {slot : Slot} {refused : Value → RuntimeError}
      (hkey : index.toKey = .ok key) (hslot : heap.indexSlot (.hash ref) index refused = .ok slot)
      (value : Value) : Filled (heap.writeSlot slot value) ref (pairs ++ [(key, value)])
  | elsewhere {heap after : Heap} {ref : HashRef} {pairs : List (Key × Value)}
      (h : Filled heap ref pairs) (hsize : heap.hashes.size ≤ after.hashes.size)
      (htable : after.table ref = heap.table ref) : Filled after ref pairs

/-- A hash that is there and holds what the insertions leave. -/
structure Holding (heap : Heap) (ref : HashRef) (pairs : List (Key × Value)) : Prop where
  index_lt : ref.index < heap.hashes.size
  table_eq : heap.table ref = .ofList pairs
  isNormal : ∀ pair ∈ pairs, pair.1.IsNormal

theorem holding_newHash (hnormal : ∀ pair ∈ pairs, pair.1.IsNormal)
    (hmade : heap.newHash (.ofList pairs) = (.hash ref, after)) : after.Holding ref pairs := by
  unfold newHash at hmade
  cases hmade
  constructor
  · simp
  · simp [table]
  · exact hnormal

theorem Holding.setEntry (h : heap.Holding ref pairs) {key : Key} (hkey : key.IsNormal)
    (value : Value) : (heap.setEntry ref key value).Holding ref (pairs ++ [(key, value)]) := by
  constructor
  · simpa [Heap.setEntry] using h.index_lt
  · rw [table_setEntry heap ref ref key value h.index_lt, if_pos rfl, h.table_eq,
      Table.ofList_append_singleton]
  · intro pair hpair
    rcases List.mem_append.mp hpair with hold | hnew
    · exact h.isNormal pair hold
    · rw [List.mem_singleton.mp hnew]
      exact hkey

theorem isNormal_of_toKey {value : Value} {key : Key} (h : value.toKey = .ok key) :
    key.IsNormal := by
  unfold Value.toKey at h
  split at h
  · rename_i hkey
    cases h
    exact Key.isNormal_of_ofValue? hkey
  · exact nomatch h

theorem isNormal_of_evaluatePairs {interpreter : Interpreter} {entries : List Entry}
    {state after : State} (h : interpreter.evaluatePairs entries state = .ok pairs after) :
    ∀ pair ∈ pairs, pair.1.IsNormal := by
  induction entries generalizing state pairs with
  | nil =>
      cases h
      exact nofun
  | cons entry rest ih =>
      simp only [Interpreter.evaluatePairs, Outcome.andThen_eq_ok, Outcome.map_eq_ok,
        Outcome.locatedAt_eq_ok, Outcome.ofExcept_eq_ok] at h
      obtain ⟨value, _, -, key, _, ⟨hkey, -⟩, _, _, -, others, hothers, rfl⟩ := h
      intro pair hpair
      rcases List.mem_cons.mp hpair with rfl | hrest
      · exact isNormal_of_toKey hkey
      · exact ih hothers pair hrest

theorem isNormal_of_decodeMembers (heap : Heap) (members : List JsonMember) :
    ∀ pair ∈ (JsonCodec.decodeMembers heap members).1, pair.1.IsNormal := by
  induction members generalizing heap with
  | nil =>
      rw [JsonCodec.decodeMembers]
      exact List.forall_mem_nil _
  | cons member rest ih =>
      obtain ⟨name, document⟩ := member
      rw [JsonCodec.decodeMembers]
      intro pair hpair
      rcases List.mem_cons.mp hpair with rfl | hrest
      · exact Key.isNormal_string name
      · exact ih _ pair hrest

/-- The history of a hash tells what it holds. -/
theorem Filled.holding (h : heap.Filled ref pairs) : heap.Holding ref pairs := by
  induction h with
  | literal hpairs hmade =>
      rw [Interpreter.evaluateExpr, Interpreter.evaluateEntries_eq, hpairs] at hmade
      simp only [Outcome.map, Outcome.andThen, State.newHash] at hmade
      cases hmade
      exact holding_newHash (isNormal_of_evaluatePairs hpairs) rfl
  | decoded hmade =>
      rw [ofJson, JsonCodec.decode] at hmade
      exact holding_newHash (isNormal_of_decodeMembers _ _) hmade
  | made hmade =>
      apply holding_newHash _ hmade
      intro pair hpair
      obtain ⟨member, -, rfl⟩ := List.mem_map.mp hpair
      exact Key.isNormal_string member.1
  | member _ hslot value ih =>
      cases hslot
      exact ih.setEntry (Key.isNormal_string _) value
  | index _ hkey hslot value ih =>
      simp only [indexSlot, hkey, entrySlot] at hslot
      split at hslot
      · cases hslot
        exact ih.setEntry (isNormal_of_toKey hkey) value
      · cases hslot
  | elsewhere _ hsize htable ih =>
      exact ⟨Nat.lt_of_lt_of_le ih.index_lt hsize, htable.trans ih.table_eq, ih.isNormal⟩

section Assignments

variable {interpreter : Interpreter} {position : Position} {object value : Expr} {result : Value}
  {state middle later last : State}

/-- An assignment to a member is the next insertion. -/
theorem Filled.assignMember {property : String}
    (hobject : interpreter.evaluate object state = .ok (.hash ref) middle)
    (hvalue : interpreter.evaluate value middle = .ok result last)
    (h : last.heap.Filled ref pairs) :
    ∃ after, interpreter.assign (.member position object property) value state = .ok () after ∧
      after.heap.Filled ref (pairs ++ [(.string property, result)]) := by
  refine ⟨{ last with heap := last.heap.writeSlot (.entry ref (.string property)) result }, ?_,
    h.member rfl result⟩
  simp only [Interpreter.assign, Interpreter.assignMember, hobject, Outcome.andThen, newMemberSlot,
    Outcome.ofExcept, Outcome.locatedAt, hvalue, State.writeSlot]

/-- An assignment under a key that the hash has is the next insertion. -/
theorem Filled.assignIndex {index : Expr} {place : Value} {key : Key}
    (hobject : interpreter.evaluate object state = .ok (.hash ref) middle)
    (hindex : interpreter.evaluate index middle = .ok place later) (hkey : place.toKey = .ok key)
    (hvalue : interpreter.evaluate value later = .ok result last)
    (hfound : (later.heap.table ref).contains key) (hkept : (last.heap.table ref).contains key)
    (h : last.heap.Filled ref pairs) :
    ∃ after, interpreter.assign (.index position object index) value state = .ok () after ∧
      after.heap.Filled ref (pairs ++ [(key, result)]) := by
  have hslot (heap : Heap) (hcontains : (heap.table ref).contains key) :
      heap.indexSlot (.hash ref) place .notIndexAssignable = .ok (.entry ref key) := by
    simp only [indexSlot, hkey, entrySlot, hcontains, if_true]
  refine ⟨{ last with heap := last.heap.writeSlot (.entry ref key) result }, ?_,
    h.index hkey (hslot last.heap hkept) result⟩
  simp only [Interpreter.assign, Interpreter.assignIndex, hobject, Outcome.andThen, hindex,
    hslot later.heap hfound, Outcome.ofExcept, Outcome.locatedAt, hvalue, State.writeSlot]

end Assignments

/-! ### What the entries show -/

/-- The items of a value that is an array. -/
def itemsOf? (heap : Heap) : Value → Option (Array Value)
  | .array ref => some (heap.items ref)
  | _ => none

/-- A script sees a hash as these entries, each of them once and in strictly ascending order: when it
prints the hash, takes its keys, its values or its length, reads it under its keys, or loops over
it. -/
structure Enumerates (heap : Heap) (ref : HashRef) (entries : List (Key × Value)) : Prop where
  ascending : entries.Pairwise fun entry later => entry.1.Before later.1
  printed : heap.print (.hash ref) = hashText (entries.map fun entry =>
    entryText entry.1 (heap.printout [.hash ref] entry.2).render)
  keys : CollectionOperation.keys.apply [.hash ref] heap =
    .ok (.array (entries.map fun entry => entry.1.toValue).toArray)
  values : CollectionOperation.values.apply [.hash ref] heap =
    .ok (.array (entries.map fun entry => entry.2).toArray)
  length : CollectionOperation.len.apply [.hash ref] heap = .ok (.value (.ofNat entries.length))
  keys_length : CollectionOperation.len.apply [.array ⟨heap.arrays.size⟩]
      (heap.newArray (entries.map fun entry => entry.1.toValue).toArray).2 =
    CollectionOperation.len.apply [.hash ref] heap
  reads (entry : Key × Value) (h : entry ∈ entries) (refused : Value → RuntimeError) :
    (heap.indexSlot (.hash ref) entry.1.toValue refused).map heap.readSlot = .ok entry.2
  rounds (interpreter : Interpreter) (name : String) (iterable : Expr) (body : List Stmt)
    (state middle : State) (hsubject : interpreter.evaluate iterable state = .ok (.hash ref) middle)
    (hheap : middle.heap = heap) :
    ∃ items after, interpreter.executeEach name iterable body state =
        interpreter.executeRounds name body items after ∧
      items.map after.heap.itemsOf? = entries.map fun entry => some #[entry.1.toValue, entry.2]

/-- The pairs that a loop over a hash runs over are new arrays of a key and a value. -/
theorem newPairs_spec (state : State) (entries : List (Key × Value)) :
    ∃ items after, state.newPairs entries = .ok items after ∧
      items.map after.heap.itemsOf? =
        entries.map (fun entry => some #[entry.1.toValue, entry.2]) ∧
      ∀ ref : ArrayRef, ref.index < state.heap.arrays.size →
        after.heap.items ref = state.heap.items ref := by
  induction entries generalizing state with
  | nil => exact ⟨[], state, rfl, rfl, fun _ _ => rfl⟩
  | cons entry rest ih =>
      obtain ⟨key, value⟩ := entry
      let pair : Array Value := #[key.toValue, value]
      let middle : State := { state with heap := (state.heap.newArray pair).2 }
      obtain ⟨items, after, hrest, hitems, hkept⟩ := ih middle
      refine ⟨.array ⟨state.heap.arrays.size⟩ :: items, after, ?_, ?_, ?_⟩
      · change (middle.newPairs rest).map _ = _
        rw [hrest]
        rfl
      · have hfirst : after.heap.items ⟨state.heap.arrays.size⟩ = pair := by
          rw [hkept _ (by simp [middle, newArray])]
          simp [middle, newArray, Heap.items]
        rw [List.map_cons, List.map_cons, hitems, itemsOf?, hfirst]
      · intro ref hlt
        rw [hkept ref (by simp [middle, newArray]; omega)]
        exact items_newArray_of_lt state.heap pair hlt

theorem Holding.enumerates (h : heap.Holding ref pairs) :
    heap.Enumerates ref (heap.table ref).entries where
  ascending := by
    refine (heap.table ref).ascending.imp ?_
    intro entry later hlt
    exact (Key.before_iff _ _).mpr hlt
  printed := by
    rw [print_eq_render, heap.printout_hash List.not_mem_nil, Printout.render,
      Printout.renderAll_eq_map, List.map_map]
    rfl
  keys := rfl
  values := rfl
  length := rfl
  keys_length := by
    let keys := (heap.table ref).entries.map fun entry => entry.1.toValue
    have hsize : ((heap.newArray keys.toArray).2.items ⟨heap.arrays.size⟩).size =
        (heap.table ref).size := by
      simp [keys, newArray, items, Table.size]
    exact congrArg (fun size => Except.ok (LibraryResult.value (Value.ofNat size))) hsize
  reads := by
    intro entry hentry refused
    have hfound : (heap.table ref).find? entry.1 = some entry.2 :=
      (Table.mem_iff_lookup (heap.table ref).ascending).mp hentry
    have hnormal : entry.1.IsNormal := by
      rw [h.table_eq, Table.find?_ofList] at hfound
      exact h.isNormal entry (Table.mem_of_lastInserted hfound)
    have hkey : entry.1.toValue.toKey = .ok entry.1 := by
      rw [Value.toKey, hnormal]
    simp [indexSlot, hkey, entrySlot, Table.contains, hfound, Except.map, readSlot]
  rounds := by
    intro interpreter name iterable body state middle hsubject hheap
    obtain ⟨items, after, hpairs, hitems, -⟩ := newPairs_spec middle (heap.table ref).entries
    refine ⟨items, after, ?_, hitems⟩
    simp only [Interpreter.executeEach, hsubject, Outcome.andThen, State.iterationItems, hheap,
      hpairs, Outcome.locatedAt]

/-! ### Heaps with different histories -/

/-- The containers of two heaps are linked one to one. Linked arrays hold linked items, and linked
hashes were filled by two sequences of insertions that end in the same entries. -/
structure EndsAlike (links : ContainerRef → ContainerRef → Prop) (first second : Heap) : Prop where
  functional {left right other : ContainerRef} (h : links left right) (hother : links left other) :
    right = other
  injective {left right other : ContainerRef} (h : links left right) (hother : links other right) :
    left = other
  array {left : ArrayRef} {right : ContainerRef} (h : links (.array left) right) :
    ∃ ref, right = .array ref ∧
      List.Forall₂ (Linked links first second) (first.items left).toList (second.items ref).toList
  hash {left : HashRef} {right : ContainerRef} (h : links (.hash left) right) :
    ∃ ref pairs others, right = .hash ref ∧ first.Filled left pairs ∧ second.Filled ref others ∧
      ∀ key, Option.Rel (Linked links first second) (Table.lastInserted pairs key)
        (Table.lastInserted others key)

variable {links : ContainerRef → ContainerRef → Prop} {first second : Heap}

theorem EndsAlike.corresponds (h : EndsAlike links first second) :
    Corresponds links first second where
  functional := h.functional
  injective := h.injective
  array := h.array
  hash := by
    intro left right hlink
    obtain ⟨ref, pairs, others, rfl, hfirst, hsecond, hlast⟩ := h.hash hlink
    refine ⟨ref, rfl, ?_⟩
    intro key
    rw [hfirst.holding.table_eq, hsecond.holding.table_eq, Table.find?_ofList, Table.find?_ofList]
    exact hlast key

theorem Holding.mem_entries_iff (h : heap.Holding ref pairs) (key : Key) (value : Value) :
    (key, value) ∈ (heap.table ref).entries ↔ Table.lastInserted pairs key = some value := by
  rw [Table.mem_iff_lookup (heap.table ref).ascending, ← Table.find?_ofList, ← h.table_eq]
  rfl

end Heap

open Heap

/-- **What a script sees of a hash does not depend on its history.** Let two heaps hold the same up
to which cells the containers are in, each hash filled by some sequence of insertions, where only the
entries that the sequences leave agree. Then a script sees each of two such hashes, in all ways it
can, as a list of entries in strictly ascending order of the keys: just those that its insertions
have left, each once. Both lists have the same keys and values, and both hashes print alike. -/
theorem enumeration_of_history {links : ContainerRef → ContainerRef → Prop} {first second : Heap}
    (h : EndsAlike links first second) {left right : HashRef}
    (hlink : links (.hash left) (.hash right)) {pairs others : List (Key × Value)}
    (hfirst : first.Filled left pairs) (hsecond : second.Filled right others) :
    ∃ entries otherEntries,
      first.Enumerates left entries ∧ second.Enumerates right otherEntries ∧
      (∀ key value, (key, value) ∈ entries ↔ Table.lastInserted pairs key = some value) ∧
      (∀ key value, (key, value) ∈ otherEntries ↔ Table.lastInserted others key = some value) ∧
      List.Forall₂ (fun entry other => entry.1 = other.1 ∧ Linked links first second entry.2 other.2)
        entries otherEntries ∧
      first.print (.hash left) = second.print (.hash right) := by
  have hleft := hfirst.holding
  have hright := hsecond.holding
  refine ⟨(first.table left).entries, (second.table right).entries, hleft.enumerates,
    hright.enumerates, hleft.mem_entries_iff, hright.mem_entries_iff, h.corresponds.entries hlink, ?_⟩
  exact h.corresponds.print_eq (.container hlink)

/-- A literal with the keys in descending order, one of which is given another value later. -/
def descendingLiteral : List Entry :=
  [.mk (.string .first "b") (.nil .first), .mk (.string .first "a") (.boolean .first true)]

def descendingTable : Table :=
  .ofList [(.string "b", .nil), (.string "a", .boolean true)]

def overwrittenHeap : Heap :=
  (Heap.empty.newHash descendingTable).2.writeSlot (.entry ⟨0⟩ (.string "b")) (.boolean false)

def ascendingMembers : List JsonMember :=
  [.mk "a" (.boolean true), .mk "b" (.boolean false)]

theorem filled_overwrittenHeap : overwrittenHeap.Filled ⟨0⟩
    [(.string "b", .nil), (.string "a", .boolean true), (.string "b", .boolean false)] := by
  let start : State := .initial .empty ⟨"", .working, .empty, [], [], 0, .ascending⟩
  have hpairs : (Interpreter.ofFuel 1).evaluatePairs descendingLiteral start =
      .ok [(.string "b", .nil), (.string "a", .boolean true)] start := rfl
  have hmade : (Interpreter.ofFuel 1).evaluateExpr (.hash .first descendingLiteral) start =
      .ok (.hash ⟨0⟩) { start with heap := (Heap.empty.newHash descendingTable).2 } := rfl
  have hkey : (Value.string "b").toKey = .ok (.string "b") := rfl
  have hslot : (Heap.empty.newHash descendingTable).2.indexSlot (.hash ⟨0⟩) (.string "b")
      .notIndexAssignable = .ok (.entry ⟨0⟩ (.string "b")) := rfl
  exact (Filled.literal hpairs hmade).index hkey hslot (.boolean false)

theorem enumeration_of_history_overwritten :
    ∃ entries, overwrittenHeap.Enumerates ⟨0⟩ entries ∧
      overwrittenHeap.print (.hash ⟨0⟩) =
        (Heap.empty.ofJson (.object ascendingMembers)).2.print (.hash ⟨0⟩) := by
  let links (left right : ContainerRef) : Prop := left = .hash ⟨0⟩ ∧ right = .hash ⟨0⟩
  let read := (Heap.empty.ofJson (.object ascendingMembers)).2
  have hmade : Heap.empty.ofJson (.object ascendingMembers) = (.hash ⟨0⟩, read) := rfl
  have hread : read.Filled ⟨0⟩ [(.string "a", .boolean true), (.string "b", .boolean false)] :=
    Filled.decoded hmade
  have hlast (key : Key) : Option.Rel (Linked links overwrittenHeap read)
      (Table.lastInserted
        [(.string "b", .nil), (.string "a", .boolean true), (.string "b", .boolean false)] key)
      (Table.lastInserted [(.string "a", .boolean true), (.string "b", .boolean false)] key) := by
    by_cases hb : key = .string "b"
    · subst hb
      exact .some (.scalar rfl)
    · by_cases ha : key = .string "a"
      · subst ha
        exact .some (.scalar rfl)
      · simp [Table.lastInserted, Table.lookup_cons_eq_ite, ha, hb]
  have halike : EndsAlike links overwrittenHeap read := by
    constructor
    · rintro _ _ _ ⟨-, rfl⟩ ⟨-, rfl⟩
      rfl
    · rintro _ _ _ ⟨rfl, -⟩ ⟨rfl, -⟩
      rfl
    · rintro _ _ ⟨h, -⟩
      cases h
    · rintro _ _ ⟨h, rfl⟩
      cases h
      exact ⟨⟨0⟩, _, _, rfl, filled_overwrittenHeap, hread, hlast⟩
  obtain ⟨entries, _, hentries, -, -, -, -, hprint⟩ :=
    enumeration_of_history halike ⟨rfl, rfl⟩ filled_overwrittenHeap hread
  exact ⟨entries, hentries, hprint⟩

end ScriptEngine
