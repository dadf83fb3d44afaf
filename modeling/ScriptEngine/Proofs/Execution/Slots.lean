import ScriptEngine.Proofs.Execution.Shapes
import ScriptEngine.Proofs.Number.Integers
import ScriptEngine.Proofs.Value.Contents
import ScriptEngine.Proofs.Value.Entries

/-!
# Slots

A slot is an item of an array or an entry of a hash. Reading through an index, assigning and
stepping seek slots on their own, each with its errors. They find the same ones: those that the
container has under the index, which no write takes away and no other write changes. A member is the
entry under its name, but that an assignment to it need not find the entry.
-/

namespace ScriptEngine

open Outcome Interpreter

theorem arraySlot_eq_ok_iff {index : Value} {length place : Nat} :
    arraySlot index length = .ok place ↔
      ∃ number, index = .number number ∧ integerOf? number = some (place : Int) ∧
        place < length := by
  constructor
  · intro h
    have hlt := lt_of_arraySlot h
    unfold arraySlot at h
    split at h
    · rename_i number
      split at h
      · rename_i whole hwhole
        split at h
        · have hplace : (place : Int) = whole := by
            have hcut := Except.ok.inj h
            omega
          exact ⟨number, rfl, hplace ▸ hwhole, hlt⟩
        · exact nomatch h
      · exact nomatch h
    · exact nomatch h
  · rintro ⟨number, rfl, hwhole, hlt⟩
    have hrange : (0 : Int) ≤ place ∧ (place : Int) < length := by omega
    simp only [arraySlot, hwhole]
    rw [if_pos hrange, Int.toNat_natCast]

namespace Heap

/-- The container has a slot under the index: an array under each whole number from zero up to its
length, a hash under each value whose key it has. -/
inductive Addresses (heap : Heap) : Value → Value → Slot → Prop
  | item {ref : ArrayRef} {number : Number} {place : Nat}
      (hplace : integerOf? number = some (place : Int)) (hlt : place < (heap.items ref).size) :
      Addresses heap (.array ref) (.number number) (.item ref place)
  | entry {ref : HashRef} {index : Value} {key : Key} (hkey : Key.ofValue? index = some key)
      (hcontains : (heap.table ref).contains key) :
      Addresses heap (.hash ref) index (.entry ref key)

variable {heap : Heap} {container index : Value} {slot : Slot} {refused : Value → RuntimeError}

theorem toKey_eq_ok_iff {key : Key} : index.toKey = .ok key ↔ Key.ofValue? index = some key := by
  unfold Value.toKey
  cases Key.ofValue? index <;> simp

theorem indexSlot_eq_ok_iff :
    heap.indexSlot container index refused = .ok slot ↔ heap.Addresses container index slot := by
  constructor
  · intro h
    cases container with
    | array ref =>
        obtain ⟨place, hplace, rfl⟩ := exists_place_of_indexSlot h
        obtain ⟨number, rfl, hwhole, hlt⟩ := arraySlot_eq_ok_iff.mp hplace
        exact .item hwhole hlt
    | hash ref =>
        obtain ⟨key, hkey, hcontains, rfl⟩ := exists_key_of_indexSlot h
        exact .entry (toKey_eq_ok_iff.mp hkey) hcontains
    | _ => exact nomatch h
  · rintro (⟨hplace, hlt⟩ | ⟨hkey, hcontains⟩)
    · rw [indexSlot_array, arraySlot_eq_ok_iff.mpr ⟨_, rfl, hplace, hlt⟩]
      rfl
    · simp only [indexSlot, toKey_eq_ok_iff.mpr hkey, entrySlot, hcontains, if_true]

/-- There is at most one slot under an index. -/
theorem Addresses.unique {other : Slot} (h : heap.Addresses container index slot)
    (hother : heap.Addresses container index other) : slot = other := by
  have hslot : heap.indexSlot container index .notIndexable = .ok slot :=
    indexSlot_eq_ok_iff.mpr h
  rw [indexSlot_eq_ok_iff.mpr hother] at hslot
  exact (Except.ok.inj hslot).symm

/-- A search that fails, fails in each of its uses with the same kind of error. -/
theorem indexSlot_fails_alike {failure : RuntimeError} {others : Value → RuntimeError}
    (h : heap.indexSlot container index refused = .error failure)
    (hkind : ∀ value, (refused value).kind = (others value).kind) :
    ∃ other, heap.indexSlot container index others = .error other ∧ other.kind = failure.kind := by
  cases container with
  | array ref => exact ⟨failure, h, rfl⟩
  | hash ref => exact ⟨failure, h, rfl⟩
  | _ => exact ⟨_, rfl, (Except.error.inj h) ▸ (hkind _).symm⟩

/-! ### Reading and writing -/

/-- What is read from a container under an index. -/
def read (heap : Heap) (container index : Value) : Except RuntimeError Value :=
  (heap.indexSlot container index .notIndexable).map heap.readSlot

/-- The container of the slot is in the heap. -/
def HasCell (heap : Heap) : Slot → Prop
  | .item ref place => place < (heap.items ref).size
  | .entry ref _ => ref.index < heap.hashes.size

theorem Addresses.hasCell (h : heap.Addresses container index slot) : heap.HasCell slot := by
  rcases h with ⟨-, hlt⟩ | ⟨-, hcontains⟩
  · exact hlt
  · exact index_lt_of_contains hcontains

theorem readSlot_writeSlot (h : heap.HasCell slot) (value : Value) :
    (heap.writeSlot slot value).readSlot slot = value := by
  cases slot with
  | item ref place =>
      have hlt : place < (heap.items ref).size := h
      simp [readSlot, writeSlot, items_setItem, hlt]
  | entry ref key =>
      simp only [readSlot, writeSlot]
      rw [table_setEntry heap ref ref key value h, if_pos rfl, Table.find?_insert, if_pos rfl]
      rfl

theorem find?_table_setEntry_of_ne {ref other : HashRef} {key found : Key} (value : Value)
    (hne : other = ref → found ≠ key) :
    ((heap.setEntry ref key value).table other).find? found = (heap.table other).find? found := by
  by_cases href : ref = other
  · subst href
    by_cases hcell : ref.index < heap.hashes.size
    · rw [table_setEntry heap ref ref key value hcell, if_pos rfl, Table.find?_insert,
        if_neg (hne rfl)]
    · -- A hash that is not there is not written.
      have hcell := Nat.le_of_not_lt hcell
      simp [table, setEntry, Array.getElem?_modify, Array.getElem?_eq_none hcell]
  · rw [heap.table_setEntry_of_ne key value href]

theorem readSlot_writeSlot_of_ne {other : Slot} (hne : other ≠ slot) (value : Value) :
    (heap.writeSlot slot value).readSlot other = heap.readSlot other := by
  cases slot with
  | item ref place =>
      cases other with
      | item found sought =>
          simp only [readSlot, writeSlot, items_setItem]
          split
          · next href =>
              have hplace : place ≠ sought := fun heq => hne (by rw [href, heq])
              rw [Array.getElem?_setIfInBounds_ne hplace]
          · rfl
      | entry found key => rfl
  | entry ref key =>
      cases other with
      | item found sought => rfl
      | entry found sought =>
          have hkey (href : found = ref) : sought ≠ key := fun heq => hne (by rw [href, heq])
          simp only [readSlot, writeSlot, find?_table_setEntry_of_ne value hkey]

/-- An entry that has been written is there. -/
theorem addresses_writeSlot_entry {ref : HashRef} {key : Key}
    (hcell : heap.HasCell (.entry ref key)) (hkey : Key.ofValue? index = some key) (value : Value) :
    (heap.writeSlot (.entry ref key) value).Addresses (.hash ref) index (.entry ref key) := by
  refine .entry hkey ?_
  rw [writeSlot, table_setEntry heap ref ref key value hcell, if_pos rfl]
  exact (Table.contains_insert value).mpr (.inl rfl)

/-- A search fails or succeeds as before, unless it is for the slot that has been written. -/
theorem indexSlot_writeSlot_of_not {other place : Value} {value : Value} (hcell : heap.HasCell slot)
    (hother : ¬ (heap.writeSlot slot value).Addresses other place slot) :
    (heap.writeSlot slot value).indexSlot other place refused =
      heap.indexSlot other place refused := by
  cases slot with
  | item ref written =>
      cases other with
      | array found => simp only [indexSlot, writeSlot, size_items_setItem]
      | _ => rfl
  | entry ref written =>
      cases other with
      | hash found =>
          cases hkey : place.toKey with
          | error failure => simp only [indexSlot, hkey]
          | ok key =>
              have hne (href : found = ref) : key ≠ written := by
                rintro rfl
                subst href
                exact hother (addresses_writeSlot_entry hcell (toKey_eq_ok_iff.mp hkey) value)
              have hcontains : ((heap.setEntry ref written value).table found).contains key =
                  (heap.table found).contains key :=
                congrArg Option.isSome (find?_table_setEntry_of_ne value hne)
              simp only [indexSlot, hkey, entrySlot, writeSlot, hcontains]
      | _ => rfl

/-- What is read elsewhere is as before. -/
theorem read_writeSlot_of_not {other place : Value} {value : Value} (hcell : heap.HasCell slot)
    (hother : ¬ (heap.writeSlot slot value).Addresses other place slot) :
    (heap.writeSlot slot value).read other place = heap.read other place := by
  unfold read
  rw [indexSlot_writeSlot_of_not hcell hother]
  cases hslot : heap.indexSlot other place .notIndexable with
  | error failure => rfl
  | ok found =>
      have hne : found ≠ slot := by
        rintro rfl
        rw [← indexSlot_writeSlot_of_not hcell hother] at hslot
        exact hother (indexSlot_eq_ok_iff.mp hslot)
      exact congrArg Except.ok (readSlot_writeSlot_of_ne hne value)

theorem size_items_writeSlot (heap : Heap) (slot : Slot) (value : Value) (ref : ArrayRef) :
    ((heap.writeSlot slot value).items ref).size = (heap.items ref).size := by
  cases slot with
  | item written place => exact heap.size_items_setItem written ref place value
  | entry written key => rfl

theorem Addresses.contains_writeSlot (h : heap.Addresses container index slot) (value : Value)
    (ref : HashRef) (key : Key) :
    ((heap.writeSlot slot value).table ref).contains key = (heap.table ref).contains key := by
  rcases h with _ | @⟨written, _, old, -, hcontains⟩
  · rfl
  · by_cases hsame : ref = written ∧ key = old
    · obtain ⟨rfl, rfl⟩ := hsame
      rw [hcontains, writeSlot, table_setEntry heap ref ref key value
        (index_lt_of_contains hcontains), if_pos rfl]
      exact (Table.contains_insert value).mpr (.inl rfl)
    · exact congrArg Option.isSome
        (find?_table_setEntry_of_ne value fun href hkey => hsame ⟨href, hkey⟩)

/-- A write to a slot that is there leaves all slots where they are. -/
theorem Addresses.writeSlot_iff (h : heap.Addresses container index slot) (value : Value)
    {other place : Value} {found : Slot} :
    (heap.writeSlot slot value).Addresses other place found ↔
      heap.Addresses other place found := by
  constructor
  · rintro (⟨hplace, hlt⟩ | ⟨hkey, hcontains⟩)
    · exact .item hplace (heap.size_items_writeSlot slot value _ ▸ hlt)
    · exact .entry hkey (h.contains_writeSlot value _ _ ▸ hcontains)
  · rintro (⟨hplace, hlt⟩ | ⟨hkey, hcontains⟩)
    · exact .item hplace ((heap.size_items_writeSlot slot value _).symm ▸ hlt)
    · exact .entry hkey ((h.contains_writeSlot value _ _).symm ▸ hcontains)

theorem Addresses.read_eq (h : heap.Addresses container index slot) :
    heap.read container index = .ok (heap.readSlot slot) := by
  rw [read, indexSlot_eq_ok_iff.mpr h]
  rfl

/-- What is written to a slot is read wherever the slot is found, and no other slot changes. -/
theorem Addresses.read_writeSlot (h : heap.Addresses container index slot) (value : Value) :
    (∀ other place, heap.Addresses other place slot →
      (heap.writeSlot slot value).read other place = .ok value) ∧
    ∀ other place, ¬ heap.Addresses other place slot →
      (heap.writeSlot slot value).read other place = heap.read other place := by
  refine ⟨fun other place hother => ?_, fun other place hother => ?_⟩
  · rw [((h.writeSlot_iff value).mpr hother).read_eq, readSlot_writeSlot h.hasCell]
  · exact read_writeSlot_of_not h.hasCell fun hwritten =>
      hother ((h.writeSlot_iff value).mp hwritten)

/-- A member is the entry under its name. -/
theorem memberSlot_hash (heap : Heap) (refused : Value → RuntimeError) (ref : HashRef)
    (property : String) :
    heap.memberSlot (.hash ref) property =
      heap.indexSlot (.hash ref) (.string property) refused :=
  rfl

end Heap

/-! ### Programs -/

/-- The step fails with an error of this kind, in this state. -/
def Outcome.Refuses {α : Type} (outcome : Outcome α) (kind : ErrorKind) (state : State) : Prop :=
  ∃ failure, outcome = .error failure state ∧ failure.kind = kind

namespace Outcome

variable {α β : Type} {outcome : Outcome α} {kind : ErrorKind} {state : State}

theorem refuses_ofExcept {failure : RuntimeError} (h : failure.kind = kind) :
    (ofExcept (.error failure : Except RuntimeError α) state).Refuses kind state :=
  ⟨failure, rfl, h⟩

theorem Refuses.andThen (h : outcome.Refuses kind state) (next : α → State → Outcome β) :
    (outcome.andThen next).Refuses kind state := by
  obtain ⟨failure, rfl, hkind⟩ := h
  exact ⟨failure, rfl, hkind⟩

theorem Refuses.locatedAt (h : outcome.Refuses kind state) (position : Position) :
    (outcome.locatedAt position).Refuses kind state := by
  obtain ⟨failure, rfl, hkind⟩ := h
  exact ⟨failure.locatedAt position, rfl, hkind⟩

end Outcome

namespace Interpreter

/-- From one state to another, the two expressions give a container and an index. -/
def Locates (interpreter : Interpreter) (object index : Expr) (state : State)
    (container place : Value) (last : State) : Prop :=
  ∃ middle, interpreter.evaluate object state = .ok container middle ∧
    interpreter.evaluate index middle = .ok place last

section

variable {fuel : Nat} {state last : State} {object index : Expr} {container place : Value}
  (h : (ofFuel fuel).Locates object index state container place last)
  (position outer : Position)
include h

theorem Locates.evaluate_index :
    (ofFuel (fuel + 1)).evaluate (.index position object index) state =
      (Outcome.ofExcept (last.heap.read container place) last).locatedAt position := by
  obtain ⟨middle, hobject, hindex⟩ := h
  change ((ofFuel fuel).evaluateIndex object index state).locatedAt position = _
  unfold evaluateIndex Heap.read
  simp only [hobject, hindex, Outcome.andThen]
  cases last.heap.indexSlot container place .notIndexable <;> rfl

theorem Locates.execute_assign (value : Expr) :
    (ofFuel (fuel + 1)).execute (.assign outer (.index position object index) value) state =
      ((((Outcome.ofExcept (last.heap.indexSlot container place .notIndexAssignable)
        last).locatedAt position).andThen fun slot state =>
          ((ofFuel fuel).evaluate value state).andThen fun new after =>
            .ok .normal { after with heap := after.heap.writeSlot slot new }).locatedAt outer) := by
  obtain ⟨middle, hobject, hindex⟩ := h
  change (((ofFuel fuel).assignIndex position object index value state).map
    fun _ => Flow.normal).locatedAt outer = _
  rw [assignIndex_eq_once (isAdvancing_ofFuel fuel)]
  unfold assignIndexOnce
  simp only [hobject, hindex, Outcome.andThen, Outcome.map]
  cases last.heap.indexSlot container place .notIndexAssignable with
  | error failure => rfl
  | ok slot =>
      simp only [Outcome.ofExcept, Outcome.locatedAt]
      cases (ofFuel fuel).evaluate value last <;> rfl

theorem Locates.evaluate_step {start : State} {amount : Option Expr} {size : Number}
    (hamount : (ofFuel fuel).evaluateOr (.number 1) amount start = .ok (.number size) state)
    (direction : Direction) :
    (ofFuel (fuel + 1)).evaluate (.step outer direction (.index position object index) amount)
        start =
      ((Outcome.ofExcept (last.heap.indexSlot container place .notIndexable) last).andThen
        fun slot state => state.stepSlot slot (direction.delta size)).locatedAt outer := by
  obtain ⟨middle, hobject, hindex⟩ := h
  change ((ofFuel fuel).step direction (.index position object index) amount start).locatedAt
    outer = _
  unfold step stepTarget
  simp only [hamount, hobject, hindex, Outcome.andThen]

/-- A slot that is there is read, assigned and stepped. -/
theorem Locates.uses_slot {start : State} {amount : Option Expr} {size : Number} {slot : Slot}
    (hamount : (ofFuel fuel).evaluateOr (.number 1) amount start = .ok (.number size) state)
    (haddress : last.heap.Addresses container place slot) (value : Expr) (direction : Direction) :
    let target := Expr.index position object index
    (ofFuel (fuel + 1)).evaluate target state = .ok (last.heap.readSlot slot) last ∧
      (ofFuel (fuel + 1)).execute (.assign outer target value) state =
        (((ofFuel fuel).evaluate value last).andThen fun new after =>
          .ok .normal { after with heap := after.heap.writeSlot slot new }).locatedAt outer ∧
      (ofFuel (fuel + 1)).evaluate (.step outer direction target amount) start =
        (last.stepSlot slot (direction.delta size)).locatedAt outer := by
  refine ⟨?_, ?_, ?_⟩
  · rw [h.evaluate_index position, haddress.read_eq]
    rfl
  · rw [h.execute_assign position outer, Heap.indexSlot_eq_ok_iff.mpr haddress]
    rfl
  · rw [h.evaluate_step position outer hamount, Heap.indexSlot_eq_ok_iff.mpr haddress]
    rfl

/-- If there is no slot, then reading, assigning and stepping fail alike. -/
theorem Locates.refuses {start : State} {amount : Option Expr} {size : Number}
    {failure : RuntimeError}
    (hamount : (ofFuel fuel).evaluateOr (.number 1) amount start = .ok (.number size) state)
    (hslot : last.heap.indexSlot container place .notIndexable = .error failure) (value : Expr)
    (direction : Direction) :
    let target := Expr.index position object index
    ((ofFuel (fuel + 1)).evaluate target state).Refuses failure.kind last ∧
      ((ofFuel (fuel + 1)).execute (.assign outer target value) state).Refuses failure.kind last ∧
      ((ofFuel (fuel + 1)).evaluate (.step outer direction target amount) start).Refuses
        failure.kind last := by
  obtain ⟨other, hother, hkind⟩ : ∃ other,
      last.heap.indexSlot container place .notIndexAssignable = .error other ∧
        other.kind = failure.kind :=
    Heap.indexSlot_fails_alike hslot fun _ => rfl
  refine ⟨?_, ?_, ?_⟩
  · rw [h.evaluate_index position, Heap.read, hslot]
    exact (refuses_ofExcept rfl).locatedAt position
  · rw [h.execute_assign position outer, hother]
    exact (((refuses_ofExcept hkind).locatedAt position).andThen _).locatedAt outer
  · rw [h.evaluate_step position outer hamount, hslot]
    exact ((refuses_ofExcept rfl).andThen _).locatedAt outer

end

section

variable {fuel : Nat} {state middle : State} {object : Expr} {ref : HashRef}
  (h : (ofFuel fuel).evaluate object state = .ok (.hash ref) middle)
  (position outer inner : Position) (property : String)
include h

theorem locates_string :
    (ofFuel fuel).Locates object (.string inner property) state (.hash ref) (.string property)
      middle := by
  cases fuel with
  | zero => exact nomatch h
  | succ fuel => exact ⟨middle, h, rfl⟩

/-- A member is read as the entry under its name is. -/
theorem evaluate_member :
    (ofFuel (fuel + 1)).evaluate (.member position object property) state =
      (ofFuel (fuel + 1)).evaluate (.index position object (.string inner property)) state := by
  rw [(locates_string h inner property).evaluate_index]
  change ((ofFuel fuel).evaluateMember object property state).locatedAt position = _
  unfold evaluateMember
  simp only [h, Outcome.andThen, Heap.read, middle.heap.memberSlot_hash .notIndexable]
  cases middle.heap.indexSlot (.hash ref) (.string property) .notIndexable <;> rfl

/-- A member is stepped as the entry under its name is. -/
theorem evaluate_step_member {start : State} {amount : Option Expr} {size : Number}
    (hamount : (ofFuel fuel).evaluateOr (.number 1) amount start = .ok (.number size) state)
    (direction : Direction) :
    (ofFuel (fuel + 1)).evaluate (.step outer direction (.member position object property) amount)
        start =
      (ofFuel (fuel + 1)).evaluate
        (.step outer direction (.index position object (.string inner property)) amount) start := by
  rw [(locates_string h inner property).evaluate_step position outer hamount]
  change ((ofFuel fuel).step direction (.member position object property) amount start).locatedAt
    outer = _
  unfold step stepTarget
  simp only [hamount, h, Outcome.andThen, middle.heap.memberSlot_hash .notIndexable]

/-- An assignment to a member does not seek the entry. -/
theorem execute_assign_member (value : Expr) :
    (ofFuel (fuel + 1)).execute (.assign outer (.member position object property) value) state =
      (((ofFuel fuel).evaluate value middle).andThen fun new after =>
        .ok .normal { after with
          heap := after.heap.writeSlot (.entry ref (.string property)) new }).locatedAt outer := by
  change (((ofFuel fuel).assignMember position object property value state).map
    fun _ => Flow.normal).locatedAt outer = _
  unfold assignMember
  simp only [h, Outcome.andThen, Outcome.map, Heap.newMemberSlot, Outcome.ofExcept,
    Outcome.locatedAt]
  cases (ofFuel fuel).evaluate value middle <;> rfl

/-- An entry that is there is assigned under its name as a member is. -/
theorem execute_assign_entry (hcontains : (middle.heap.table ref).contains (.string property))
    (value : Expr) :
    (ofFuel (fuel + 1)).execute (.assign outer (.member position object property) value) state =
      (ofFuel (fuel + 1)).execute
        (.assign outer (.index position object (.string inner property)) value) state := by
  have haddress : middle.heap.Addresses (.hash ref) (.string property)
      (.entry ref (.string property)) := .entry rfl hcontains
  rw [execute_assign_member h, (locates_string h inner property).execute_assign,
    Heap.indexSlot_eq_ok_iff.mpr haddress]
  rfl

theorem refuses_assign_entry (hmissing : ¬ (middle.heap.table ref).contains (.string property))
    (value : Expr) :
    ((ofFuel (fuel + 1)).execute
      (.assign outer (.index position object (.string inner property)) value) state).Refuses
        .keyNotFound middle := by
  have hslot : middle.heap.indexSlot (.hash ref) (.string property) .notIndexAssignable =
      .error (.keyNotFound (.string property)) :=
    if_neg hmissing
  rw [(locates_string h inner property).execute_assign, hslot]
  exact (((refuses_ofExcept rfl).locatedAt position).andThen _).locatedAt outer

end

/-- A slot is still there after any expression has been evaluated. -/
theorem ends_addresses {container index : Value} {slot : Slot} {state : State}
    (h : state.heap.Addresses container index slot) (fuel : Nat) (expression : Expr) :
    ((ofFuel fuel).evaluate expression state).Ends fun after =>
      after.heap.Addresses container index slot := by
  refine ((isAdvancing_ofFuel fuel).evaluate expression state).imp fun after hafter => ?_
  have hslot : state.heap.indexSlot container index .notIndexable = .ok slot :=
    Heap.indexSlot_eq_ok_iff.mpr h
  exact Heap.indexSlot_eq_ok_iff.mp (hafter.grows.indexSlot hslot).1

end Interpreter

/-- **Reading, assigning and stepping address the same slots.** For whatever container and index the
two expressions give, either the container has a slot under the index, which all three use, or all
three fail with the same kind of error. The slots of an array are under the whole numbers from zero
up to its length. What is assigned to a slot is read from it, and any other slot of any container is
read as before. A member is the entry under its name, but that an assignment makes it if it is
missing. -/
theorem access_paths_agree :
    (∀ (fuel : Nat) (start state last : State) (object index : Expr) (amount : Option Expr)
      (container place : Value) (size : Number),
      (ofFuel fuel).evaluateOr (.number 1) amount start = .ok (.number size) state →
      (ofFuel fuel).Locates object index state container place last →
      ∀ (position outer : Position) (value : Expr) (direction : Direction),
        let target := Expr.index position object index
        let reading := (ofFuel (fuel + 1)).evaluate target state
        let assigning := (ofFuel (fuel + 1)).execute (.assign outer target value) state
        let stepping := (ofFuel (fuel + 1)).evaluate (.step outer direction target amount) start
        (∃ slot, last.heap.Addresses container place slot ∧
          reading = .ok (last.heap.readSlot slot) last ∧
          assigning = (((ofFuel fuel).evaluate value last).andThen fun new after =>
            .ok .normal { after with heap := after.heap.writeSlot slot new }).locatedAt outer ∧
          ((ofFuel fuel).evaluate value last).Ends (fun after =>
            after.heap.Addresses container place slot) ∧
          stepping = (last.stepSlot slot (direction.delta size)).locatedAt outer) ∨
        ∃ kind, (∀ slot, ¬ last.heap.Addresses container place slot) ∧
          reading.Refuses kind last ∧ assigning.Refuses kind last ∧ stepping.Refuses kind last) ∧
    (∀ (number : Number) (place : Nat), (place : Int) < ExactNumber.largestInt64 →
      (integerOf? number = some (place : Int) ↔
        number.exact.value? = some (place : ℚ))) ∧
    (∀ (heap : Heap) (container index : Value) (slot : Slot),
      heap.Addresses container index slot → ∀ value,
        (∀ other place, heap.Addresses other place slot →
          (heap.writeSlot slot value).read other place = .ok value) ∧
        ∀ other place, ¬ heap.Addresses other place slot →
          (heap.writeSlot slot value).read other place = heap.read other place) ∧
    ∀ (fuel : Nat) (state middle : State) (object : Expr) (ref : HashRef),
      (ofFuel fuel).evaluate object state = .ok (.hash ref) middle →
      ∀ (position outer inner : Position) (property : String) (value : Expr),
        let member := Expr.member position object property
        let entry := Expr.index position object (.string inner property)
        let slot := Slot.entry ref (.string property)
        (ofFuel (fuel + 1)).evaluate member state = (ofFuel (fuel + 1)).evaluate entry state ∧
        (∀ start amount size direction,
          (ofFuel fuel).evaluateOr (.number 1) amount start = .ok (.number size) state →
            (ofFuel (fuel + 1)).evaluate (.step outer direction member amount) start =
              (ofFuel (fuel + 1)).evaluate (.step outer direction entry amount) start) ∧
        ((middle.heap.table ref).contains (.string property) →
          (ofFuel (fuel + 1)).execute (.assign outer member value) state =
            (ofFuel (fuel + 1)).execute (.assign outer entry value) state) ∧
        (¬ (middle.heap.table ref).contains (.string property) →
          ((ofFuel (fuel + 1)).execute (.assign outer entry value) state).Refuses .keyNotFound
            middle ∧
          ∀ new after, ref.index < middle.heap.hashes.size →
            (ofFuel fuel).evaluate value middle = .ok new after →
              let written := after.heap.writeSlot slot new
              (ofFuel (fuel + 1)).execute (.assign outer member value) state =
                .ok .normal { after with heap := written } ∧
              written.Addresses (.hash ref) (.string property) slot ∧
              written.read (.hash ref) (.string property) = .ok new ∧
              ∀ other place, ¬ written.Addresses other place slot →
                written.read other place = after.heap.read other place) := by
  refine ⟨?_, fun number place hplace => integerOf?_eq_some_iff hplace,
    fun heap container index slot h value => h.read_writeSlot value, ?_⟩
  · intro fuel start state last object index amount container place size hamount hplaces position
      outer value direction
    cases hslot : last.heap.indexSlot container place .notIndexable with
    | ok slot =>
        have haddress := Heap.indexSlot_eq_ok_iff.mp hslot
        obtain ⟨hreading, hassigning, hstepping⟩ :=
          hplaces.uses_slot position outer hamount haddress value direction
        exact .inl ⟨slot, haddress, hreading, hassigning, ends_addresses haddress fuel value,
          hstepping⟩
    | error failure =>
        have hnone (slot : Slot) : ¬ last.heap.Addresses container place slot := by
          intro haddress
          rw [Heap.indexSlot_eq_ok_iff.mpr haddress] at hslot
          exact nomatch hslot
        exact .inr ⟨failure.kind, hnone,
          hplaces.refuses position outer hamount hslot value direction⟩
  · intro fuel state middle object ref hobject position outer inner property value member entry slot
    refine ⟨evaluate_member hobject position inner property,
      fun start amount size direction hamount =>
        evaluate_step_member hobject position outer inner property hamount direction,
      fun hcontains => execute_assign_entry hobject position outer inner property hcontains value,
      fun hmissing => ⟨refuses_assign_entry hobject position outer inner property hmissing value,
        fun new after hcell hvalue => ?_⟩⟩
    have hassign := execute_assign_member hobject position outer property value
    have hgrows := (isAdvancing_ofFuel fuel).evaluate value middle
    rw [hvalue] at hgrows hassign
    have hslot : after.heap.HasCell slot := Nat.lt_of_lt_of_le hcell hgrows.grows.hashes
    have haddress :
        (after.heap.writeSlot slot new).Addresses (.hash ref) (.string property) slot :=
      Heap.addresses_writeSlot_entry hslot rfl new
    refine ⟨hassign, haddress, ?_, fun other place hother =>
      Heap.read_writeSlot_of_not hslot hother⟩
    rw [haddress.read_eq, Heap.readSlot_writeSlot hslot]

/-- An array and a hash with their names. -/
def slottedState : State :=
  { State.blank with
    scopes := ⟨[("list", .array ⟨0⟩), ("table", .hash ⟨0⟩)], []⟩
    heap := ⟨#[#[.number 1, .number 2]], #[.ofList [(.string "count", .number 3)]], #[]⟩ }

theorem access_paths_agree_slottedState :
    let heap := slottedState.heap
    let slot := Slot.item ⟨0⟩ 1
    let target := Expr.index .first (.name .first "list") (.number .first 1)
    let table := Expr.name .first "table"
    heap.Addresses (.array ⟨0⟩) (.number 1) slot ∧
      (ofFuel 2).evaluate target slottedState = .ok (heap.readSlot slot) slottedState ∧
      (ofFuel 2).evaluate (.step .first .up target none) slottedState =
        (slottedState.stepSlot slot 1).locatedAt .first ∧
      (heap.writeSlot slot .nil).read (.array ⟨0⟩) (.number 1) = .ok .nil ∧
      (ofFuel 2).execute (.assign .first (.member .first table "total") (.nil .first))
          slottedState =
        .ok .normal { slottedState with
          heap := heap.writeSlot (.entry ⟨0⟩ (.string "total")) .nil } := by
  intro heap slot target table
  obtain ⟨hslots, -, hwrites, hmembers⟩ := access_paths_agree
  have haddress : heap.Addresses (.array ⟨0⟩) (.number 1) slot := .item (by decide) (by decide)
  have hamount : (ofFuel 1).evaluateOr (.number 1) none slottedState =
      .ok (.number 1) slottedState := rfl
  have hplaces : (ofFuel 1).Locates (.name .first "list") (.number .first 1) slottedState
      (.array ⟨0⟩) (.number 1) slottedState := ⟨_, rfl, rfl⟩
  have htable : (ofFuel 1).evaluate table slottedState = .ok (.hash ⟨0⟩) slottedState := rfl
  have hmissing : ¬ (heap.table ⟨0⟩).contains (.string "total") := by decide
  have hnil : (ofFuel 1).evaluate (.nil .first) slottedState = .ok .nil slottedState := rfl
  obtain ⟨-, -, -, hadds⟩ := hmembers 1 slottedState slottedState table ⟨0⟩ htable .first .first
    .first "total" (.nil .first)
  have hadded := ((hadds hmissing).2 .nil slottedState (by decide) hnil).1
  rcases hslots 1 slottedState slottedState slottedState _ _ none _ _ 1 hamount hplaces .first
    .first (.nil .first) .up with ⟨found, hfound, hreads, -, -, hsteps⟩ | ⟨-, hnone, -⟩
  · obtain rfl := hfound.unique haddress
    exact ⟨haddress, hreads, hsteps, (hwrites _ _ _ _ haddress .nil).1 _ _ haddress, hadded⟩
  · exact absurd haddress (hnone slot)

end ScriptEngine
