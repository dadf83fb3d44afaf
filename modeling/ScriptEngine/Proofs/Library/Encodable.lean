import ScriptEngine.Library.JsonText
import ScriptEngine.Proofs.Execution.Callbacks
import ScriptEngine.Proofs.Library.Encoding
import ScriptEngine.Proofs.Library.Results
import ScriptEngine.Proofs.Value.Printing

/-!
# Which values have a JSON form

The encoder counts the containers that it has entered and refuses what stands below too many of
them, so it ends on every heap. It succeeds just if no way down from the value is longer than the
limit, and none leads to a function, to the undefined number or to an infinity. A way into a cycle
has no greatest length, so that a value which reaches a cycle is always refused.
-/

namespace ScriptEngine

/-! ### Ways down -/

/-- One value is reached from another through a number of containers. -/
inductive Heap.Path (heap : Heap) : Nat → Value → Value → Prop
  | here (value : Value) : heap.Path 0 value value
  | enter {steps : Nat} {container : ContainerRef} {member inner : Value}
      (hmember : member ∈ heap.contents container) (hpath : heap.Path steps member inner) :
      heap.Path (steps + 1) container.toValue inner

/-- Functions, the undefined number and the infinities have no JSON form. -/
def Value.isEncodable : Value → Bool
  | number value => value.exact.isFinite
  | function _ => false
  | _ => true

namespace JsonCodec

/-- The error for a value that has no form of its own. -/
def refusal? : Value → Option RuntimeError
  | .number number =>
    if number.exact.isFinite then
      none
    else
      some (.typeError s!"json: {Value.printNumber number} cannot be encoded")
  | .function _ => some (.typeError "json: functions cannot be encoded")
  | _ => none

theorem refusal?_eq_none_iff {value : Value} : refusal? value = none ↔ value.isEncodable := by
  cases value with
  | number number => simp [refusal?, Value.isEncodable]
  | function ref => simp [refusal?, Value.isEncodable]
  | _ => simp [refusal?, Value.isEncodable]

/-! ### One container at a time -/

variable {order : EntryOrder} {heap : Heap}

/-- The document of a value, put together out of the documents of what is in it. -/
def encodeLayer (order : EntryOrder) (heap : Heap)
    (encodeInner : Value → Except RuntimeError JsonDocument) :
    Value → Except RuntimeError JsonDocument
  | .nil => .ok .null
  | .boolean value => .ok (.boolean value)
  | .number value => encodeNumber value
  | .string value => .ok (.string value)
  | .array ref => do
    let elements ← (heap.items ref).toList.mapM encodeInner
    return .array elements
  | .hash ref => do
    let members ← (heap.storedEntries order ref).mapM fun entry => do
      return JsonMember.mk entry.1.print (← encodeInner entry.2)
    return .object (members.foldl (fun sorted member => member.insertInto sorted) [])
  | .function _ => .error (.typeError "json: functions cannot be encoded")

/-- Encodes a value that stands in `depth` containers. Each container that is entered leaves fewer
to enter, also where containers are in themselves. -/
def encodeAt (order : EntryOrder) (heap : Heap) (depth : Nat) (value : Value) :
    Except RuntimeError JsonDocument :=
  if depthLimit < depth then
    .error tooDeep
  else
    encodeLayer order heap (fun inner => encodeAt order heap (depth + 1) inner) value
termination_by depthLimit + 1 - depth

theorem encode_succ (levels : Nat) (value : Value) :
    encode order heap (levels + 1) value =
      encodeLayer order heap (encode order heap levels) value := by
  cases value <;> rfl

theorem encodeAt_eq_encode {depth levels : Nat} (h : depth + levels = depthLimit + 1) :
    encodeAt order heap depth = encode order heap levels := by
  induction levels generalizing depth with
  | zero =>
      funext value
      rw [encodeAt, if_pos (by omega), encode]
  | succ levels ih =>
      funext value
      have hinner :
          (fun inner => encodeAt order heap (depth + 1) inner) = encode order heap levels :=
        ih (by omega)
      rw [encodeAt, if_neg (by omega), hinner, encode_succ]

theorem encodeNumber_eq_error_iff {number : Number} {failure : RuntimeError} :
    encodeNumber number = .error failure ↔ refusal? (.number number) = some failure := by
  unfold encodeNumber refusal?
  cases hinteger : integerOf? number with
  | none =>
      by_cases hfinite : number.exact.isFinite
      · simp [hfinite]
      · simp [hfinite]
  | some integer =>
      have hfinite := isFinite_of_isIntegral (isIntegral_of_integerOf? hinteger)
      simp only [hfinite, if_true]
      split
      · simp
      · simp

variable {encodeInner : Value → Except RuntimeError JsonDocument} {failure : RuntimeError}

/-- A container is encoded only if everything in it is. -/
theorem exists_ok_of_encodeLayer_ok {container : ContainerRef} {document : JsonDocument}
    (h : encodeLayer order heap encodeInner container.toValue = .ok document) :
    ∀ member ∈ heap.contents container, ∃ inner, encodeInner member = .ok inner := by
  cases container with
  | array ref =>
      obtain ⟨elements, helements, -⟩ := exists_of_bind_eq_ok h
      exact exists_ok_of_mapM_ok helements
  | hash ref =>
      obtain ⟨members, hmembers, -⟩ := exists_of_bind_eq_ok h
      intro member hmember
      obtain ⟨entry, hentry, rfl⟩ := List.mem_map.mp hmember
      obtain ⟨_, hresult⟩ :=
        exists_ok_of_mapM_ok hmembers entry (Heap.mem_storedEntries.mpr hentry)
      obtain ⟨inner, hinner, -⟩ := exists_of_bind_eq_ok hresult
      exact ⟨inner, hinner⟩

/-- If a container is not encoded, then something in it has failed with the same error. -/
theorem exists_error_of_encodeLayer_error {container : ContainerRef}
    (h : encodeLayer order heap encodeInner container.toValue = .error failure) :
    ∃ member ∈ heap.contents container, encodeInner member = .error failure := by
  cases container with
  | array ref =>
      rcases error_of_bind_eq_error h with helements | ⟨elements, -, hpure⟩
      · exact exists_error_of_mapM_error helements
      · cases hpure
  | hash ref =>
      rcases error_of_bind_eq_error h with hmembers | ⟨members, -, hpure⟩
      · obtain ⟨entry, hentry, hresult⟩ := exists_error_of_mapM_error hmembers
        rcases error_of_bind_eq_error hresult with hinner | ⟨inner, -, hpure⟩
        · have hstored := Heap.mem_storedEntries.mp hentry
          exact ⟨entry.2, heap.mem_contents_of_mem_entries hstored, hinner⟩
        · cases hpure
      · cases hpure

/-- A value that is no container is encoded unless it has no form. -/
theorem encodeLayer_eq_error_iff {value : Value}
    (h : ∀ container : ContainerRef, value ≠ container.toValue) :
    encodeLayer order heap encodeInner value = .error failure ↔ refusal? value = some failure := by
  cases value with
  | array ref => exact absurd rfl (h (.array ref))
  | hash ref => exact absurd rfl (h (.hash ref))
  | number number => exact encodeNumber_eq_error_iff
  | function ref => simp [encodeLayer, refusal?]
  | _ => simp [encodeLayer, refusal?]

theorem isEncodable_toValue (container : ContainerRef) : container.toValue.isEncodable := by
  cases container <;> rfl

/-! ### What success says, and what an error says -/

/-- With a document, no way down is as long as the levels allowed, and each ends at a value with a
form. -/
theorem path_of_encode_ok {levels steps : Nat} {value inner : Value} {document : JsonDocument}
    (h : encode order heap levels value = .ok document) (hpath : heap.Path steps value inner) :
    steps < levels ∧ inner.isEncodable := by
  induction levels generalizing steps value document with
  | zero => cases h
  | succ levels ih =>
      rw [encode_succ] at h
      cases hpath with
      | here =>
          refine ⟨Nat.succ_pos levels, ?_⟩
          by_cases hcontainer : ∃ container : ContainerRef, inner = container.toValue
          · obtain ⟨container, rfl⟩ := hcontainer
            exact isEncodable_toValue container
          · rw [← refusal?_eq_none_iff, Option.eq_none_iff_forall_ne_some]
            intro failure hfailure
            have hne := not_exists.mp hcontainer
            rw [(encodeLayer_eq_error_iff hne).mpr hfailure] at h
            cases h
      | enter hmember hrest =>
          obtain ⟨_, hinner⟩ := exists_ok_of_encodeLayer_ok h _ hmember
          obtain ⟨hless, hform⟩ := ih hinner hrest
          exact ⟨Nat.succ_lt_succ hless, hform⟩

/-- An error is about a value on some way down: one that is too deep, or one without a form. -/
theorem path_of_encode_error {levels : Nat} {value : Value}
    (h : encode order heap levels value = .error failure) :
    (failure = tooDeep ∧ ∃ inner, heap.Path levels value inner) ∨
      ∃ steps inner, steps < levels ∧ heap.Path steps value inner ∧
        refusal? inner = some failure := by
  induction levels generalizing value with
  | zero =>
      cases h
      exact .inl ⟨rfl, value, .here value⟩
  | succ levels ih =>
      rw [encode_succ] at h
      by_cases hcontainer : ∃ container : ContainerRef, value = container.toValue
      · obtain ⟨container, rfl⟩ := hcontainer
        obtain ⟨member, hmember, hfailed⟩ := exists_error_of_encodeLayer_error h
        rcases ih hfailed with ⟨hdeep, inner, hpath⟩ | ⟨steps, inner, hless, hpath, hform⟩
        · exact .inl ⟨hdeep, inner, .enter hmember hpath⟩
        · exact .inr ⟨steps + 1, inner, Nat.succ_lt_succ hless, .enter hmember hpath, hform⟩
      · have hform := (encodeLayer_eq_error_iff (not_exists.mp hcontainer)).mp h
        exact .inr ⟨0, value, Nat.succ_pos levels, .here value, hform⟩

/-- Nothing that is encoded reaches a cycle. -/
theorem isAcyclicFrom_of_encode_ok {levels : Nat} {value : Value} {document : JsonDocument}
    (h : encode order heap levels value = .ok document) : heap.IsAcyclicFrom value := by
  induction levels generalizing value document with
  | zero => cases h
  | succ levels ih =>
      rw [encode_succ] at h
      by_cases hcontainer : ∃ container : ContainerRef, value = container.toValue
      · obtain ⟨container, rfl⟩ := hcontainer
        apply Heap.isAcyclicFrom_of_contents
        intro member hmember
        obtain ⟨_, hinner⟩ := exists_ok_of_encodeLayer_ok h member hmember
        exact ih hinner
      · exact Heap.isAcyclicFrom_of_ne (not_exists.mp hcontainer)

end JsonCodec

open Interpreter JsonCodec

/-- A call of the encoder gives a text or an error and leaves the state alone. -/
theorem Interpreter.call_encode {state : State} {function : FunctionRef} {native : Native}
    (fuel : Nat) (value : Value)
    (hcallable : state.heap.callable? function = some (.native native))
    (hoperation : native.operation = .json .encode)
    (harity : native.arity.accepts [value].length) (hdepth : state.callDepth < state.maxCallDepth) :
    (ofFuel (fuel + 1)).call (.function function) [value] state =
      .ofExcept
        ((state.heap.toJson state.world.order value).map fun document => .string document.render)
        state := by
  rw [call_native fuel hcallable harity hdepth, hoperation]
  change realized (.ofExcept ((JsonText.write state.world.order state.heap value).bind fun text =>
    .ok (LibraryResult.value (.string text))) (enterLevel state)) = _
  unfold JsonText.write
  cases state.heap.toJson state.world.order value with
  | ok document => rfl
  | error failure => rfl

/-- **Which values have a JSON form.** Encoding counts the containers that it has entered, and so
ends on every heap. It succeeds just if no value is more than `depthLimit` containers down and every
value on the way has a form, that is, is no function, not undefined and not infinite. Otherwise its
error names one of the values on the way. A value that reaches a cycle always gives an error. A call
of the encoder changes neither the heap nor anything else. -/
theorem encoding_exact (order : EntryOrder) (heap : Heap) (value : Value) :
    heap.toJson order value = encodeAt order heap 0 value ∧
    ((∃ document, heap.toJson order value = .ok document) ↔
      (∀ steps inner, heap.Path steps value inner → steps ≤ depthLimit) ∧
        ∀ steps inner, heap.Path steps value inner → inner.isEncodable) ∧
    (∀ failure, heap.toJson order value = .error failure →
      (failure = tooDeep ∧ ∃ inner, heap.Path (depthLimit + 1) value inner) ∨
        ∃ steps inner, heap.Path steps value inner ∧ refusal? inner = some failure) ∧
    (¬heap.IsAcyclicFrom value → ∃ failure, heap.toJson order value = .error failure) ∧
    ∀ (fuel : Nat) (state : State) (function : FunctionRef) (native : Native), state.heap = heap →
      state.world.order = order → heap.callable? function = some (.native native) →
      native.operation = .json .encode → native.arity.accepts 1 →
      state.callDepth < state.maxCallDepth →
        (ofFuel (fuel + 1)).call (.function function) [value] state =
          .ofExcept ((heap.toJson order value).map fun document => .string document.render)
            state := by
  have herror (failure : RuntimeError) (hfailure : heap.toJson order value = .error failure) :
      (failure = tooDeep ∧ ∃ inner, heap.Path (depthLimit + 1) value inner) ∨
        ∃ steps inner, heap.Path steps value inner ∧ refusal? inner = some failure := by
    rcases path_of_encode_error hfailure with hdeep | ⟨steps, inner, -, hpath, hform⟩
    · exact .inl hdeep
    · exact .inr ⟨steps, inner, hpath, hform⟩
  have hat : encodeAt order heap 0 = encode order heap (depthLimit + 1) :=
    encodeAt_eq_encode (Nat.zero_add (depthLimit + 1))
  refine ⟨(congrFun hat value).symm, ⟨?_, ?_⟩, herror, ?_, ?_⟩
  · rintro ⟨document, hdocument⟩
    constructor
    · intro steps inner hpath
      exact Nat.lt_succ_iff.mp (path_of_encode_ok hdocument hpath).1
    · intro steps inner hpath
      exact (path_of_encode_ok hdocument hpath).2
  · rintro ⟨hbound, hforms⟩
    cases hdocument : heap.toJson order value with
    | ok document => exact ⟨document, rfl⟩
    | error failure =>
        exfalso
        rcases herror failure hdocument with ⟨-, inner, hpath⟩ | ⟨steps, inner, hpath, hform⟩
        · exact Nat.not_succ_le_self depthLimit (hbound _ inner hpath)
        · rw [refusal?_eq_none_iff.mpr (hforms steps inner hpath)] at hform
          cases hform
  · intro hcycle
    cases hdocument : heap.toJson order value with
    | ok document => exact absurd (isAcyclicFrom_of_encode_ok hdocument) hcycle
    | error failure => exact ⟨failure, rfl⟩
  · rintro fuel state function native rfl rfl hcallable hoperation harity hdepth
    exact call_encode fuel value hcallable hoperation harity hdepth

/-- The function `json.to`, and an array that holds itself. -/
def cyclicState : State :=
  { State.blank with
    heap := ⟨#[#[.array ⟨0⟩]], #[], #[.native ⟨"json.to", .exactly 1, .json .encode⟩]⟩ }

theorem encoding_exact_cyclicState :
    ¬cyclicState.heap.IsAcyclicFrom (.array ⟨0⟩) ∧
      ∃ failure, cyclicState.heap.toJson .ascending (.array ⟨0⟩) = .error failure ∧
        (ofFuel 1).call (.function ⟨0⟩) [.array ⟨0⟩] cyclicState = .error failure cyclicState := by
  obtain ⟨-, -, -, hcycle, hcall⟩ := encoding_exact .ascending cyclicState.heap (.array ⟨0⟩)
  have hself : cyclicState.heap.Holds (.array ⟨0⟩) (.array ⟨0⟩) := List.mem_singleton_self _
  have hcyclic : ¬cyclicState.heap.IsAcyclicFrom (.array ⟨0⟩) := fun h =>
    h (.array ⟨0⟩) (Heap.reaches_self (.array ⟨0⟩)) (.single hself)
  obtain ⟨failure, hfailure⟩ := hcycle hcyclic
  refine ⟨hcyclic, failure, hfailure, ?_⟩
  rw [hcall 0 cyclicState ⟨0⟩ _ rfl rfl rfl rfl rfl (by decide), hfailure]
  rfl

end ScriptEngine
