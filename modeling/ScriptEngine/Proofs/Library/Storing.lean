import ScriptEngine.Proofs.Execution.Callbacks
import ScriptEngine.Proofs.Library.Persistence
import ScriptEngine.Proofs.Library.Results
import ScriptEngine.Proofs.Library.RoundTrip

/-!
# Storing a value once

The first call of `file.persist` at a path where nothing is stores a value, and all later ones load
it. A call writes only where nothing was, and only after the value has been encoded, so a call at a
path where something is, or with a value that has no JSON form, leaves every file as it was.
-/

namespace ScriptEngine

open Interpreter

namespace State

/-- What a call of `file.persist` gives. -/
def persist (state : State) (path : String) (value : Value) : Outcome Value :=
  (state.applyFile .persist [.string path, value]).andThen fun result state => state.realize result

/-- What is read at a path. -/
def text (state : State) (path : String) : Except FileError String :=
  state.world.files.readText state.world.directory path

def isPresent (state : State) (path : String) : Bool :=
  state.world.files.isPresent state.world.directory path

variable {state after : State} {path : String} {value : Value}

theorem persist_eq_match (state : State) (path : String) (value : Value) :
    state.persist path value =
      match Storage.persist state.heap state.world path value with
      | .error failure => .error failure state
      | .ok (result, files) => (state.withFiles files).realize result := by
  have happly : FileOperation.persist.apply [.string path, value] state.heap state.world =
      (Storage.persist state.heap state.world path value).bind fun result =>
        .ok (result.1, state.world.withFiles result.2) := rfl
  rw [persist, applyFile, happly]
  cases Storage.persist state.heap state.world path value <;> rfl

/-- Something is at the path. It is read, whatever the value, and nothing is written. -/
theorem persist_of_isPresent (h : state.isPresent path) (value : Value) :
    state.persist path value =
      match (Storage.attempt "file.persist" path (state.text path)).bind
        (JsonText.read s!"file.persist {path}") with
      | .error failure => .error failure state
      | .ok document => state.realize (.document document) := by
  unfold isPresent at h
  rw [persist_eq_match, Storage.persist, if_pos h, ← text]
  cases Storage.attempt "file.persist" path (state.text path) with
  | error failure => rfl
  | ok text =>
      rw [ok_bind, Except.bind]
      cases JsonText.read s!"file.persist {path}" text <;> rfl

/-- Nothing is at the path. The value is encoded, and then it is stored. -/
theorem persist_of_absent (h : state.isPresent path = false) (value : Value) :
    state.persist path value =
      match state.heap.toJson state.world.order value with
      | .error failure => .error failure state
      | .ok document =>
        match state.world.files.write state.world.directory state.world.clock path
          document.render.toUTF8 with
        | .error error => .error (Storage.failure "file.persist" path error) state
        | .ok files => .ok value (state.withFiles files) := by
  unfold isPresent at h
  rw [persist_eq_match, Storage.persist, if_neg (Bool.eq_false_iff.mp h), JsonText.write]
  cases state.heap.toJson state.world.order value with
  | error failure => rfl
  | ok document =>
      rw [Except.map, ok_bind, Storage.writeText, Storage.attempt]
      dsimp only
      cases state.world.files.write state.world.directory state.world.clock path
        document.render.toUTF8 <;> rfl

/-- A call that fails leaves everything as it was. -/
theorem eq_of_persist_error {failure : RuntimeError}
    (h : state.persist path value = .error failure after) : after = state := by
  rw [persist_eq_match] at h
  split at h
  · cases h
    rfl
  · cases h

/-- What is at a path stays as it is. -/
theorem exists_of_isPresent (h : state.isPresent path) (value : Value) :
    ∃ after, (state.persist path value).state? = some after ∧ after.world = state.world := by
  rw [persist_of_isPresent h]
  split
  · exact ⟨state, rfl, rfl⟩
  · exact ⟨_, rfl, rfl⟩

/-- A value that is stored has been encoded, and its text is at the path. -/
theorem exists_of_persist {result : Value} (habsent : state.isPresent path = false)
    (h : state.persist path value = .ok result after) :
    ∃ document, state.heap.toJson state.world.order value = .ok document ∧ result = value ∧
      after.text path = .ok document.render := by
  rw [persist_of_absent habsent] at h
  cases hdocument : state.heap.toJson state.world.order value with
  | error failure =>
      rw [hdocument] at h
      cases h
  | ok document =>
      rw [hdocument] at h
      dsimp only at h
      split at h
      · cases h
      · next files hfiles =>
          cases h
          exact ⟨document, rfl, rfl, FileTree.readText_write habsent hfiles⟩

/-- Where the text of a document can be read, the document is loaded, whatever the value. -/
theorem persist_of_text {text : String} {document : JsonDocument} (h : state.text path = .ok text)
    (hdocument : JsonDocument.parse text = .ok document) (value : Value) :
    state.persist path value = state.realize (.document document) := by
  have hread : (Storage.attempt "file.persist" path (state.text path)).bind
      (JsonText.read s!"file.persist {path}") = .ok document := by
    rw [h]
    change JsonText.read s!"file.persist {path}" text = .ok document
    rw [JsonText.read, hdocument]
  rw [persist_of_isPresent (FileTree.isPresent_of_readText h), hread]

/-- States that come after each other while nothing but calls of `file.persist` writes to a path. -/
inductive Keeps (start : State) (path : String) : State → Prop
  | refl : Keeps start path start
  | persist {middle after : State} (h : Keeps start path middle) (value : Value)
      (hend : (middle.persist path value).state? = some after) : Keeps start path after
  | other {middle after : State} (h : Keeps start path middle)
      (hsame : after.text path = middle.text path) : Keeps start path after

/-- What can be read at a path at the start can be read there later. -/
theorem Keeps.text_eq {start : State} (h : Keeps start path after) {text : String}
    (hstart : start.text path = .ok text) : after.text path = .ok text := by
  induction h with
  | refl => exact hstart
  | persist _ value hend ih =>
      -- What can be read is there, so that the call loads it.
      have hpresent := FileTree.isPresent_of_readText ih
      obtain ⟨found, hfound, hworld⟩ := exists_of_isPresent hpresent value
      obtain rfl := Option.some.inj (hfound.symm.trans hend)
      rw [State.text, hworld]
      exact ih
  | other _ hsame ih => exact hsame.trans ih

/-- The text of a value that JSON can carry is read as the document of the value. -/
theorem exists_document_of_isPortable {heap : Heap} (order : EntryOrder)
    (h : heap.IsPortable 127 value) :
    ∃ document, heap.toJson order value = .ok document ∧
      JsonDocument.parse document.render = .ok document ∧
      JsonCodec.Carries heap 127 value document := by
  have hmore : 127 < JsonCodec.depthLimit + 1 := by decide
  obtain ⟨document, hdocument, hcarries⟩ := JsonCodec.exists_encode h hmore
  have hnumbers := (JsonCodec.isEncoded_encode hdocument).numbers
  have hdepth : document.depth < JsonReader.nestingLimit := Nat.lt_succ_of_le hcarries.depth_le
  obtain ⟨read, hread, herase⟩ := JsonDocument.parse_render hnumbers hdepth
  obtain rfl := JsonDocument.eq_of_eraseReals_eq document hcarries.numbers read herase
  exact ⟨read, hdocument, hread, hcarries⟩

/-- A value that JSON can carry comes back from the path where it was stored. -/
theorem exists_text_of_persist {first start : State} {result : Value}
    (habsent : first.isPresent path = false) (hportable : first.heap.IsPortable 127 value)
    (hstart : first.persist path value = .ok result start) :
    ∃ text, start.text path = .ok text ∧ ∀ later, start.Keeps path later →
      later.text path = .ok text ∧ ∀ other, ∃ copy after,
        later.persist path other = .ok copy after ∧ after.world = later.world ∧
          first.heap.Alike after.heap value copy := by
  obtain ⟨document, hdocument, hparse, hcarries⟩ := exists_document_of_isPortable _ hportable
  obtain ⟨stored, hstored, -, htext⟩ := exists_of_persist habsent hstart
  obtain rfl := Except.ok.inj (hdocument.symm.trans hstored)
  refine ⟨document.render, htext, fun later hlater => ?_⟩
  have hlaterText := hlater.text_eq htext
  refine ⟨hlaterText, fun other => ⟨_, _, persist_of_text hlaterText hparse other, rfl, ?_⟩⟩
  exact hcarries.alike later.heap

end State

/-- A call from a script gives the same. -/
theorem Interpreter.call_persist {state : State} {function : FunctionRef} {native : Native}
    (fuel : Nat) (path : String) (value : Value)
    (hcallable : state.heap.callable? function = some (.native native))
    (hoperation : native.operation = .file .persist)
    (harity : native.arity.accepts 2) (hdepth : state.callDepth < state.maxCallDepth) :
    (ofFuel (fuel + 1)).call (.function function) [.string path, value] state =
      state.persist path value := by
  have haccepts : native.arity.accepts [Value.string path, value].length := harity
  rw [call_native fuel hcallable haccepts hdepth, hoperation]
  change ((enterLevel state).persist path value).mapState leaveLevel = _
  have hsame : Storage.persist (enterLevel state).heap (enterLevel state).world path value =
      Storage.persist state.heap state.world path value := rfl
  rw [State.persist_eq_match, State.persist_eq_match, hsame]
  cases Storage.persist state.heap state.world path value <;> rfl

/-- **A value is stored once and loaded from then on.** A call of `file.persist` at a path where
something is changes no file. At any other path the value is stored and given back if it has a JSON
form and the file can be written, and a call that fails leaves everything as it was. Once a value
that JSON can carry has been stored at a path where nothing was, then as long as nothing else writes
there, every call with that path, and whatever value, gives a value of the same structure and leaves
the text at the path. -/
theorem persist_stores_once (path : String) :
    (∀ (state : State) value, state.isPresent path →
      ∃ after, (state.persist path value).state? = some after ∧ after.world = state.world) ∧
    (∀ (state : State) value failure, state.isPresent path = false →
      state.heap.toJson state.world.order value = .error failure →
        state.persist path value = .error failure state) ∧
    (∀ (state : State) value document files, state.isPresent path = false →
      state.heap.toJson state.world.order value = .ok document →
      state.world.files.write state.world.directory state.world.clock path
        document.render.toUTF8 = .ok files →
        state.persist path value = .ok value (state.withFiles files)) ∧
    (∀ (state : State) value failure after, state.persist path value = .error failure after →
      after = state) ∧
    (∀ (first : State) value result start, first.isPresent path = false →
      first.heap.IsPortable 127 value → first.persist path value = .ok result start →
        result = value ∧ ∃ text, start.text path = .ok text ∧
          ∀ later, start.Keeps path later → later.text path = .ok text ∧
            ∀ other, ∃ copy after, later.persist path other = .ok copy after ∧
              after.world = later.world ∧ first.heap.Alike after.heap value copy) ∧
    ∀ (fuel : Nat) (state : State) (function : FunctionRef) (native : Native) (value : Value),
      state.heap.callable? function = some (.native native) →
        native.operation = .file .persist → native.arity.accepts 2 →
        state.callDepth < state.maxCallDepth →
          (ofFuel (fuel + 1)).call (.function function) [.string path, value] state =
            state.persist path value := by
  refine ⟨fun state value hpresent => State.exists_of_isPresent hpresent value,
    fun state value failure habsent hfailure => ?_,
    fun state value document files habsent hdocument hfiles => ?_,
    fun state value failure after herror => State.eq_of_persist_error herror,
    fun first value result start habsent hportable hstart => ⟨?_, ?_⟩,
    fun fuel state function native value hcallable hoperation harity hdepth => ?_⟩
  · rw [State.persist_of_absent habsent, hfailure]
  · rw [State.persist_of_absent habsent, hdocument]
    dsimp only
    rw [hfiles]
  · obtain ⟨document, -, hresult, -⟩ := State.exists_of_persist habsent hstart
    exact hresult
  · exact State.exists_text_of_persist habsent hportable hstart
  · exact call_persist fuel path value hcallable hoperation harity hdepth

/-- The function `file.persist`, and nothing at the path `"a"`. -/
def emptyStore : State :=
  { State.blank with
    heap := ⟨#[#[.string "kept"]], #[], #[.native ⟨"file.persist", .exactly 2, .file .persist⟩]⟩ }

theorem persist_stores_once_emptyStore :
    emptyStore.isPresent "a" = false ∧ emptyStore.heap.IsPortable 127 (.array ⟨0⟩) ∧
      ∃ start, emptyStore.persist "a" (.array ⟨0⟩) = .ok (.array ⟨0⟩) start ∧
        ∃ copy after, (ofFuel 1).call (.function ⟨0⟩) [.string "a", .nil] start =
          .ok copy after ∧ emptyStore.heap.Alike after.heap (.array ⟨0⟩) copy := by
  obtain ⟨-, -, hfirst, -, hlater, hcall⟩ := persist_stores_once "a"
  have habsent : emptyStore.isPresent "a" = false := by cbv
  have hportable : emptyStore.heap.IsPortable 127 (.array ⟨0⟩) := by
    intro item hitem
    rw [List.mem_singleton.mp hitem]
    trivial
  have hwritable : emptyStore.world.files.writable emptyStore.world.directory "a" = .ok ["a"] := by
    cbv
  obtain ⟨document, hdocument, -, -⟩ :=
    State.exists_document_of_isPortable emptyStore.world.order hportable
  obtain ⟨files, hfiles⟩ : ∃ files, emptyStore.world.files.write emptyStore.world.directory
      emptyStore.world.clock "a" document.render.toUTF8 = .ok files := by
    rw [FileTree.write, hwritable, ok_bind]
    exact ⟨_, rfl⟩
  have hstart := hfirst emptyStore _ document files habsent hdocument hfiles
  obtain ⟨-, text, -, hloads⟩ := hlater emptyStore _ _ _ habsent hportable hstart
  obtain ⟨copy, after, hcopy, -, halike⟩ := (hloads _ .refl).2 .nil
  have hdepth : emptyStore.callDepth < emptyStore.maxCallDepth := by decide
  refine ⟨habsent, hportable, _, hstart, copy, after, ?_, halike⟩
  rw [← hcopy]
  exact hcall 0 _ ⟨0⟩ _ .nil rfl rfl rfl hdepth

end ScriptEngine
