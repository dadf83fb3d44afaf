import ScriptEngine.Library.Storage
import ScriptEngine.Proofs.Files.Writing
import ScriptEngine.Proofs.Library.Encoding

/-!
# Which documents are read again

The text of an encoded value is read again exactly if its containers are fewer than
`JsonReader.nestingLimit` levels deep. The encoder lets through two levels more.
-/

namespace ScriptEngine

open JsonReader

namespace JsonText

variable {text : String} {document : JsonDocument}

/-- The text is valid, and reading it gives the document, also from a file that holds it. -/
structure IsAccepted (text : String) (document : JsonDocument) : Prop where
  valid (order : EntryOrder) (heap : Heap) :
    JsonOperation.validate.apply [.string text] order heap = .ok (.value (.boolean true))
  decoded (order : EntryOrder) (heap : Heap) :
    JsonOperation.decode.apply [.string text] order heap = .ok (.document document)
  loaded (heap : Heap) (world : World) (path : String) (value : Value)
    (h : world.files.readText world.directory path = .ok text) :
    FileOperation.persist.apply [.string path, value] heap world = .ok (.document document, world)

/-- The text is not valid, and reading it fails with one error, also from a file that holds it. -/
structure IsRefused (text : String) (kind : JsonErrorKind) (place : Nat) : Prop where
  valid (order : EntryOrder) (heap : Heap) :
    JsonOperation.validate.apply [.string text] order heap = .ok (.value (.boolean false))
  decoded (order : EntryOrder) (heap : Heap) :
    JsonOperation.decode.apply [.string text] order heap =
      .error (.host s!"json.from: {JsonError.message ⟨kind, place⟩ text}")
  loaded (heap : Heap) (world : World) (path : String) (value : Value)
    (h : world.files.readText world.directory path = .ok text) :
    FileOperation.persist.apply [.string path, value] heap world =
      .error (.host s!"file.persist {path}: {JsonError.message ⟨kind, place⟩ text}")

/-- A file that can be read is a document to load, whatever the value to store would be. -/
theorem persist_of_readText {heap : Heap} {world : World} {path : String} {value : Value}
    (h : world.files.readText world.directory path = .ok text) :
    FileOperation.persist.apply [.string path, value] heap world =
      (read s!"file.persist {path}" text).map fun document => (.document document, world) := by
  unfold FileOperation.apply Storage.persist Storage.attempt
  simp only [argument, List.getElem?_cons_zero, List.getElem?_cons_succ, Value.toText, bind,
    Except.bind, FileTree.isPresent_of_readText h, if_true, h, Except.mapError]
  cases read s!"file.persist {path}" text with
  | error error => rfl
  | ok document => rfl

theorem isAccepted_of_parse (h : JsonDocument.parse text = .ok document) :
    IsAccepted text document := by
  have hread (place : String) : read place text = .ok document := by rw [read, h]
  refine ⟨fun order heap => ?_, fun order heap => ?_, fun heap world path value hfile => ?_⟩
  · change Except.ok (LibraryResult.value (.boolean (JsonDocument.parse text).isOk)) = _
    rw [h]
    rfl
  · change (read "json.from" text).bind (fun document => .ok (LibraryResult.document document)) = _
    rw [hread]
    rfl
  · rw [persist_of_readText hfile, hread]
    rfl

theorem isRefused_of_parse {kind : JsonErrorKind} {place : Nat}
    (h : JsonDocument.parse text = .error ⟨kind, place⟩) : IsRefused text kind place := by
  have hread (function : String) : read function text =
      .error (.host s!"{function}: {JsonError.message ⟨kind, place⟩ text}") := by rw [read, h]
  refine ⟨fun order heap => ?_, fun order heap => ?_, fun heap world path value hfile => ?_⟩
  · change Except.ok (LibraryResult.value (.boolean (JsonDocument.parse text).isOk)) = _
    rw [h]
    rfl
  · change (read "json.from" text).bind (fun document => .ok (LibraryResult.document document)) = _
    rw [hread]
    rfl
  · rw [persist_of_readText hfile, hread]
    rfl

/-- What is stored at a path where nothing was is the text of the value. -/
theorem readText_persist {heap : Heap} {world after : World} {path : String} {value : Value}
    {result : LibraryResult} (hvalue : heap.toJson world.order value = .ok document)
    (habsent : world.files.isPresent world.directory path = false)
    (h : FileOperation.persist.apply [.string path, value] heap world = .ok (result, after)) :
    after.files.readText after.directory path = .ok document.render := by
  unfold FileOperation.apply Storage.persist Storage.writeText Storage.attempt at h
  simp only [argument, List.getElem?_cons_zero, List.getElem?_cons_succ, Value.toText, bind,
    Except.bind, habsent, Bool.false_eq_true, if_false, write, hvalue, Except.map] at h
  cases hfiles : world.files.write world.directory world.clock path document.render.toUTF8 with
  | error error =>
      rw [hfiles] at h
      cases h
  | ok files =>
      rw [hfiles] at h
      cases h
      exact FileTree.readText_write habsent hfiles

theorem exists_document_of_encode {order : EntryOrder} {heap : Heap} {value : Value}
    (h : JsonOperation.encode.apply [value] order heap = .ok (.value (.string text))) :
    ∃ document, heap.toJson order value = .ok document ∧ text = document.render := by
  have hwrite : (write order heap value).map (fun text => LibraryResult.value (.string text)) =
      .ok (.value (.string text)) := by
    rw [← h]
    unfold JsonOperation.apply
    simp only [argument, List.getElem?_cons_zero, bind, Except.bind]
    cases write order heap value with
    | error error => rfl
    | ok text => rfl
  unfold write at hwrite
  cases hvalue : heap.toJson order value with
  | error error =>
      rw [hvalue] at hwrite
      cases hwrite
  | ok document =>
      rw [hvalue] at hwrite
      cases hwrite
      exact ⟨document, rfl, rfl⟩

/-- **What is read again.** The encoder gives texts of documents with up to two levels more than are
read. Those with fewer than `nestingLimit` levels are valid and read as the same document, but for
the digits of its reals; all deeper ones are refused. What is stored in a new file is this text. -/
theorem acceptance_of_encode {order : EntryOrder} {heap : Heap} {value : Value}
    (h : JsonOperation.encode.apply [value] order heap = .ok (.value (.string text))) :
    ∃ document : JsonDocument, heap.toJson order value = .ok document ∧ text = document.render ∧
      document.depth ≤ nestingLimit + 1 ∧
      (document.depth < nestingLimit →
        ∃ read : JsonDocument, read.eraseReals = document.eraseReals ∧ IsAccepted text read) ∧
      (nestingLimit ≤ document.depth → ∃ place, IsRefused text .nestingLimit place) ∧
      ∀ world after path result, world.order = order →
        world.files.isPresent world.directory path = false →
        FileOperation.persist.apply [.string path, value] heap world = .ok (result, after) →
        after.files.readText after.directory path = .ok text := by
  obtain ⟨document, hvalue, rfl⟩ := exists_document_of_encode h
  have hencoded := JsonCodec.isEncoded_encode hvalue
  refine ⟨document, hvalue, rfl, hencoded.depth_le, fun hdepth => ?_, fun hdepth => ?_, ?_⟩
  · obtain ⟨read, hread, herase⟩ := JsonDocument.parse_render hencoded.numbers hdepth
    exact ⟨read, herase, isAccepted_of_parse hread⟩
  · obtain ⟨place, hplace⟩ := JsonDocument.parse_render_of_deep hencoded.numbers hdepth
    exact ⟨place, isRefused_of_parse hplace⟩
  · rintro world after path result rfl habsent hpersist
    exact readText_persist hvalue habsent hpersist

/-! ### Arrays in arrays -/

/-- Arrays of which each but the first holds the one before it. -/
def nestedHeap (count : Nat) : Heap :=
  ⟨(Array.range count).map fun level =>
    match level with
    | 0 => #[]
    | inner + 1 => #[.array ⟨inner⟩], #[], #[]⟩

def nestedArrays : Nat → JsonDocument
  | 0 => .array []
  | level + 1 => .array [nestedArrays level]

theorem depth_nestedArrays (level : Nat) : (nestedArrays level).depth = level + 1 := by
  induction level with
  | zero => rfl
  | succ level ih =>
      rw [nestedArrays, JsonDocument.depth, JsonDocument.depthElements, JsonDocument.depthElements,
        ih, Nat.max_zero]

theorem encode_nestedHeap {order : EntryOrder} {count level levels : Nat} (hcount : level < count)
    (hlevels : level < levels) :
    JsonCodec.encode order (nestedHeap count) levels (.array ⟨level⟩) =
      .ok (nestedArrays level) := by
  induction level generalizing levels with
  | zero =>
      obtain ⟨levels, rfl⟩ := Nat.exists_eq_add_of_lt hlevels
      have hitems : (nestedHeap count).items ⟨0⟩ = #[] := by
        simp [Heap.items, nestedHeap, hcount]
      rw [Nat.zero_add, JsonCodec.encode, hitems]
      rfl
  | succ level ih =>
      obtain ⟨levels, rfl⟩ : ∃ fewer, levels = fewer + 1 := ⟨levels - 1, by omega⟩
      have hitems : (nestedHeap count).items ⟨level + 1⟩ = #[.array ⟨level⟩] := by
        simp [Heap.items, nestedHeap, hcount]
      have hinner := @ih levels (by omega) (by omega)
      rw [JsonCodec.encode, hitems]
      change (([Value.array ⟨level⟩].mapM (JsonCodec.encode order (nestedHeap count) levels)).bind
        fun elements => .ok (JsonDocument.array elements)) = _
      rw [List.mapM_cons, hinner]
      rfl

/-- Every depth that the encoder lets through occurs. -/
theorem encode_nestedArrays (order : EntryOrder) {level : Nat} (h : level ≤ nestingLimit) :
    JsonOperation.encode.apply [.array ⟨level⟩] order (nestedHeap (level + 1)) =
      .ok (.value (.string (nestedArrays level).render)) := by
  have hlevels : level < JsonCodec.depthLimit + 1 := Nat.lt_succ_of_le h
  have hvalue : (nestedHeap (level + 1)).toJson order (.array ⟨level⟩) = .ok (nestedArrays level) :=
    encode_nestedHeap (Nat.lt_succ_self level) hlevels
  change ((write order (nestedHeap (level + 1)) (.array ⟨level⟩)).bind
    fun text => .ok (LibraryResult.value (.string text))) = _
  rw [write, hvalue]
  rfl

/-- `nestingLimit` arrays in each other are encoded, and their text is refused. -/
theorem isRefused_nestedArrays :
    JsonOperation.encode.apply [.array ⟨127⟩] .ascending (nestedHeap 128) =
        .ok (.value (.string (nestedArrays 127).render)) ∧
      ∃ place, IsRefused (nestedArrays 127).render .nestingLimit place := by
  have hencode := encode_nestedArrays .ascending (show 127 ≤ nestingLimit by decide)
  obtain ⟨document, hvalue, _, _, _, hrefused, _⟩ := acceptance_of_encode hencode
  have hnested : (nestedHeap 128).toJson .ascending (.array ⟨127⟩) = .ok (nestedArrays 127) :=
    encode_nestedHeap (by decide) (by decide)
  rw [hnested] at hvalue
  obtain rfl : nestedArrays 127 = document := Except.ok.inj hvalue
  exact ⟨hencode, hrefused (by rw [depth_nestedArrays]; decide)⟩

end JsonText

end ScriptEngine
