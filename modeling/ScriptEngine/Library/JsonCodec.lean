import ScriptEngine.Execution.RuntimeError
import ScriptEngine.Json.Reader
import ScriptEngine.Json.Writer

namespace ScriptEngine

namespace JsonCodec

/-- Values may be this many containers deep. -/
def depthLimit : Nat := 128

def greatestExactInteger : Int := 9007199254740992

def tooDeep : RuntimeError :=
  .host "json: value nests too deeply (is it cyclic?)"

def encodeNumber (number : Number) : Except RuntimeError JsonDocument :=
  match integerOf? number with
  | some integer =>
    if integer.natAbs ≤ greatestExactInteger then
      .ok (.number (.integer integer))
    else
      .ok (.number (.real number.toFloat))
  | none =>
    if number.exact.isFinite then
      .ok (.number (.real number.toFloat))
    else
      .error (.typeError s!"json: {Value.printNumber number} cannot be encoded")

/-- Encodes a value with `levels` left for it and the containers in it. The entries of a hash are
encoded in the order in which they are stored, and the last one is kept of those that print alike. -/
def encode (order : EntryOrder) (heap : Heap) : Nat → Value → Except RuntimeError JsonDocument
  | 0, _ => .error tooDeep
  | _ + 1, .nil => .ok .null
  | _ + 1, .boolean value => .ok (.boolean value)
  | _ + 1, .number value => encodeNumber value
  | _ + 1, .string value => .ok (.string value)
  | levels + 1, .array ref => do
    let elements ← (heap.items ref).toList.mapM (encode order heap levels)
    return .array elements
  | levels + 1, .hash ref => do
    let members ← (heap.storedEntries order ref).mapM fun entry => do
      return JsonMember.mk entry.1.print (← encode order heap levels entry.2)
    return .object (members.foldl (fun sorted member => member.insertInto sorted) [])
  | _ + 1, .function _ => .error (.typeError "json: functions cannot be encoded")

mutual

/-- Builds the value of a document out of new containers. -/
def decode (heap : Heap) : JsonDocument → Value × Heap
  | .null => (.nil, heap)
  | .boolean value => (.boolean value, heap)
  | .number value => (.number (.ofFloat value.toFloat), heap)
  | .string value => (.string value, heap)
  | .array elements =>
    let (items, heap) := decodeElements heap elements
    heap.newArray items.toArray
  | .object members =>
    let (entries, heap) := decodeMembers heap members
    heap.newHash (.ofList entries)

def decodeElements (heap : Heap) : List JsonDocument → List Value × Heap
  | [] => ([], heap)
  | head :: rest =>
    let (value, heap) := decode heap head
    let (values, heap) := decodeElements heap rest
    (value :: values, heap)

def decodeMembers (heap : Heap) : List JsonMember → List (Key × Value) × Heap
  | [] => ([], heap)
  | .mk name document :: rest =>
    let (value, heap) := decode heap document
    let (entries, heap) := decodeMembers heap rest
    ((.string name, value) :: entries, heap)

end

end JsonCodec

namespace Heap

/-- The document of a value. -/
def toJson (heap : Heap) (order : EntryOrder) (value : Value) : Except RuntimeError JsonDocument :=
  JsonCodec.encode order heap (JsonCodec.depthLimit + 1) value

/-- The value of a document. -/
def ofJson (heap : Heap) (document : JsonDocument) : Value × Heap :=
  JsonCodec.decode heap document

end Heap

end ScriptEngine
