import ScriptEngine.Library.JsonCodec

namespace ScriptEngine

/-- What a library function gives back: a value that exists already, or what new containers are to
hold. A new hash may have further hashes in it. -/
inductive LibraryResult
  | value (value : Value)
  | array (items : Array Value)
  | taken (value : Value) (left : Array Value)
  | hash (entries : List (Key × Value)) (inner : List (Key × List (Key × Value)))
  | document (document : JsonDocument)

namespace Heap

/-- Makes a hash for each list of entries. -/
def newHashes (heap : Heap) : List (Key × List (Key × Value)) → List (Key × Value) × Heap
  | [] => ([], heap)
  | (key, entries) :: rest =>
    let (value, heap) := heap.newHash (.ofList entries)
    let (values, heap) := heap.newHashes rest
    ((key, value) :: values, heap)

/-- Makes the containers of a result. A value taken from an array comes in a new array, together
with a new array of what was left. -/
def realize (heap : Heap) : LibraryResult → Value × Heap
  | .value value => (value, heap)
  | .array items => heap.newArray items
  | .taken value left =>
    let (rest, heap) := heap.newArray left
    heap.newArray #[value, rest]
  | .hash entries inner =>
    let (hashes, heap) := heap.newHashes inner
    heap.newHash (.ofList (entries ++ hashes))
  | .document document => heap.ofJson document

end Heap

end ScriptEngine
