import ScriptEngine.Execution.State
import ScriptEngine.Library.Clock
import ScriptEngine.Library.JsonText

namespace ScriptEngine

namespace Storage

def failure (function path : String) (error : FileError) : RuntimeError :=
  .host s!"{function} {path}: {error.message}"

/-- A file operation under the name of the function that asked for it. -/
def attempt {α : Type} (function path : String) (result : Except FileError α) :
    Except RuntimeError α :=
  result.mapError (failure function path)

/-- The size that every directory is said to have. -/
def directorySize : Nat := 4096

def size : FileContent → Nat
  | .directory => directorySize
  | .file bytes => bytes.size

/-- What is known about the entry at a path. -/
def status (path : String) (entry : FileEntry) : LibraryResult :=
  let isDirectory := entry.content.isDirectory
  let mode := [(.string "isdir", .boolean isDirectory),
    (.string "isregular", .boolean !isDirectory), (.string "readonly", .boolean false)]
  let modified := Clock.entries (.ofNanoseconds entry.modified) "Local"
  .hash
    [(.string "name", .string ((FileTree.fileName? path).getD path)),
      (.string "size", .ofNat (size entry.content)), (.string "isdir", .boolean isDirectory)]
    [(.string "mode", mode), (.string "modtime", modified)]

def writeText (function : String) (world : World) (path text : String) :
    Except RuntimeError FileTree :=
  attempt function path (world.files.write world.directory world.clock path text.toUTF8)

/-- The document stored at a path. If there is nothing at the path, the value is stored there and is
the result. -/
def persist (heap : Heap) (world : World) (path : String) (value : Value) :
    Except RuntimeError (LibraryResult × FileTree) := do
  if world.files.isPresent world.directory path then
    let text ← attempt "file.persist" path (world.files.readText world.directory path)
    return (.document (← JsonText.read s!"file.persist {path}" text), world.files)
  else
    let text ← JsonText.write world.order heap value
    return (.value value, ← writeText "file.persist" world path text)

/-- The world after an entry has moved. -/
def move (function : String) (world : World) (source target : String) :
    Except RuntimeError World := do
  let (files, directory) ←
    attempt function source (world.files.rename world.directory source target)
  return { world with files := files, directory := directory }

end Storage

open Storage in
/-- Applies a file function. The world changes only if it succeeds. -/
def FileOperation.apply (operation : FileOperation) (arguments : List Value) (heap : Heap)
    (world : World) : Except RuntimeError (LibraryResult × World) :=
  let files := world.files
  let directory := world.directory
  match operation with
  | persist => do
    let path ← argument Value.toText "file.persist" arguments 0
    let value ← argument .ok "file.persist" arguments 1
    let (result, files) ← Storage.persist heap world path value
    return (result, world.withFiles files)
  | read => do
    let path ← argument Value.toText "file.read" arguments 0
    let text ← attempt "file.read" path (files.readText directory path)
    return (.value (.string text), world)
  | write => do
    let path ← argument Value.toText "file.write" arguments 0
    let value ← argument .ok "file.write" arguments 1
    let files ← writeText "file.write" world path (heap.print value)
    return (.value .nil, world.withFiles files)
  | present => do
    let path ← argument Value.toText "file.exists" arguments 0
    return (.value (.boolean (files.isPresent directory path)), world)
  | remove => do
    let path ← argument Value.toText "file.remove" arguments 0
    let files ← attempt "file.remove" path (files.remove directory path)
    return (.value .nil, world.withFiles files)
  | rename => do
    let source ← argument Value.toText "file.rename" arguments 0
    let target ← argument Value.toText "file.rename" arguments 1
    return (.value .nil, ← Storage.move "file.rename" world source target)
  | stat => do
    let path ← argument Value.toText "file.stat" arguments 0
    let (_, entry) ← attempt "file.stat" path (files.lookup directory path)
    return (status path entry, world)

end ScriptEngine
