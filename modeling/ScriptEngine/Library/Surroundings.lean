import ScriptEngine.Library.Storage

namespace ScriptEngine

namespace Surroundings

/-- The host that scripts are told they run on. -/
def hostName : String := "linux"

def greatestStatus : Int := 2147483647

def leastStatus : Int := -2147483648

/-- The value of an environment variable, or the empty text. -/
def environmentValue (world : World) (name : String) : String :=
  (world.environment.lookup name).getD ""

def workingDirectory (world : World) : Except RuntimeError String :=
  if world.files.isDirectory world.directory then
    .ok ("/" ++ "/".intercalate world.directory)
  else
    .error (.host s!"os.getwd: {FileError.notFound.message}")

/-- Ends the run after what was printed has reached the sink. -/
def exit (status : Int) (state : State) : Outcome LibraryResult :=
  if leastStatus ≤ status ∧ status ≤ greatestStatus then
    state.flush.andThen fun _ state => .error (.exit status) state
  else
    .error (.host s!"os.exit: status {status} is out of range") state

def changeFiles (state : State) (function path : String) (files : Except FileError FileTree) :
    Outcome LibraryResult :=
  match Storage.attempt function path files with
  | .ok files => .ok (.value .nil) (state.withFiles files)
  | .error failure => .error failure state

def moveEntry (state : State) (source target : String) : Outcome LibraryResult :=
  match Storage.move "os.mv" state.world source target with
  | .ok world => .ok (.value .nil) { state with world := world }
  | .error failure => .error failure state

/-- Makes a directory and its missing parents. Those made before a failure stay. -/
def createDirectories (state : State) (path : String) : Outcome LibraryResult :=
  let world := state.world
  match world.files.createDirectories world.directory world.clock path with
  | (files, none) => .ok (.value .nil) (state.withFiles files)
  | (files, some error) =>
    .error (Storage.failure "os.mkdir_all" path error) (state.withFiles files)

def changeDirectory (state : State) (path : String) : Outcome LibraryResult :=
  let world := state.world
  match Storage.attempt "os.chdir" path (world.files.changeDirectory world.directory path) with
  | .ok directory => .ok (.value .nil) (state.withDirectory directory)
  | .error failure => .error failure state

end Surroundings

open Surroundings in
def SystemOperation.perform (operation : SystemOperation) (arguments : List Value)
    (state : State) : Outcome LibraryResult :=
  let world := state.world
  let text (function : String) (index : Nat) : Outcome String :=
    .ofExcept (argument Value.toText function arguments index) state
  match operation with
  | args scriptArguments => .ok (.array (scriptArguments.map Value.string).toArray) state
  | env =>
    (text "os.env" 0).map fun name => .value (.string (environmentValue world name))
  | getwd =>
    (Outcome.ofExcept (workingDirectory world) state).map fun path => .value (.string path)
  | chdir =>
    (text "os.chdir" 0).andThen fun path state => changeDirectory state path
  | mkdir =>
    (text "os.mkdir" 0).andThen fun path state =>
      changeFiles state "os.mkdir" path
        (world.files.createDirectory world.directory world.clock path)
  | mkdirAll =>
    (text "os.mkdir_all" 0).andThen fun path state => createDirectories state path
  | cp =>
    (text "os.cp" 0).andThen fun source _ =>
      (text "os.cp" 1).andThen fun target state =>
        changeFiles state "os.cp" source
          (world.files.copy world.directory world.clock source target)
  | mv =>
    (text "os.mv" 0).andThen fun source _ =>
      (text "os.mv" 1).andThen fun target state =>
        moveEntry state source target
  | SystemOperation.exit =>
    (Outcome.ofExcept (argument Value.toInteger "os.exit" arguments 0) state).andThen
      Surroundings.exit

end ScriptEngine
