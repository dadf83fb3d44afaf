import ScriptEngine.Execution.RuntimeError
import ScriptEngine.Execution.Scopes
import ScriptEngine.Files.Actions

namespace ScriptEngine

/-- How the output sink behaves. -/
inductive Sink
  | working
  | failingWrite
  | failingFlush
deriving DecidableEq, Repr

/-- All that a script can see or change outside its own values: what it has printed, the files, the
working directory, the environment, the time in nanoseconds since 1970, and the order in which its
hashes store their entries. -/
structure World where
  output : String
  sink : Sink
  files : FileTree
  directory : FilePath
  environment : List (String × String)
  clock : Int
  order : EntryOrder := .ascending

def World.withFiles (world : World) (files : FileTree) : World :=
  { world with files := files }

/-- An interpreter between two steps. -/
structure State where
  scopes : Scopes
  heap : Heap
  world : World
  callDepth : Nat
  maxCallDepth : Nat

/-- How a step ends. `aborted` stands for a layout that no text can have, `outOfFuel` for a step
that was cut short. -/
inductive Outcome (α : Type)
  | ok (value : α) (state : State)
  | error (error : RuntimeError) (state : State)
  | aborted
  | outOfFuel

namespace Outcome

/-- Goes on from a successful step. -/
@[inline]
def andThen {α β : Type} (outcome : Outcome α) (next : α → State → Outcome β) : Outcome β :=
  match outcome with
  | ok value state => next value state
  | error failure state => error failure state
  | aborted => aborted
  | outOfFuel => outOfFuel

@[inline]
def map {α β : Type} (outcome : Outcome α) (transform : α → β) : Outcome β :=
  outcome.andThen fun value state => ok (transform value) state

/-- Changes the state that a step leaves behind, also when it fails. -/
@[inline]
def mapState {α : Type} (outcome : Outcome α) (change : State → State) : Outcome α :=
  match outcome with
  | ok value state => ok value (change state)
  | error failure state => error failure (change state)
  | aborted => aborted
  | outOfFuel => outOfFuel

/-- Gives an error without a position this one. -/
@[inline]
def locatedAt {α : Type} (outcome : Outcome α) (position : Position) : Outcome α :=
  match outcome with
  | error failure state => error (failure.locatedAt position) state
  | other => other

/-- A computation that leaves the state alone. -/
@[inline]
def ofExcept {α : Type} (result : Except RuntimeError α) (state : State) : Outcome α :=
  match result with
  | .ok value => ok value state
  | .error failure => error failure state

end Outcome

namespace State

def defaultMaxCallDepth : Nat := 256

def initial (heap : Heap) (world : World) : State :=
  ⟨.empty, heap, world, 0, defaultMaxCallDepth⟩

def print (state : State) (value : Value) : String :=
  state.heap.print value

def defineGlobal (state : State) (name : String) (value : Value) : State :=
  { state with scopes := state.scopes.defineGlobal name value }

def sinkClosed : RuntimeError :=
  .host "I/O failure: sink closed"

/-- Writes to the output. An empty text never reaches the sink. -/
def write (state : State) (text : String) : Outcome Unit :=
  if text.isEmpty then
    .ok () state
  else if state.world.sink = .failingWrite then
    .error sinkClosed state
  else
    .ok () { state with world := { state.world with output := state.world.output ++ text } }

def flush (state : State) : Outcome Unit :=
  if state.world.sink = .failingFlush then .error sinkClosed state else .ok () state

@[inline]
def newArray (state : State) (items : Array Value) : Outcome Value :=
  let (value, heap) := state.heap.newArray items
  .ok value { state with heap := heap }

@[inline]
def newHash (state : State) (table : Table) : Outcome Value :=
  let (value, heap) := state.heap.newHash table
  .ok value { state with heap := heap }

@[inline]
def newFunction (state : State) (callable : Callable) : Outcome Value :=
  let (value, heap) := state.heap.newFunction callable
  .ok value { state with heap := heap }

def withFiles (state : State) (files : FileTree) : State :=
  { state with world := state.world.withFiles files }

def withDirectory (state : State) (directory : FilePath) : State :=
  { state with world := { state.world with directory := directory } }

def advanceClock (state : State) (nanoseconds : Int) : State :=
  { state with world := { state.world with clock := state.world.clock + nanoseconds } }

end State

end ScriptEngine
