import ScriptEngine.Value.Basic

namespace ScriptEngine

/-- The names of one scope with their values. -/
abbrev Frame := List (String × Value)

namespace Frame

def find? (frame : Frame) (name : String) : Option Value :=
  List.lookup name frame

def contains (frame : Frame) (name : String) : Bool :=
  (frame.find? name).isSome

/-- Gives a bound name another value. -/
def update (frame : Frame) (name : String) (value : Value) : Frame :=
  frame.map fun binding => if binding.1 == name then (name, value) else binding

/-- Binds a name, in place of an earlier binding of it. -/
def bind (frame : Frame) (name : String) (value : Value) : Frame :=
  if frame.contains name then frame.update name value else (name, value) :: frame

/-- A frame with the given bindings. Of two bindings of a name the later one counts. -/
def ofList (bindings : List (String × Value)) : Frame :=
  bindings.foldl (fun frame binding => frame.bind binding.1 binding.2) []

end Frame

/-- The global frame and the local frames of the active call, innermost first. At top level there
are none. -/
structure Scopes where
  globals : Frame
  locals : List Frame
deriving Inhabited

namespace Scopes

def empty : Scopes :=
  ⟨[], []⟩

def depth (scopes : Scopes) : Nat :=
  1 + scopes.locals.length

def global? (scopes : Scopes) (name : String) : Option Value :=
  scopes.globals.find? name

def defineGlobal (scopes : Scopes) (name : String) (value : Value) : Scopes :=
  { scopes with globals := scopes.globals.bind name value }

def isDeclaredHere (scopes : Scopes) (name : String) : Bool :=
  match scopes.locals with
  | frame :: _ => frame.contains name
  | [] => scopes.globals.contains name

/-- Binds a name in the innermost frame, in place of an earlier binding there. -/
def bind (scopes : Scopes) (name : String) (value : Value) : Scopes :=
  match scopes.locals with
  | frame :: outer => { scopes with locals := frame.bind name value :: outer }
  | [] => scopes.defineGlobal name value

/-- Adds a name to the innermost frame, unless it is there already. -/
def declare? (scopes : Scopes) (name : String) (value : Value) : Option Scopes :=
  if scopes.isDeclaredHere name then none else some (scopes.bind name value)

/-- The value of a name, sought from the innermost frame outwards. -/
def lookup? (scopes : Scopes) (name : String) : Option Value :=
  scopes.locals.findSome? (fun frame => frame.find? name) <|> scopes.global? name

/-- Gives a name another value in the innermost of the frames that have it. -/
def assignIn (name : String) (value : Value) : List Frame → Option (List Frame)
  | [] => none
  | frame :: outer =>
    if frame.contains name then
      some (frame.update name value :: outer)
    else
      (assignIn name value outer).map fun outer => frame :: outer

/-- Gives a name another value in the frame where it is found. -/
def assign? (scopes : Scopes) (name : String) (value : Value) : Option Scopes :=
  match assignIn name value scopes.locals with
  | some locals => some { scopes with locals := locals }
  | none =>
    if scopes.globals.contains name then
      some { scopes with globals := scopes.globals.update name value }
    else
      none

/-- The scopes of a call: the globals and one fresh frame. The frames of the caller come back with
`restore`. -/
def enterCall (scopes : Scopes) (frame : Frame) : Scopes × List Frame :=
  ({ scopes with locals := [frame] }, scopes.locals)

def restore (scopes : Scopes) (saved : List Frame) : Scopes :=
  { scopes with locals := saved }

end Scopes

end ScriptEngine
