import ScriptEngine.Toml.Document
import ScriptEngine.Toml.Writer

namespace ScriptEngine

/-- How the command line runs scripts. -/
structure Settings where
  maxCallDepth : Nat
  stackMegabytes : Nat
  logLevel : String
  listsLibrary : Bool
deriving DecidableEq, Repr

namespace Settings

def standard : Settings :=
  ⟨1000, 256, "warn", false⟩

/-- The value of a key, or the default if the key is missing. A value of another kind is refused. -/
def read {α : Type} (entries : TomlEntries) (key : String) (default : α)
    (accept : TomlValue → Option α) : Option α :=
  match entries.find? key with
  | none => some default
  | some (.value value) => accept value
  | some _ => none

def acceptCount : TomlValue → Option Nat
  | .integer value => if 0 ≤ value then some value.toNat else none
  | _ => none

def acceptText : TomlValue → Option String
  | .string value => some value
  | _ => none

def acceptFlag : TomlValue → Option Bool
  | .boolean value => some value
  | _ => none

/-- The settings that a text gives. Keys that it leaves out have their defaults, and keys that are
no settings do not count. -/
def parse? (text : String) : Option Settings := do
  let entries ← Toml.parse? text
  let maxCallDepth ← read entries "max_call_depth" standard.maxCallDepth acceptCount
  let stackMegabytes ← read entries "stack_size_mb" standard.stackMegabytes acceptCount
  let logLevel ← read entries "log_level" standard.logLevel acceptText
  let listsLibrary ← read entries "print_docs" standard.listsLibrary acceptFlag
  return ⟨maxCallDepth, stackMegabytes, logLevel, listsLibrary⟩

/-- The text of all settings. -/
def render (settings : Settings) : String :=
  let flag := if settings.listsLibrary then "true" else "false"
  s!"max_call_depth = {settings.maxCallDepth}\n" ++
    s!"stack_size_mb = {settings.stackMegabytes}\n" ++
    s!"log_level = {Toml.writeString settings.logLevel}\n" ++
    s!"print_docs = {flag}\n"

end Settings

end ScriptEngine
