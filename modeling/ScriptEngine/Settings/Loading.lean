import ScriptEngine.Execution.State
import ScriptEngine.Settings.Basic

namespace ScriptEngine

/-- Why a command failed before a script ran: what was being done, and what went wrong with it. -/
structure CommandFailure where
  message : String
  cause : Option String
deriving DecidableEq, Repr

/-- The text of a failure with its cause. -/
def CommandFailure.render (failure : CommandFailure) : String :=
  match failure.cause with
  | none => s!"Error: {failure.message}\n"
  | some cause => s!"Error: {failure.message}\n\nCaused by:\n    {cause}\n"

namespace Settings

def unreadable (path : String) (error : FileError) : CommandFailure :=
  ⟨s!"reading configuration from {path}", some error.message⟩

def malformed (path : String) : CommandFailure :=
  ⟨s!"parsing configuration {path}", some "malformed settings"⟩

/-- Reads the settings in a file. -/
def ofFile (world : World) (path : String) : Except CommandFailure Settings := do
  let text ← (world.files.readText world.directory path).mapError (unreadable path)
  match parse? text with
  | some settings => return settings
  | none => throw (malformed path)

/-- The directory with the settings of all programs, if the environment names one. -/
def directory? (environment : List (String × String)) : Option String :=
  let named := (environment.lookup "XDG_CONFIG_HOME").filter fun path => path.startsWith "/"
  let home := (environment.lookup "HOME").filter fun path => !path.isEmpty
  named <|> home.map fun path => path ++ "/.config"

def defaultPath? (environment : List (String × String)) : Option String :=
  (directory? environment).map fun path => path ++ "/clam/clam.toml"

/-- Loads the settings from a given file, or from the usual place if there is a file, or takes the
defaults. -/
def load (world : World) (path : Option String) : Except CommandFailure Settings :=
  match path, defaultPath? world.environment with
  | some path, _ => ofFile world path
  | none, some path =>
    if world.files.isPresent world.directory path then ofFile world path else .ok standard
  | none, none => .ok standard

end Settings

end ScriptEngine
