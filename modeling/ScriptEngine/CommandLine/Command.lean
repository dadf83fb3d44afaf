import ScriptEngine.CommandLine.Invocation
import ScriptEngine.Execution.Script
import ScriptEngine.Program.Outline
import ScriptEngine.Registry.Standard
import ScriptEngine.Settings.Loading

namespace ScriptEngine

namespace CommandLine

/-- What a command leaves behind. -/
structure CommandResult where
  status : Nat
  output : String
  errors : String
  world : World

namespace CommandResult

def success (world : World) (output : String) : CommandResult :=
  ⟨0, output, "", world⟩

def failure (world : World) (output errors : String) : CommandResult :=
  ⟨1, output, errors, world⟩

/-- Puts output and errors before those of a result. -/
def after (result : CommandResult) (output errors : String) : CommandResult :=
  { result with output := output ++ result.output, errors := errors ++ result.errors }

end CommandResult

def helpText : String :=
  "Clam script runner\n\n" ++
    "Usage: clam [OPTIONS] [SCRIPT] [ARGS]...\n\n" ++
    "Arguments:\n" ++
    "  [SCRIPT]   Path to the script to execute\n" ++
    "  [ARGS]...  Arguments passed through to the script as `os.args()`\n\n" ++
    "Options:\n" ++
    "      --print-tokens           Print the token stream before execution\n" ++
    "      --print-ast              Print the parsed AST before execution\n" ++
    "      --config <CONFIG>        Configuration file to use instead of the default location\n" ++
    "      --max-depth <MAX_DEPTH>  Override the maximum nested call depth\n" ++
    "      --docs                   List the host library and exit\n" ++
    "  -h, --help                   Print help\n"

/-- The status of a command whose words make no sense. -/
def misuseStatus : Nat := 2

def refuse (world : World) : Refusal → CommandResult
  | .help => .success world helpText
  | .misuse => ⟨misuseStatus, "", "error: invalid command line\n", world⟩

/-- The line that reports an error of a script. -/
def report (path : String) (error : ScriptError) : String :=
  s!"{path}: {error.render}\n"

def tokenLine (token : Token) : String :=
  s!"{token.kind.name} '{token.literal}' ({token.start.render})\n"

def tokenLines (stream : TokenStream) : String :=
  String.join (stream.tokens.map tokenLine)

def tokenErrors (path : String) (stream : TokenStream) : String :=
  (stream.failure.map fun error => report path (.ofLexical error)).getD ""

/-- The status that a system keeps of a number. -/
def shortStatus (status : Int) : Nat :=
  (status % 256).toNat

def ofFailure (path : String) (world : World) (failure : Failure) : CommandResult :=
  let status := match failure with
    | .runtime error => error.exitStatus?
    | .parse _ => none
  match status with
  | some status => ⟨shortStatus status, world.output, "", world⟩
  | none => .failure world world.output (report path failure.scriptError)

def crashed (world : World) : CommandResult :=
  .failure world "" (CommandFailure.mk "interpreter thread panicked" none).render

/-- Parses and runs a script with the standard library. -/
def execute (interpreter : Interpreter) (path source : String) (arguments : List String)
    (maxCallDepth : Nat) (world : World) : CommandResult :=
  let (registry, heap) := Registry.standard (path :: arguments) .empty
  let state := { State.initial heap world with maxCallDepth := maxCallDepth }
  match interpreter.runScript registry source state with
  | .done none state => .success state.world state.world.output
  | .done (some failure) state => ofFailure path state.world failure
  | .aborted => crashed world
  | .outOfFuel => crashed world

/-- Shows the outline of a script before it runs. A script that does not parse is not run. -/
def showOutline (path source : String) (world : World) (result : CommandResult) : CommandResult :=
  match Program.parse source with
  | .ok program => result.after (program.outline.render ++ "\n") ""
  | .error error => .failure world "" (report path (.ofParse error))

def showTokens (path source : String) (result : CommandResult) : CommandResult :=
  let stream := TokenStream.ofSource source
  result.after (tokenLines stream) (tokenErrors path stream)

def libraryListing : String :=
  let (registry, heap) := Registry.standard [] .empty
  registry.docs heap

def unreadable (path : String) (error : FileError) : CommandFailure :=
  ⟨s!"reading script {path}", some error.message⟩

def noScript : CommandFailure :=
  ⟨"no script given; pass a path or --docs", none⟩

/-- Reads the script and runs it. -/
def runScript (interpreter : Interpreter) (invocation : Invocation) (settings : Settings)
    (world : World) : Except CommandFailure CommandResult := do
  let path ← match invocation.script with
    | some path => pure path
    | none => throw noScript
  let source ← (world.files.readText world.directory path).mapError (unreadable path)
  let depth := invocation.maxCallDepth.getD settings.maxCallDepth
  let result := execute interpreter path source invocation.arguments depth world
  let result := if invocation.printsOutline then showOutline path source world result else result
  return if invocation.printsTokens then showTokens path source result else result

/-- Does what an invocation asks for. -/
def perform (interpreter : Interpreter) (invocation : Invocation) (world : World) :
    Except CommandFailure CommandResult := do
  let settings ← Settings.load world invocation.settingsPath
  if invocation.listsLibrary ∨ settings.listsLibrary then
    return .success world libraryListing
  else
    runScript interpreter invocation settings world

/-- Runs a command in a world. -/
def run (interpreter : Interpreter) (words : List String) (world : World) : CommandResult :=
  match Invocation.ofWords words with
  | .error refusal => refuse world refusal
  | .ok invocation =>
    match perform interpreter invocation world with
    | .ok result => result
    | .error failure => .failure world "" failure.render

end CommandLine

end ScriptEngine
