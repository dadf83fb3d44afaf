import ScriptEngine.Execution.RuntimeError
import ScriptEngine.Program.ParseError

namespace ScriptEngine

inductive ErrorCode
  | grammar
  | lexical
  | typeMismatch
  | invalidOperation
  | runtime
deriving DecidableEq, Repr

def ErrorCode.render : ErrorCode → String
  | grammar => "E001"
  | lexical => "E002"
  | typeMismatch => "E003"
  | invalidOperation => "E004"
  | runtime => "E005"

def ErrorKind.code : ErrorKind → ErrorCode
  | typeError => .typeMismatch
  | duplicateDefinition => .invalidOperation
  | undefinedVariable => .invalidOperation
  | indexOutOfRange => .invalidOperation
  | keyNotFound => .invalidOperation
  | arityMismatch => .invalidOperation
  | divisionByZero => .invalidOperation
  | stackOverflow => .runtime
  | returnOutsideFunction => .runtime
  | loopControlOutsideLoop => .runtime
  | host => .runtime
  | exit _ => .runtime

/-- An error as the author of a script gets to see it. -/
structure ScriptError where
  code : ErrorCode
  message : String
  position : Option Position
deriving DecidableEq, Repr

namespace ScriptError

def ofLexical (error : LexicalError) : ScriptError :=
  ⟨.lexical, error.message, some error.position⟩

def ofParse : ParseError → ScriptError
  | .lexical error => ofLexical error
  | error => ⟨.grammar, error.message, some error.position⟩

def ofRuntime (error : RuntimeError) : ScriptError :=
  ⟨error.kind.code, error.render, error.position⟩

def render (error : ScriptError) : String :=
  s!"[{error.code.render}] {error.message}"

end ScriptError

end ScriptEngine
