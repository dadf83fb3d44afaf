import ScriptEngine.Source.Lexer

namespace ScriptEngine

/-- Why a text is no program. `exhausted` stands for a search that was cut short and says nothing
about the text. -/
inductive ParseError
  | unexpected (expected : String) (found : TokenKind) (literal : String) (position : Position)
  | invalidTarget (position : Position)
  | invalidLoopVariable (position : Position)
  | invalidNumber (literal : String) (position : Position)
  | nestingTooDeep (limit : Nat) (position : Position)
  | lexical (error : LexicalError)
  | exhausted (position : Position)
deriving DecidableEq, Repr

namespace ParseError

def position : ParseError → Position
  | unexpected _ _ _ position => position
  | invalidTarget position => position
  | invalidLoopVariable position => position
  | invalidNumber _ position => position
  | nestingTooDeep _ position => position
  | lexical error => error.position
  | exhausted position => position

def describeFound (found : TokenKind) (literal : String) : String :=
  match found with
  | .identifier => s!"{found.describe} '{literal}'"
  | .number => s!"{found.describe} '{literal}'"
  | .string => s!"{found.describe} \"{literal}\""
  | _ => found.describe

def message : ParseError → String
  | unexpected expected found literal position =>
    s!"expected {expected} but found {describeFound found literal} at {position.render}"
  | invalidTarget position => s!"invalid assignment target at {position.render}"
  | invalidLoopVariable position => s!"loop variable must be a plain name at {position.render}"
  | invalidNumber literal position => s!"invalid number literal '{literal}' at {position.render}"
  | nestingTooDeep limit position =>
    s!"nesting deeper than {limit} levels at {position.render}"
  | lexical error => error.message
  | exhausted position => s!"parsing stopped at {position.render}"

end ParseError

end ScriptEngine
