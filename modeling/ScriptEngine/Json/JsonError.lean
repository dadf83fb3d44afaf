namespace ScriptEngine

inductive JsonErrorKind
  | endInValue
  | endInList
  | endInObject
  | endInString
  | expectedValue
  | expectedIdent
  | expectedColon
  | expectedListComma
  | expectedObjectComma
  | keyNotString
  | trailingComma
  | trailingCharacters
  | invalidNumber
  | numberOutOfRange
  | invalidEscape
  | unfinishedSurrogatePair
  | loneSurrogate
  | controlCharacter
  | nestingLimit
  | exhausted
deriving DecidableEq, Repr

def JsonErrorKind.message : JsonErrorKind → String
  | endInValue => "EOF while parsing a value"
  | endInList => "EOF while parsing a list"
  | endInObject => "EOF while parsing an object"
  | endInString => "EOF while parsing a string"
  | expectedValue => "expected value"
  | expectedIdent => "expected ident"
  | expectedColon => "expected `:`"
  | expectedListComma => "expected `,` or `]`"
  | expectedObjectComma => "expected `,` or `\x7d`"
  | keyNotString => "key must be a string"
  | trailingComma => "trailing comma"
  | trailingCharacters => "trailing characters"
  | invalidNumber => "invalid number"
  | numberOutOfRange => "number out of range"
  | invalidEscape => "invalid escape"
  | unfinishedSurrogatePair => "unexpected end of hex escape"
  | loneSurrogate => "lone leading surrogate in hex escape"
  | controlCharacter => "control character (\\u0000-\\u001F) found while parsing a string"
  | nestingLimit => "recursion limit exceeded"
  | exhausted => "reading stopped"

/-- Why a text is no document, and how many bytes of it count as read. -/
structure JsonError where
  kind : JsonErrorKind
  offset : Nat
deriving DecidableEq, Repr

/-- The line of an offset in a text, and the bytes between the start of that line and the offset. -/
def lineAndColumn (text : String) (offset : Nat) : Nat × Nat :=
  let read := text.toUTF8.toList.take offset
  let onLine := read.reverse.takeWhile (· != 10)
  (1 + read.count 10, onLine.length)

def JsonError.message (error : JsonError) (text : String) : String :=
  let (line, column) := lineAndColumn text error.offset
  s!"{error.kind.message} at line {line} column {column}"

end ScriptEngine
