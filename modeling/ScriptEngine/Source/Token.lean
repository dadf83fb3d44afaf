import ScriptEngine.Source.Position

namespace ScriptEngine

inductive TokenKind
  | identifier
  | number
  | string
  | kwTrue
  | kwFalse
  | kwNil
  | kwMy
  | kwSub
  | kwWhen
  | kwCase
  | kwIf
  | kwUnless
  | kwElse
  | kwWhile
  | kwFor
  | kwIn
  | kwUntil
  | kwDo
  | kwReturn
  | kwInc
  | kwDec
  | kwBy
  | kwBreak
  | kwNext
  | plus
  | minus
  | star
  | slash
  | percent
  | and
  | or
  | not
  | equalEqual
  | notEqual
  | less
  | lessEqual
  | greater
  | greaterEqual
  | equal
  | comma
  | colon
  | semicolon
  | leftParen
  | rightParen
  | leftBrace
  | rightBrace
  | leftBracket
  | rightBracket
  | dot
  | endOfInput
deriving DecidableEq, Repr, Inhabited

namespace TokenKind

/-- The name under which a token listing shows the kind. -/
def name : TokenKind → String
  | identifier => "Identifier"
  | number => "Number"
  | string => "String"
  | kwTrue => "True"
  | kwFalse => "False"
  | kwNil => "Nil"
  | kwMy => "My"
  | kwSub => "Sub"
  | kwWhen => "When"
  | kwCase => "Case"
  | kwIf => "If"
  | kwUnless => "Unless"
  | kwElse => "Else"
  | kwWhile => "While"
  | kwFor => "For"
  | kwIn => "In"
  | kwUntil => "Until"
  | kwDo => "Do"
  | kwReturn => "Return"
  | kwInc => "Inc"
  | kwDec => "Dec"
  | kwBy => "By"
  | kwBreak => "Break"
  | kwNext => "Next"
  | plus => "Plus"
  | minus => "Minus"
  | star => "Star"
  | slash => "Slash"
  | percent => "Percent"
  | and => "And"
  | or => "Or"
  | not => "Not"
  | equalEqual => "EqualEqual"
  | notEqual => "NotEqual"
  | less => "Less"
  | lessEqual => "LessEqual"
  | greater => "Greater"
  | greaterEqual => "GreaterEqual"
  | equal => "Equal"
  | comma => "Comma"
  | colon => "Colon"
  | semicolon => "Semicolon"
  | leftParen => "LeftParen"
  | rightParen => "RightParen"
  | leftBrace => "LeftBrace"
  | rightBrace => "RightBrace"
  | leftBracket => "LeftBracket"
  | rightBracket => "RightBracket"
  | dot => "Dot"
  | endOfInput => "Eof"

/-- The wording of the kind in messages to the author of a script. -/
def describe : TokenKind → String
  | identifier => "identifier"
  | number => "number"
  | string => "string"
  | kwTrue => "'true'"
  | kwFalse => "'false'"
  | kwNil => "'nil'"
  | kwMy => "'my'"
  | kwSub => "'sub'"
  | kwWhen => "'when'"
  | kwCase => "'case'"
  | kwIf => "'if'"
  | kwUnless => "'unless'"
  | kwElse => "'else'"
  | kwWhile => "'while'"
  | kwFor => "'for'"
  | kwIn => "'in'"
  | kwUntil => "'until'"
  | kwDo => "'do'"
  | kwReturn => "'return'"
  | kwInc => "'inc'"
  | kwDec => "'dec'"
  | kwBy => "'by'"
  | kwBreak => "'break'"
  | kwNext => "'next'"
  | plus => "'+'"
  | minus => "'-'"
  | star => "'*'"
  | slash => "'/'"
  | percent => "'%'"
  | and => "'&'"
  | or => "'|'"
  | not => "'!'"
  | equalEqual => "'=='"
  | notEqual => "'!='"
  | less => "'<'"
  | lessEqual => "'<='"
  | greater => "'>'"
  | greaterEqual => "'>='"
  | equal => "'='"
  | comma => "','"
  | colon => "':'"
  | semicolon => "';'"
  | leftParen => "'('"
  | rightParen => "')'"
  | leftBrace => "'\x7b'"
  | rightBrace => "'\x7d'"
  | leftBracket => "'['"
  | rightBracket => "']'"
  | dot => "'.'"
  | endOfInput => "end of input"

/-- The kind of a word: a keyword, or an identifier if it is no keyword. -/
def ofWord (word : String) : TokenKind :=
  match word with
  | "my" => kwMy
  | "sub" => kwSub
  | "when" => kwWhen
  | "case" => kwCase
  | "if" => kwIf
  | "unless" => kwUnless
  | "else" => kwElse
  | "while" => kwWhile
  | "for" => kwFor
  | "in" => kwIn
  | "until" => kwUntil
  | "do" => kwDo
  | "return" => kwReturn
  | "true" => kwTrue
  | "false" => kwFalse
  | "nil" => kwNil
  | "inc" => kwInc
  | "dec" => kwDec
  | "by" => kwBy
  | "break" => kwBreak
  | "next" => kwNext
  | _ => identifier

end TokenKind

/-- A lexical unit. The literal of a string is its text after escape substitution, that of any other
token its spelling; `stop` is the place right after the last character. -/
structure Token where
  kind : TokenKind
  literal : String
  start : Position
  stop : Position
deriving DecidableEq, Repr, Inhabited

namespace Token

def isFractional (token : Token) : Bool :=
  token.kind == .number && token.literal.contains '.'

/-- One line of a token listing. -/
def render (token : Token) : String :=
  s!"{token.kind.name} '{token.literal}' ({token.start.render})"

end Token

end ScriptEngine
