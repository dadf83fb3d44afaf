import ScriptEngine.Toml.Text

namespace ScriptEngine

namespace Toml

/-- The longest run of single quotes in a text, where `current` are open before it. -/
def longestQuoteRun (current : Nat) : List Char → Nat
  | [] => current
  | character :: rest =>
    if character = '\'' then
      longestQuoteRun (current + 1) rest
    else
      max current (longestQuoteRun 0 rest)

/-- Whether a text is better written in single quotes, where nothing is escaped: it has something
that would be escaped, and nothing that single quotes cannot hold. -/
def prefersLiteral (text : List Char) : Bool :=
  text.any (fun character => character == '"' || character == '\\') &&
    text.all (fun character => isPrintable character || character == '\n') &&
    longestQuoteRun 0 text < 3 && text.getLast? != some '\''

def hexPlaces (count code : Nat) : String :=
  let digits := (Nat.toDigits 16 code).map Char.toUpper
  String.ofList (List.replicate (count - digits.length) '0' ++ digits)

/-- A character between double quotes. A line break stands for itself between three of them. -/
def escaped (isBlock : Bool) (character : Char) : String :=
  match character with
  | '\t' => "\\t"
  | '\n' => if isBlock then "\n" else "\\n"
  | '\r' => "\\r"
  | '"' => "\\\""
  | '\\' => "\\\\"
  | character =>
    let code := character.toNat
    if code = 8 then "\\b"
    else if code = 12 then "\\f"
    else if code < 0x20 ∨ code = 0x7F then "\\u" ++ hexPlaces 4 code
    else character.toString

/-- A string in the quotes that suit it: three with a line break after them if it has lines, three
if it needs single quotes and has some, one otherwise. -/
def writeString (text : String) : String :=
  let characters := text.toList
  let isBlock := characters.contains '\n'
  if prefersLiteral characters then
    if isBlock then "'''\n" ++ text ++ "'''"
    else if characters.contains '\'' then "'''" ++ text ++ "'''"
    else "'" ++ text ++ "'"
  else
    let body := String.join (characters.map (escaped isBlock))
    if isBlock then "\"\"\"\n" ++ body ++ "\"\"\"" else "\"" ++ body ++ "\""

end Toml

end ScriptEngine
