import ScriptEngine.Json.Document

namespace ScriptEngine

namespace JsonDocument

/-- Numbers that are not written as integers are positional from the fifth place after the point to
the sixteenth before it, with one digit after the point at least. -/
def realNotation : Notation :=
  ⟨fun exponent => -5 ≤ exponent && exponent ≤ 15, 1, true⟩

def renderNumber : JsonNumber → String
  | .integer value => toString value
  | .real value => (ExactNumber.ofFloat value).render realNotation

/-- One character as it stands in a string. -/
def escape (character : Char) : List Char :=
  if character = '"' then ['\\', '"']
  else if character = '\\' then ['\\', '\\']
  else if character = '\n' then ['\\', 'n']
  else if character = '\r' then ['\\', 'r']
  else if character = '\t' then ['\\', 't']
  else if character.toNat = 0x8 then ['\\', 'b']
  else if character.toNat = 0xC then ['\\', 'f']
  else if character.toNat < 0x20 then
    ['\\', 'u', '0', '0', Nat.digitChar (character.toNat / 16),
      Nat.digitChar (character.toNat % 16)]
  else [character]

def renderString (value : String) : String :=
  String.ofList ('"' :: value.toList.flatMap escape ++ ['"'])

mutual

/-- The text of a document, without blanks. -/
def render : JsonDocument → String
  | .null => "null"
  | .boolean value => if value then "true" else "false"
  | .number value => renderNumber value
  | .string value => renderString value
  | .array elements => "[" ++ ",".intercalate (renderElements elements) ++ "]"
  | .object members => "\x7b" ++ ",".intercalate (renderMembers members) ++ "\x7d"

def renderElements : List JsonDocument → List String
  | [] => []
  | head :: rest => render head :: renderElements rest

def renderMembers : List JsonMember → List String
  | [] => []
  | .mk name value :: rest => (renderString name ++ ":" ++ render value) :: renderMembers rest

end

end JsonDocument

end ScriptEngine
