namespace ScriptEngine

mutual

/-- A tree laid out over lines, one part a line: `group` in parentheses, `record` in braces. -/
inductive Outline
  | atom (text : String)
  | list (items : List Outline)
  | group (name : String) (items : List Outline)
  | record (name : String) (fields : List OutlineField)

inductive OutlineField
  | mk (name : String) (value : Outline)

end

deriving instance Repr for Outline, OutlineField

namespace Outline

def indentation (level : Nat) : String :=
  String.ofList (List.replicate (4 * level) ' ')

mutual

def renderAt (level : Nat) : Outline → String
  | atom text => text
  | list [] => "[]"
  | list items => "[\n" ++ renderItems (level + 1) items ++ indentation level ++ "]"
  | group name items =>
    name ++ "(\n" ++ renderItems (level + 1) items ++ indentation level ++ ")"
  | record name fields =>
    name ++ " \x7b\n" ++ renderFields (level + 1) fields ++ indentation level ++ "\x7d"

def renderItems (level : Nat) : List Outline → String
  | [] => ""
  | item :: rest => indentation level ++ renderAt level item ++ ",\n" ++ renderItems level rest

def renderFields (level : Nat) : List OutlineField → String
  | [] => ""
  | .mk name value :: rest =>
    indentation level ++ name ++ ": " ++ renderAt level value ++ ",\n" ++ renderFields level rest

end

def render (outline : Outline) : String :=
  outline.renderAt 0

end Outline

end ScriptEngine
