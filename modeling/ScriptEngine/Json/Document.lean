import ScriptEngine.Number.Notation

namespace ScriptEngine

inductive JsonNumber
  | integer (value : Int)
  | real (value : Float)
deriving Repr

mutual

inductive JsonDocument
  | null
  | boolean (value : Bool)
  | number (value : JsonNumber)
  | string (value : String)
  | array (elements : List JsonDocument)
  | object (members : List JsonMember)

inductive JsonMember
  | mk (name : String) (value : JsonDocument)

end

deriving instance Repr for JsonDocument, JsonMember

instance : Inhabited JsonDocument := ⟨.null⟩

namespace JsonMember

def name : JsonMember → String
  | mk name _ => name

def value : JsonMember → JsonDocument
  | mk _ value => value

/-- Puts a member where the order of the names wants it, in place of one with the same name. -/
def insertInto (member : JsonMember) : List JsonMember → List JsonMember
  | [] => [member]
  | head :: rest =>
    match compare member.name head.name with
    | .lt => member :: head :: rest
    | .eq => member :: rest
    | .gt => head :: insertInto member rest

end JsonMember

def JsonNumber.toFloat : JsonNumber → Float
  | integer value => Float.ofInt value
  | real value => value

end ScriptEngine
