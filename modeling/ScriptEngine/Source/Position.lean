namespace ScriptEngine

/-- A place in a source text. Lines and columns count from one, columns in characters. -/
structure Position where
  line : Nat
  column : Nat
deriving DecidableEq, Repr, Inhabited

namespace Position

def first : Position := ⟨1, 1⟩

def advance (position : Position) (count : Nat) : Position :=
  { position with column := position.column + count }

def nextLine (position : Position) : Position :=
  ⟨position.line + 1, 1⟩

/-- The place after a quoted body and its two delimiters. A line break inside the quotes raises the
line but leaves the column running. -/
def afterQuoted (position : Position) (body : List Char) : Position :=
  ⟨position.line + body.count '\n', position.column + body.length + 2⟩

def render (position : Position) : String :=
  s!"{position.line}:{position.column}"

end Position

end ScriptEngine
