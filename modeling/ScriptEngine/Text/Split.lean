namespace ScriptEngine

/-- The parts of a text around a separator, which is given by its first character and the others.
Separators are taken from the left and do not overlap. `part` is the current part, last character
first. -/
def splitAround (first : Char) (others : List Char) : List Char → List Char → List (List Char)
  | part, [] => [part.reverse]
  | part, character :: rest =>
    if character = first ∧ others.isPrefixOf rest then
      part.reverse :: splitAround first others [] (rest.drop others.length)
    else
      splitAround first others (character :: part) rest
termination_by _ text => text.length
decreasing_by
  · simp only [List.length_drop, List.length_cons]
    omega
  · simp

/-- The parts of a text around a separator. An empty separator gives the single characters. -/
def splitText (text separator : List Char) : List (List Char) :=
  match separator with
  | [] => text.map fun character => [character]
  | first :: others => splitAround first others [] text

end ScriptEngine
