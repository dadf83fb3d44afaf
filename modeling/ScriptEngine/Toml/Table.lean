namespace ScriptEngine

/-- A value of a settings text. Fractions, dates, arrays and tables in braces are only told apart
from the others. -/
inductive TomlValue
  | string (value : String)
  | integer (value : Int)
  | boolean (value : Bool)
  | other
deriving DecidableEq, Repr

/-- How a table came to be: under a header of its own, as a part of the header of another table, or
as a part of a dotted key. -/
inductive TomlOrigin
  | header
  | implied
  | dotted
deriving DecidableEq, Repr

/-- What a key stands for. Of an array of tables only the last one can still grow. -/
inductive TomlNode
  | value (value : TomlValue)
  | table (origin : TomlOrigin) (entries : List (String × TomlNode))
  | tables (last : List (String × TomlNode))

abbrev TomlEntries := List (String × TomlNode)

namespace TomlEntries

def put (entries : TomlEntries) (key : String) (node : TomlNode) : TomlEntries :=
  (key, node) :: entries.filter fun entry => entry.1 != key

def find? (entries : TomlEntries) (key : String) : Option TomlNode :=
  entries.lookup key

/-- Changes the table that a path leads to, and makes the tables that are missing on the way. A
dotted key may not lead into a table that has a header. -/
def changeAt (isDotted : Bool) (change : TomlOrigin → TomlEntries → Option TomlEntries) :
    List String → TomlOrigin → TomlEntries → Option TomlEntries
  | [], origin, entries => change origin entries
  | key :: path, _, entries =>
    match entries.find? key with
    | none => do
      let origin := if isDotted then .dotted else .implied
      return entries.put key (.table origin (← changeAt isDotted change path origin []))
    | some (.value _) => none
    | some (.tables last) => do
      return entries.put key (.tables (← changeAt isDotted change path .header last))
    | some (.table origin inner) => do
      if isDotted ∧ origin = .header then
        none
      else
        return entries.put key (.table origin (← changeAt isDotted change path origin inner))

/-- Adds a value under a key of one or more parts. A table that was not made by dotted keys cannot
be reached through one. -/
def define (entries : TomlEntries) (parts : List String) (value : TomlValue) :
    Option TomlEntries :=
  let parents := parts.dropLast
  let insert (origin : TomlOrigin) (entries : TomlEntries) : Option TomlEntries :=
    match parts.getLast? with
    | none => none
    | some key =>
      if (origin = .dotted ↔ parents.isEmpty) ∨ (entries.find? key).isSome then
        none
      else
        some (entries.put key (.value value))
  changeAt true insert parents .header entries

/-- Adds a value below the table that the last header opened. -/
def defineUnder (entries : TomlEntries) (header parts : List String) (value : TomlValue) :
    Option TomlEntries :=
  changeAt false (fun _ inner => inner.define parts value) header .header entries

/-- Opens a table by its header. A table has one header at most. -/
def openTable (entries : TomlEntries) (header : List String) : Option TomlEntries :=
  let opened (_ : TomlOrigin) (entries : TomlEntries) : Option TomlEntries :=
    match header.getLast? with
    | none => none
    | some key =>
      match entries.find? key with
      | none => some (entries.put key (.table .header []))
      | some (.table .implied inner) => some (entries.put key (.table .header inner))
      | some _ => none
  changeAt false opened header.dropLast .header entries

/-- Opens a further table of an array of tables. -/
def openNext (entries : TomlEntries) (header : List String) : Option TomlEntries :=
  let opened (_ : TomlOrigin) (entries : TomlEntries) : Option TomlEntries :=
    match header.getLast? with
    | none => none
    | some key =>
      match entries.find? key with
      | none => some (entries.put key (.tables []))
      | some (.tables _) => some (entries.put key (.tables []))
      | some _ => none
  changeAt false opened header.dropLast .header entries

end TomlEntries

end ScriptEngine
