import ScriptEngine.Toml.Scalar

namespace ScriptEngine

namespace Toml

/-- What follows a comment, if there is one. A comment ends with its line. -/
def skipComment? : List Char → Option (List Char)
  | '#' :: rest =>
    match rest.dropWhile isPrintable with
    | [] => some []
    | '\n' :: after => some ('\n' :: after)
    | _ => none
  | text => some text

/-- What follows white space, line breaks and comments. -/
def skipGaps? : Nat → List Char → Option (List Char)
  | 0, text => some text
  | fuel + 1, text =>
    match text.dropWhile isSpaceOrLine with
    | '#' :: rest => (skipComment? ('#' :: rest)).bind (skipGaps? fuel)
    | rest => some rest

def skipSpace (text : List Char) : List Char :=
  text.dropWhile isSpace

/-- What follows a line whose contents have been read. -/
def endLine? (text : List Char) : Option (List Char) := do
  match ← skipComment? (skipSpace text) with
  | [] => some []
  | '\n' :: rest => some rest
  | _ => none

def isBareKeyCharacter (character : Char) : Bool :=
  character.isAlphanum || character == '_' || character == '-'

def readKeyPart? (text : List Char) : Option (String × List Char) :=
  match readQuoted? text with
  | some (body, rest) => some (String.ofList body, rest)
  | none =>
    let part := text.takeWhile isBareKeyCharacter
    if part.isEmpty then
      none
    else
      some (String.ofList part, text.dropWhile isBareKeyCharacter)

/-- The most containers that may be open at once, and the most parts of a key. -/
def depthLimit : Nat := 79

/-- A key of parts with dots between them. White space may surround each part. -/
def readKey? : Nat → List Char → Option (List String × List Char)
  | 0, _ => none
  | parts + 1, text => do
    let (part, rest) ← readKeyPart? (skipSpace text)
    match skipSpace rest with
    | '.' :: rest =>
      let (later, rest) ← readKey? parts rest
      return (part :: later, rest)
    | rest => return ([part], rest)

/-- A reader of values. -/
abbrev ValueReader := List Char → Option (TomlValue × List Char)

/-- A key, an equals sign and a value. -/
def readPair? (read : ValueReader) (text : List Char) :
    Option (List String × TomlValue × List Char) := do
  let (key, rest) ← readKey? depthLimit text
  let rest ← readMark? (· == '=') rest
  let (value, rest) ← read (skipSpace rest)
  return (key, value, rest)

/-- What follows the elements of an array and the bracket after them. A comma may follow the last
element. -/
def skipElements? (read : ValueReader) : Nat → List Char → Option (List Char)
  | 0, _ => none
  | fuel + 1, text => do
    match ← skipGaps? text.length text with
    | ']' :: rest => some rest
    | text =>
      let (_, rest) ← read text
      match ← skipGaps? rest.length rest with
      | ']' :: rest => some rest
      | ',' :: rest => skipElements? read fuel rest
      | _ => none

/-- What follows the pairs of a table in braces and the brace after them. -/
def skipPairs? (read : ValueReader) : Nat → TomlEntries → List Char → Option (List Char)
  | 0, _, _ => none
  | fuel + 1, entries, text => do
    let (key, value, rest) ← readPair? read text
    let entries ← entries.define key value
    match skipSpace rest with
    | '\x7d' :: rest => some rest
    | ',' :: rest => skipPairs? read fuel entries rest
    | _ => none

def skipTable? (read : ValueReader) (text : List Char) : Option (List Char) :=
  match skipSpace text with
  | '\x7d' :: rest => some rest
  | text => skipPairs? read text.length [] text

/-- A value with at most `levels` containers open at once. -/
def readValue? : Nat → ValueReader
  | 0, text => readScalar? text
  | levels + 1, text =>
    match text with
    | '[' :: rest =>
      (skipElements? (readValue? levels) rest.length rest).map fun rest => (.other, rest)
    | '\x7b' :: rest =>
      (skipTable? (readValue? levels) rest).map fun rest => (.other, rest)
    | text => readScalar? text

/-- A settings text that has been read in part: its entries, and the header that is open. -/
structure Progress where
  entries : TomlEntries
  header : List String

/-- Reads a header in brackets, single for a table and double for the next table of an array. -/
def readHeader? (progress : Progress) (text : List Char) : Option (Progress × List Char) :=
  match text with
  | '[' :: '[' :: rest => do
    let (header, rest) ← readKey? depthLimit rest
    let rest ← (readMark? (· == ']') rest).bind (readMark? (· == ']'))
    return (⟨← progress.entries.openNext header, header⟩, rest)
  | '[' :: rest => do
    let (header, rest) ← readKey? depthLimit rest
    let rest ← readMark? (· == ']') rest
    return (⟨← progress.entries.openTable header, header⟩, rest)
  | _ => none

def readEntry? (progress : Progress) (text : List Char) : Option (Progress × List Char) := do
  let (key, value, rest) ← readPair? (readValue? depthLimit) text
  let entries ← progress.entries.defineUnder progress.header key value
  return (⟨entries, progress.header⟩, rest)

/-- Reads line after line, `fuel` of them at most. -/
def readLines? : Nat → Progress → List Char → Option TomlEntries
  | 0, _, _ => none
  | fuel + 1, progress, text => do
    match ← skipGaps? text.length text with
    | [] => return progress.entries
    | '[' :: rest =>
      let (progress, rest) ← readHeader? progress ('[' :: rest)
      readLines? fuel progress (← endLine? rest)
    | text =>
      let (progress, rest) ← readEntry? progress text
      readLines? fuel progress (← endLine? rest)

/-- Line breaks of two characters count as one. -/
def joinLineBreaks : List Char → List Char
  | '\r' :: '\n' :: rest => '\n' :: joinLineBreaks rest
  | character :: rest => character :: joinLineBreaks rest
  | [] => []

def afterByteOrderMark (text : List Char) : List Char :=
  if text.head? = some (Char.ofNat 0xFEFF) then text.drop 1 else text

/-- The entries of a settings text. -/
def parse? (text : String) : Option TomlEntries :=
  let text := joinLineBreaks (afterByteOrderMark text.toList)
  readLines? (text.length + 1) ⟨[], []⟩ text

end Toml

end ScriptEngine
