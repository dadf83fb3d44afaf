namespace ScriptEngine

namespace Toml

def isTab (character : Char) : Bool :=
  character == '\t'

def isSpace (character : Char) : Bool :=
  character == ' ' || isTab character

/-- Whether a character may stand in comments and strings: a tab, or anything but a control
character. -/
def isPrintable (character : Char) : Bool :=
  isTab character || (0x20 ≤ character.toNat && character.toNat != 0x7F)

def hexDigit? (character : Char) : Option Nat :=
  if character.isDigit then some (character.toNat - '0'.toNat)
  else if 'a' ≤ character ∧ character ≤ 'f' then some (character.toNat - 'a'.toNat + 10)
  else if 'A' ≤ character ∧ character ≤ 'F' then some (character.toNat - 'A'.toNat + 10)
  else none

/-- The number that digits spell to a base. -/
def digitsValue? (base : Nat) (digits : List Char) : Option Nat :=
  digits.foldlM (fun value digit =>
    (hexDigit? digit).bind fun place => if place < base then some (base * value + place) else none)
    0

/-- The character with a code, given in hexadecimal digits. -/
def characterOf? (digits : List Char) : Option Char :=
  (digitsValue? 16 digits).bind fun code =>
    if code.isValidChar then some (Char.ofNat code) else none

def simpleEscape? : Char → Option Char
  | 'b' => some (Char.ofNat 8)
  | 't' => some '\t'
  | 'n' => some '\n'
  | 'f' => some (Char.ofNat 12)
  | 'r' => some '\r'
  | '"' => some '"'
  | '\\' => some '\\'
  | _ => none

/-- The character of an escape after its backslash, and what follows it. -/
def readEscape? : List Char → Option (Char × List Char)
  | 'u' :: a :: b :: c :: d :: rest =>
    (characterOf? [a, b, c, d]).map fun character => (character, rest)
  | 'U' :: a :: b :: c :: d :: e :: f :: g :: h :: rest =>
    (characterOf? [a, b, c, d, e, f, g, h]).map fun character => (character, rest)
  | mark :: rest => (simpleEscape? mark).map fun character => (character, rest)
  | [] => none

theorem length_of_readEscape {text rest : List Char} {character : Char}
    (h : readEscape? text = some (character, rest)) : rest.length < text.length := by
  unfold readEscape? at h
  split at h <;> simp only [Option.map_eq_some_iff, Prod.mk.injEq, reduceCtorEq] at h
  all_goals
    obtain ⟨_, _, _, rfl⟩ := h
    simp only [List.length_cons]
    omega

/-- The contents of a string in double quotes after the first one, and what follows the last. -/
def readBasic? : List Char → Option (List Char × List Char)
  | [] => none
  | character :: rest =>
    if character = '"' then
      some ([], rest)
    else if character = '\\' then
      match _hescape : readEscape? rest with
      | some (escaped, after) =>
        (readBasic? after).map fun (body, after) => (escaped :: body, after)
      | none => none
    else if isPrintable character then
      (readBasic? rest).map fun (body, after) => (character :: body, after)
    else
      none
termination_by text => text.length
decreasing_by
  · have := length_of_readEscape _hescape
    simp only [List.length_cons]
    omega
  · simp

/-- The contents of a string in single quotes after the first one, and what follows the last. -/
def readLiteral? : List Char → Option (List Char × List Char)
  | [] => none
  | character :: rest =>
    if character = '\'' then
      some ([], rest)
    else if isPrintable character then
      (readLiteral? rest).map fun (body, after) => (character :: body, after)
    else
      none

/-- How many quotes end a string at the head of a text, if they end one: three, and up to two more
that belong to the string. -/
def closingQuotes? (quote : Char) (text : List Char) : Option Nat :=
  let count := (text.takeWhile (· == quote)).length
  if 3 ≤ count then some (min count 5) else none

def isSpaceOrLine (character : Char) : Bool :=
  isSpace character || character == '\n'

/-- What follows a backslash that ends a line, without the white space before the next word. -/
def continuedLine? (text : List Char) : Option (List Char) :=
  match text.dropWhile isSpace with
  | '\n' :: rest => some (rest.dropWhile isSpaceOrLine)
  | _ => none

theorem length_of_continuedLine {text rest : List Char} (h : continuedLine? text = some rest) :
    rest.length < text.length := by
  unfold continuedLine? at h
  split at h
  · next tail htail =>
    obtain rfl := Option.some.inj h
    have h₁ := (List.dropWhile_sublist isSpace (l := text)).length_le
    have h₂ := (List.dropWhile_sublist isSpaceOrLine (l := tail)).length_le
    rw [htail] at h₁
    simp only [List.length_cons] at h₁
    omega
  · simp at h

/-- The contents of a string in three double quotes after the first ones, and what follows the
last. -/
def readBasicLines? : List Char → Option (List Char × List Char)
  | [] => none
  | character :: rest =>
    match closingQuotes? '"' (character :: rest) with
    | some count => some (List.replicate (count - 3) '"', (character :: rest).drop count)
    | none =>
      if character = '\\' then
        match _hline : continuedLine? rest with
        | some after => readBasicLines? after
        | none =>
          match _hescape : readEscape? rest with
          | some (escaped, after) =>
            (readBasicLines? after).map fun (body, after) => (escaped :: body, after)
          | none => none
      else if isPrintable character ∨ character = '\n' then
        (readBasicLines? rest).map fun (body, after) => (character :: body, after)
      else
        none
termination_by text => text.length
decreasing_by
  · have := length_of_continuedLine _hline
    simp only [List.length_cons]
    omega
  · have := length_of_readEscape _hescape
    simp only [List.length_cons]
    omega
  · simp

/-- The contents of a string in three single quotes after the first ones, and what follows the
last. -/
def readLiteralLines? : List Char → Option (List Char × List Char)
  | [] => none
  | character :: rest =>
    match closingQuotes? '\'' (character :: rest) with
    | some count => some (List.replicate (count - 3) '\'', (character :: rest).drop count)
    | none =>
      if isPrintable character ∨ character = '\n' then
        (readLiteralLines? rest).map fun (body, after) => (character :: body, after)
      else
        none

/-- A text without a line break at its head. -/
def afterLineBreak : List Char → List Char
  | '\n' :: rest => rest
  | text => text

/-- A string on one line. -/
def readQuoted? : List Char → Option (List Char × List Char)
  | '"' :: rest => readBasic? rest
  | '\'' :: rest => readLiteral? rest
  | _ => none

/-- Any string. A line break right after three quotes does not belong to it. -/
def readString? : List Char → Option (List Char × List Char)
  | '"' :: '"' :: '"' :: rest => readBasicLines? (afterLineBreak rest)
  | '\'' :: '\'' :: '\'' :: rest => readLiteralLines? (afterLineBreak rest)
  | text => readQuoted? text

end Toml

end ScriptEngine
