import ScriptEngine.Json.Document
import ScriptEngine.Json.JsonError

namespace ScriptEngine

namespace JsonReader

/-- The text that is still unread, and how many bytes came before it. -/
structure Cursor where
  rest : List Char
  offset : Nat
deriving DecidableEq, Repr

abbrev Reader := EStateM JsonError Cursor

def peek : Reader (Option Char) :=
  return (← get).rest.head?

/-- An error at the place reached so far. -/
def failHere {α : Type} (kind : JsonErrorKind) : Reader α := do
  throw ⟨kind, (← get).offset⟩

/-- An error that counts the next byte as read, if there is one. -/
def failNext {α : Type} (kind : JsonErrorKind) : Reader α := do
  let cursor ← get
  throw ⟨kind, if cursor.rest.isEmpty then cursor.offset else cursor.offset + 1⟩

/-- Passes one character of one byte. -/
def skip : Reader Unit :=
  modify fun cursor => ⟨cursor.rest.tail, cursor.offset + 1⟩

def isSpace (character : Char) : Bool :=
  character == ' ' || character == '\n' || character == '\t' || character == '\r'

/-- Passes all characters of a class of one-byte characters and gives them. -/
def takeAll (member : Char → Bool) : Reader (List Char) := do
  let cursor ← get
  let taken := cursor.rest.takeWhile member
  set (⟨cursor.rest.dropWhile member, cursor.offset + taken.length⟩ : Cursor)
  return taken

def skipSpace : Reader Unit := do
  let _ ← takeAll isSpace

/-- Passes a word that has to come next. -/
def word : List Char → Reader Unit
  | [] => return
  | expected :: rest => do
    match ← peek with
    | none => failHere .endInValue
    | some found =>
      if found = expected then
        skip
        word rest
      else
        failNext .expectedIdent

/-! ### Numbers -/

def greatestSignificand : Nat := 18446744073709551615

/-- Appends digits to a significand as long as it fits 64 bits. Gives the significand and how many
digits were taken. -/
def absorb (significand : Nat) : List Char → Nat × Nat
  | [] => (significand, 0)
  | digit :: rest =>
    let next := 10 * significand + (digit.toNat - '0'.toNat)
    if greatestSignificand < next then
      (significand, 0)
    else
      let (result, count) := absorb next rest
      (result, count + 1)

/-- The power `10 ^ exponent`, for an exponent that the numbers reach. -/
def powerOfTen (exponent : Nat) : Float :=
  Float.ofScientific 1 false exponent

/-- Scales a significand down by powers of ten of at most `308` at a time. -/
def scaleDown : Nat → Float → Nat → Float
  | 0, value, _ => value
  | rounds + 1, value, exponent =>
    if exponent ≤ 308 then value / powerOfTen exponent
    else if value == 0 then value
    else scaleDown rounds (value / powerOfTen 308) (exponent - 308)

/-- The number `significand * 10 ^ exponent`, by one multiplication or by divisions. There is none
if it overflows. -/
def scaled? (significand : Nat) (exponent : Int) : Option Float :=
  let value := Float.ofNat significand
  if exponent < 0 then
    some (scaleDown 8 value exponent.natAbs)
  else if exponent ≤ 308 then
    let product := value * powerOfTen exponent.toNat
    if product.isInf then none else some product
  else if value == 0 then
    some value
  else
    none

def withSign (positive : Bool) (value : Float) : JsonNumber :=
  .real (if positive then value else -value)

def finish (positive : Bool) (significand : Nat) (exponent : Int) : Reader JsonNumber :=
  match scaled? significand exponent with
  | some value => return withSign positive value
  | none => failHere .numberOutOfRange

def greatestExponent : Nat := 2147483647

/-- The exponent after its `e`. One that does not fit 32 bits makes the number zero or too great. -/
def exponentPart (positive : Bool) (significand : Nat) (start : Int) : Reader JsonNumber := do
  skip
  let sign ← peek
  if sign = some '+' ∨ sign = some '-' then
    skip
  let first ← peek
  match first with
  | none => failHere .endInValue
  | some first =>
    if ¬ first.isDigit then
      failNext .invalidNumber
    else
      let before ← get
      let digits ← takeAll Char.isDigit
      let fitting := (List.range (digits.length + 1)).takeWhile fun count =>
        (absorb 0 (digits.take count)).1 ≤ greatestExponent
      let value := (absorb 0 digits).1
      if value ≤ greatestExponent then
        let exponent : Int := if sign = some '-' then -value else value
        finish positive significand (start + exponent)
      else if significand ≠ 0 ∧ sign ≠ some '-' then
        set (⟨before.rest.drop fitting.length, before.offset + fitting.length⟩ : Cursor)
        failHere .numberOutOfRange
      else
        return withSign positive 0

/-- What follows the digits of a number that is no integer. -/
def afterDigits (positive : Bool) (significand : Nat) (exponent : Int) : Reader JsonNumber := do
  match ← peek with
  | some 'e' => exponentPart positive significand exponent
  | some 'E' => exponentPart positive significand exponent
  | _ => finish positive significand exponent

/-- The digits after the point. Those that no longer fit the significand are passed over. -/
def fractionPart (positive : Bool) (significand : Nat) (exponent : Int) : Reader JsonNumber := do
  skip
  let digits ← takeAll Char.isDigit
  if digits.isEmpty then
    if (← peek).isNone then failHere .endInValue else failNext .invalidNumber
  else
    let (significand, count) := absorb significand digits
    afterDigits positive significand (exponent - count)

def signedInteger (positive : Bool) (significand : Nat) : JsonNumber :=
  if positive then .integer significand
  else if significand = 0 ∨ 9223372036854775808 < significand then .real (-Float.ofNat significand)
  else .integer (-significand)

/-- A number after its sign. Digits that no longer fit the significand raise the exponent. -/
def number (positive : Bool) : Reader JsonNumber := do
  match ← peek with
  | none => failHere .endInValue
  | some '0' =>
    skip
    match ← peek with
    | some '.' => fractionPart positive 0 0
    | some 'e' => exponentPart positive 0 0
    | some 'E' => exponentPart positive 0 0
    | some next => if next.isDigit then failNext .invalidNumber else return signedInteger positive 0
    | none => return signedInteger positive 0
  | some first =>
    if ¬ first.isDigit then
      failNext .invalidNumber
    else
      let digits ← takeAll Char.isDigit
      let (significand, count) := absorb 0 digits
      let exponent : Int := digits.length - count
      match ← peek with
      | some '.' => fractionPart positive significand exponent
      | some 'e' => exponentPart positive significand exponent
      | some 'E' => exponentPart positive significand exponent
      | _ =>
        if exponent = 0 then
          return signedInteger positive significand
        else
          finish positive significand exponent

/-! ### Strings -/

def hexValue? (digit : Char) : Option Nat :=
  if digit.isDigit then some (digit.toNat - '0'.toNat)
  else if 'a' ≤ digit ∧ digit ≤ 'f' then some (digit.toNat - 'a'.toNat + 10)
  else if 'A' ≤ digit ∧ digit ≤ 'F' then some (digit.toNat - 'A'.toNat + 10)
  else none

/-- The value of four hexadecimal digits. -/
def fourHex? (a b c d : Char) : Option Nat := do
  return 4096 * (← hexValue? a) + 256 * (← hexValue? b) + 16 * (← hexValue? c) + (← hexValue? d)

def byteLength (text : List Char) : Nat :=
  text.foldl (fun length character => length + character.utf8Size) 0

/-- The code unit of a hexadecimal escape after its `u`. -/
def hexEscape : Reader Nat := do
  let cursor ← get
  if byteLength (cursor.rest.take 4) < 4 then
    throw ⟨.endInString, cursor.offset + byteLength cursor.rest⟩
  else
    match cursor.rest with
    | a :: b :: c :: d :: rest =>
      match fourHex? a b c d with
      | some unit =>
        set (⟨rest, cursor.offset + 4⟩ : Cursor)
        return unit
      | none => throw ⟨.invalidEscape, cursor.offset + 4⟩
    | _ => throw ⟨.invalidEscape, cursor.offset + 4⟩

def isLeading (unit : Nat) : Bool := 0xD800 ≤ unit && unit ≤ 0xDBFF

def isTrailing (unit : Nat) : Bool := 0xDC00 ≤ unit && unit ≤ 0xDFFF

/-- Passes one character of a surrogate pair that has to come next. -/
def pairMark (expected : Char) : Reader Unit := do
  match ← peek with
  | none => failHere .endInString
  | some found => if found = expected then skip else failNext .unfinishedSurrogatePair

/-- The character of a hexadecimal escape. A leading surrogate needs the escape of a trailing one
right after it. -/
def unicodeEscape : Reader Char := do
  let unit ← hexEscape
  if isTrailing unit then
    failHere .loneSurrogate
  else if isLeading unit then
    pairMark '\\'
    pairMark 'u'
    let second ← hexEscape
    if isTrailing second then
      return Char.ofNat (0x10000 + 1024 * (unit - 0xD800) + (second - 0xDC00))
    else
      failHere .loneSurrogate
  else
    return Char.ofNat unit

/-- The character of an escape after its backslash. -/
def escape : Reader Char := do
  match ← peek with
  | none => failHere .endInString
  | some '"' => skip; return '"'
  | some '\\' => skip; return '\\'
  | some '/' => skip; return '/'
  | some 'b' => skip; return Char.ofNat 0x8
  | some 'f' => skip; return Char.ofNat 0xC
  | some 'n' => skip; return '\n'
  | some 'r' => skip; return '\r'
  | some 't' => skip; return '\t'
  | some 'u' => skip; unicodeEscape
  | some _ => failNext .invalidEscape

/-- A string after its opening quote. `taken` holds the text so far, backwards. -/
def stringTail : Nat → List Char → Reader String
  | 0, _ => failHere .exhausted
  | fuel + 1, taken => do
    let cursor ← get
    match cursor.rest with
    | [] => failHere .endInString
    | character :: rest =>
      if character = '"' then
        skip
        return String.ofList taken.reverse
      else if character = '\\' then
        skip
        let escaped ← escape
        stringTail fuel (escaped :: taken)
      else if character.toNat < 0x20 then
        failNext .controlCharacter
      else
        set (⟨rest, cursor.offset + character.utf8Size⟩ : Cursor)
        stringTail fuel (character :: taken)

def string : Reader String := do
  skip
  let cursor ← get
  stringTail (cursor.rest.length + 1) []

/-! ### Values -/

/-- Containers may nest fewer than this many levels deep. -/
def nestingLimit : Nat := 128

mutual

/-- A value with `levels` left for the containers that it may open. -/
def value : Nat → Nat → Reader JsonDocument
  | 0, _ => failHere .exhausted
  | fuel + 1, levels => do
    skipSpace
    match ← peek with
    | none => failNext .endInValue
    | some 'n' =>
      skip
      word ['u', 'l', 'l']
      return .null
    | some 't' =>
      skip
      word ['r', 'u', 'e']
      return .boolean true
    | some 'f' =>
      skip
      word ['a', 'l', 's', 'e']
      return .boolean false
    | some '-' =>
      skip
      return .number (← number false)
    | some '"' => return .string (← string)
    | some '[' =>
      match levels with
      | levels + 2 =>
        skip
        return .array (← elements fuel (levels + 1) true)
      | _ => failNext .nestingLimit
    | some '{' =>
      match levels with
      | levels + 2 =>
        skip
        return .object (← members fuel (levels + 1) true)
      | _ => failNext .nestingLimit
    | some first =>
      if first.isDigit then
        return .number (← number true)
      else
        failNext .expectedValue

/-- The elements up to the closing bracket. All but the first come after a comma. -/
def elements : Nat → Nat → Bool → Reader (List JsonDocument)
  | 0, _, _ => failHere .exhausted
  | fuel + 1, levels, first => do
    skipSpace
    match ← peek, first with
    | none, _ => failNext .endInList
    | some ']', _ =>
      skip
      return []
    | some _, true =>
      let head ← value fuel levels
      return head :: (← elements fuel levels false)
    | some ',', false =>
      skip
      skipSpace
      match ← peek with
      | none => failNext .endInValue
      | some ']' => failNext .trailingComma
      | some _ =>
        let head ← value fuel levels
        return head :: (← elements fuel levels false)
    | some _, false => failNext .expectedListComma

/-- The members up to the closing brace. All but the first come after a comma. -/
def members : Nat → Nat → Bool → Reader (List JsonMember)
  | 0, _, _ => failHere .exhausted
  | fuel + 1, levels, first => do
    skipSpace
    match ← peek, first with
    | none, _ => failNext .endInObject
    | some '}', _ =>
      skip
      return []
    | some '"', true =>
      let head ← member fuel levels
      return head :: (← members fuel levels false)
    | some _, true => failNext .keyNotString
    | some ',', false =>
      skip
      skipSpace
      match ← peek with
      | none => failNext .endInValue
      | some '"' =>
        let head ← member fuel levels
        return head :: (← members fuel levels false)
      | some '}' => failNext .trailingComma
      | some _ => failNext .keyNotString
    | some _, false => failNext .expectedObjectComma

def member : Nat → Nat → Reader JsonMember
  | 0, _ => failHere .exhausted
  | fuel + 1, levels => do
    let name ← string
    skipSpace
    match ← peek with
    | none => failNext .endInObject
    | some ':' =>
      skip
      return .mk name (← value fuel levels)
    | some _ => failNext .expectedColon

end

/-- A whole text: one value with nothing but blanks around it. -/
def document (fuel : Nat) : Reader JsonDocument := do
  let result ← value fuel nestingLimit
  skipSpace
  if (← peek).isNone then
    return result
  else
    failNext .trailingCharacters

end JsonReader

def JsonDocument.parse (text : String) : Except JsonError JsonDocument :=
  match JsonReader.document (2 * text.length + 2) ⟨text.toList, 0⟩ with
  | .ok document _ => .ok document
  | .error error _ => .error error

end ScriptEngine
