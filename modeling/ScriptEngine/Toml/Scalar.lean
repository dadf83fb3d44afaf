import ScriptEngine.Calendar.Date
import ScriptEngine.Number.Exact
import ScriptEngine.Number.Reader
import ScriptEngine.Toml.Table
import ScriptEngine.Toml.Text

namespace ScriptEngine

namespace Toml

/-- Further digits of a number. A single underscore may stand between two digits. -/
def moreDigits (isDigit : Char → Bool) : List Char → List Char × List Char
  | '_' :: digit :: rest =>
    if isDigit digit then
      let (digits, after) := moreDigits isDigit rest
      (digit :: digits, after)
    else
      ([], '_' :: digit :: rest)
  | digit :: rest =>
    if isDigit digit then
      let (digits, after) := moreDigits isDigit rest
      (digit :: digits, after)
    else
      ([], digit :: rest)
  | [] => ([], [])

def readDigits? (isDigit : Char → Bool) : List Char → Option (List Char × List Char)
  | digit :: rest =>
    if isDigit digit then
      let (digits, after) := moreDigits isDigit rest
      some (digit :: digits, after)
    else
      none
  | [] => none

/-- The signs that a number may have, and whether it has a minus. -/
def readSign : List Char → Bool × List Char
  | '+' :: rest => (false, rest)
  | '-' :: rest => (true, rest)
  | text => (false, text)

/-- Decimal digits without a leading zero. -/
def readDecimalDigits? : List Char → Option (List Char × List Char)
  | '0' :: rest => some (['0'], rest)
  | text => readDigits? Char.isDigit text

def bounded (value : Int) : Option TomlValue :=
  if ExactNumber.smallestInt64 ≤ value ∧ value ≤ ExactNumber.largestInt64 then
    some (.integer value)
  else
    none

def isBaseDigit (base : Nat) (digit : Char) : Bool :=
  (hexDigit? digit).any fun place => place < base

/-- An integer with a base in front of it. It has no sign. -/
def readBased? (base : Nat) (text : List Char) : Option (TomlValue × List Char) := do
  let (digits, after) ← readDigits? (isBaseDigit base) text
  return (← bounded (← digitsValue? base digits), after)

def readInteger? : List Char → Option (TomlValue × List Char)
  | '0' :: 'x' :: rest => readBased? 16 rest
  | '0' :: 'o' :: rest => readBased? 8 rest
  | '0' :: 'b' :: rest => readBased? 2 rest
  | text => do
    let (isNegative, rest) := readSign text
    let (digits, after) ← readDecimalDigits? rest
    let size ← digitsValue? 10 digits
    return (← bounded (if isNegative then -size else size), after)

def readExponent? : List Char → Option (List Char × List Char)
  | mark :: rest =>
    if mark = 'e' ∨ mark = 'E' then do
      let (isNegative, rest) := readSign rest
      let (digits, after) ← readDigits? Char.isDigit rest
      return ('e' :: (if isNegative then '-' :: digits else digits), after)
    else
      none
  | [] => none

/-- A fraction, an exponent, or both. -/
def readScale? : List Char → Option (List Char × List Char)
  | '.' :: rest => do
    let (digits, after) ← readDigits? Char.isDigit rest
    match readExponent? after with
    | some (exponent, after) => return ('.' :: digits ++ exponent, after)
    | none => return ('.' :: digits, after)
  | text => readExponent? text

/-- A number with a fraction or an exponent. It has to be finite. -/
def readFraction? (text : List Char) : Option (TomlValue × List Char) := do
  let (whole, rest) ← readDecimalDigits? (readSign text).2
  let (scale, after) ← readScale? rest
  let number ← readNumber? (whole ++ scale)
  if number.toFloat.isInf then none else return (.other, after)

def readSpecial? (text : List Char) : Option (TomlValue × List Char) :=
  match (readSign text).2 with
  | 'i' :: 'n' :: 'f' :: rest => some (.other, rest)
  | 'n' :: 'a' :: 'n' :: rest => some (.other, rest)
  | _ => none

/-- Digits in a fixed number. -/
def readPlaces? (count : Nat) (text : List Char) : Option (Nat × List Char) :=
  let digits := text.take count
  if digits.length = count ∧ digits.all Char.isDigit then
    (digitsValue? 10 digits).map fun value => (value, text.drop count)
  else
    none

def readMark? (isMark : Char → Bool) : List Char → Option (List Char)
  | mark :: rest => if isMark mark then some rest else none
  | [] => none

def readDate? (text : List Char) : Option (List Char) := do
  let (year, rest) ← readPlaces? 4 text
  let (month, rest) ← readPlaces? 2 (← readMark? (· == '-') rest)
  let (day, rest) ← readPlaces? 2 (← readMark? (· == '-') rest)
  if (Date.mk year month day).isValid then some rest else none

def readSecondFraction (text : List Char) : List Char :=
  match text with
  | '.' :: digit :: rest =>
    if digit.isDigit then rest.dropWhile Char.isDigit else text
  | _ => text

def readHourAndMinute? (text : List Char) : Option (List Char) := do
  let (hour, rest) ← readPlaces? 2 text
  let (minute, rest) ← readPlaces? 2 (← readMark? (· == ':') rest)
  if hour < 24 ∧ minute < 60 then some rest else none

def readTime? (text : List Char) : Option (List Char) := do
  let rest ← readHourAndMinute? text
  let (second, rest) ← readPlaces? 2 (← readMark? (· == ':') rest)
  if second ≤ 60 then some (readSecondFraction rest) else none

def readOffset? (text : List Char) : Option (List Char) :=
  match text with
  | 'Z' :: rest => some rest
  | 'z' :: rest => some rest
  | '+' :: rest => readHourAndMinute? rest
  | '-' :: rest => readHourAndMinute? rest
  | _ => none

def isTimeMark (character : Char) : Bool :=
  character == 'T' || character == 't' || character == ' '

/-- A date, a time, or a date with a time and perhaps an offset. -/
def readMoment? (text : List Char) : Option (TomlValue × List Char) :=
  match readDate? text with
  | none => (readTime? text).map fun rest => (.other, rest)
  | some rest =>
    match (readMark? isTimeMark rest).bind readTime? with
    | none => some (.other, rest)
    | some after => some (.other, (readOffset? after).getD after)

def readBoolean? : List Char → Option (TomlValue × List Char)
  | 't' :: 'r' :: 'u' :: 'e' :: rest => some (.boolean true, rest)
  | 'f' :: 'a' :: 'l' :: 's' :: 'e' :: rest => some (.boolean false, rest)
  | _ => none

/-- A value that is neither an array nor a table. -/
def readScalar? (text : List Char) : Option (TomlValue × List Char) :=
  match readString? text with
  | some (body, rest) => some (.string (String.ofList body), rest)
  | none =>
    readBoolean? text <|> readMoment? text <|> readFraction? text <|> readSpecial? text <|>
      readInteger? text

end Toml

end ScriptEngine
