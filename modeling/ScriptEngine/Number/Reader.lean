import ScriptEngine.Number.Basic

namespace ScriptEngine

namespace NumberReader

/-- The value of `digits * 10 ^ exponent`, rounded once. Powers of ten far outside the range of the
numbers are not computed. -/
def scale (digits : Nat) (exponent : Int) : Float :=
  let leading := exponent + (toString digits).length
  if digits = 0 ∨ leading < -330 then 0
  else if leading > 310 then 1 / 0
  else Float.ofScientific digits (exponent < 0) exponent.natAbs

def digitsValue (digits : List Char) : Nat :=
  digits.foldl (fun value digit => 10 * value + (digit.toNat - '0'.toNat)) 0

/-- An exponent after its `e`: a sign or none, then digits only. -/
def readExponent? (text : List Char) : Option Int :=
  let (negative, digits) := match text with
    | '-' :: rest => (true, rest)
    | '+' :: rest => (false, rest)
    | rest => (false, rest)
  if digits.isEmpty ∨ ¬ digits.all Char.isDigit then
    none
  else
    some (if negative then -digitsValue digits else digitsValue digits)

/-- An unsigned decimal: digits with at most one point, one digit at least, and an optional
exponent. -/
def readDecimal? (text : List Char) : Option Float :=
  let whole := text.takeWhile Char.isDigit
  let rest := text.dropWhile Char.isDigit
  let (fraction, rest) := match rest with
    | '.' :: rest => (rest.takeWhile Char.isDigit, rest.dropWhile Char.isDigit)
    | rest => ([], rest)
  if whole.isEmpty ∧ fraction.isEmpty then
    none
  else
    let digits := digitsValue (whole ++ fraction)
    match rest with
    | [] => some (scale digits (-fraction.length))
    | mark :: rest =>
      if mark = 'e' ∨ mark = 'E' then
        (readExponent? rest).map fun exponent => scale digits (exponent - fraction.length)
      else
        none

def readUnsigned? (text : List Char) : Option Number :=
  match String.ofList (text.map Char.toLower) with
  | "inf" => some (1 / 0)
  | "infinity" => some (1 / 0)
  | "nan" => some .undefined
  | _ => (readDecimal? text).map .ofFloat

end NumberReader

/-- The number that a text spells: decimal digits with an optional point, sign and exponent, or one
of the words `inf`, `infinity` and `nan` in any case. -/
def readNumber? (text : List Char) : Option Number :=
  match text with
  | '-' :: rest => (NumberReader.readUnsigned? rest).map Number.neg
  | '+' :: rest => NumberReader.readUnsigned? rest
  | rest => NumberReader.readUnsigned? rest

end ScriptEngine
