import ScriptEngine.Number.Basic
import ScriptEngine.Number.Shortest

namespace ScriptEngine

/-- How a decimal is laid out. Exponents outside the positional range are written after an `e`. -/
structure Notation where
  isPositional : Int → Bool
  minimumFraction : Nat
  signedExponent : Bool

namespace Notation

/-- Digits with a point after `whole` of them, filled with zeros on either side, and at least
`minimumFraction` digits after the point. -/
def positional (digits : List Char) (whole : Int) (minimumFraction : Nat) : String :=
  let leading := List.replicate (-whole).toNat '0'
  let trailing := List.replicate (whole - digits.length).toNat '0'
  let padded := leading ++ digits ++ trailing
  let front := padded.take whole.toNat
  let back := padded.drop whole.toNat
  let back := back ++ List.replicate (minimumFraction - back.length) '0'
  let front := if front.isEmpty then ['0'] else front
  String.ofList (if back.isEmpty then front else front ++ '.' :: back)

def scientific (digits : List Char) (exponent : Int) (signedExponent : Bool) : String :=
  let mantissa := match digits with
    | head :: [] => [head]
    | head :: tail => head :: '.' :: tail
    | [] => ['0']
  let sign := if signedExponent ∧ 0 ≤ exponent then "+" else ""
  String.ofList mantissa ++ "e" ++ sign ++ toString exponent

/-- Moves the trailing zeros of the digits into the exponent. Zero keeps one digit. -/
def significantDigits (decimal : Decimal) : List Char × Int :=
  let digits := (toString decimal.digits).toList
  let kept := (digits.reverse.dropWhile (· == '0')).reverse
  if kept.isEmpty then (['0'], 0) else (kept, decimal.exponent + (digits.length - kept.length))

def render (layout : Notation) (decimal : Decimal) : String :=
  let (digits, exponent) := significantDigits decimal
  let leading := exponent + digits.length - 1
  if layout.isPositional leading then
    positional digits (leading + 1) layout.minimumFraction
  else
    scientific digits leading layout.signedExponent

end Notation

/-- The fewest digits that read back, never with an exponent. -/
def plainNotation : Notation := ⟨fun _ => true, 0, false⟩

namespace ExactNumber

def render (layout : Notation) : ExactNumber → String
  | undefined => "NaN"
  | infinite negative => if negative then "-inf" else "inf"
  | finite negative significand exponent =>
    (if negative then "-" else "") ++ layout.render (.shortest significand exponent)

/-- A quotient rounded to the nearest natural number, halves to the even one. -/
def roundedQuotient (numerator denominator : Nat) : Nat :=
  let quotient := numerator / denominator
  match compare (2 * (numerator % denominator)) denominator with
  | .lt => quotient
  | .gt => quotient + 1
  | .eq => quotient + quotient % 2

/-- The exact value rounded to a fixed number of digits after the point. -/
def renderFixed (places : Nat) : ExactNumber → String
  | undefined => "NaN"
  | infinite negative => if negative then "-inf" else "inf"
  | finite negative significand exponent =>
    let scaled := roundedQuotient ((significand * Nat.pow 10 places) <<< exponent.toNat)
      (1 <<< (-exponent).toNat)
    let digits := (toString scaled).toList
    let digits := List.replicate (places + 1 - digits.length) '0' ++ digits
    (if negative then "-" else "") ++
      Notation.positional digits (digits.length - places) places

end ExactNumber

/-- The plain text of a number: `-0`, `inf`, `-inf` and `NaN` for the special ones. -/
def plainText (number : Number) : String :=
  number.exact.render plainNotation

end ScriptEngine
