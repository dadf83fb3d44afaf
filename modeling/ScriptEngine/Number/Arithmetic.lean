import ScriptEngine.Number.Notation

namespace ScriptEngine

namespace ExactNumber

/-- A natural number as one of at most 64 bits and a power of two. The last bit kept is set if
anything was left below it, so that rounding to fewer bits is not changed. -/
def folded (significand : Nat) : Nat × Nat :=
  let excess := significand.log2 - 63
  let kept := significand >>> excess
  (if kept <<< excess = significand then kept else 2 * (kept / 2) + 1, excess)

/-- The nearest floating-point number, halves to the even one. -/
def toFloat : ExactNumber → Float
  | undefined => 0 / 0
  | infinite negative => if negative then -1 / 0 else 1 / 0
  | finite negative significand exponent =>
    let (kept, excess) := folded significand
    let magnitude := Float.scaleB (Float.ofNat kept) (exponent + excess)
    if negative then -magnitude else magnitude

/-- The nearest integral number, halves to the even one. -/
def roundedToEven : ExactNumber → ExactNumber
  | finite negative significand exponent =>
    .finite negative
      (roundedQuotient (significand <<< exponent.toNat) (1 <<< (-exponent).toNat)) 0
  | number => number

/-- What is left of the first number after taking the second one away a whole number of times. The
result has the sign of the first number. -/
def modulo : ExactNumber → ExactNumber → ExactNumber
  | finite negative significand exponent, finite _ divisor divisorExponent =>
    if divisor = 0 then
      .undefined
    else
      let least := min exponent divisorExponent
      let whole := significand <<< (exponent - least).toNat
      let part := divisor <<< (divisorExponent - least).toNat
      .finite negative (whole % part) least
  | finite negative significand exponent, infinite _ => .finite negative significand exponent
  | _, _ => .undefined

/-- Adds those powers of two below `2 ^ bits` to `root` that keep its power at most at `target`. -/
def rootBits (power target : Nat) : Nat → Nat → Nat
  | 0, root => root
  | bits + 1, root =>
    let next := root + (1 <<< bits)
    rootBits power target bits (if Nat.pow next power ≤ target then next else root)

/-- The root of a natural number without its fractional part, the last bit set if there was one. -/
def guardedRoot (power target : Nat) : Nat :=
  let root := rootBits power target (target.log2 / power + 1) 0
  if Nat.pow root power = target then root else 2 * (root / 2) + 1

/-- The hypotenuse of a right triangle with legs of two sizes. The root is taken with 64 bits more
than the legs have. -/
def hypotenuse : ExactNumber → ExactNumber → ExactNumber
  | infinite _, _ => .infinite false
  | _, infinite _ => .infinite false
  | undefined, _ => .undefined
  | _, undefined => .undefined
  | finite _ first firstExponent, finite _ second secondExponent =>
    let least := min firstExponent secondExponent
    let first := first <<< (firstExponent - least).toNat
    let second := second <<< (secondExponent - least).toNat
    .finite false (guardedRoot 2 ((first * first + second * second) <<< 128)) (least - 64)

/-- The cube root, taken with 64 bits more than a third of those that the number has. -/
def cubeRoot : ExactNumber → ExactNumber
  | finite negative significand exponent =>
    .finite negative (guardedRoot 3 (significand <<< (192 + (exponent % 3).toNat)))
      (exponent / 3 - 64)
  | number => number

end ExactNumber

namespace Arithmetic

def truncated (number : Float) : Float :=
  if number < 0 then number.ceil else number.floor

def modulo (left right : Float) : Float :=
  ((ExactNumber.ofFloat left).modulo (ExactNumber.ofFloat right)).toFloat

def hypotenuse (left right : Float) : Float :=
  ((ExactNumber.ofFloat left).hypotenuse (ExactNumber.ofFloat right)).toFloat

def cubeRoot (number : Float) : Float :=
  (ExactNumber.ofFloat number).cubeRoot.toFloat

def roundedToEven (number : Float) : Float :=
  (ExactNumber.ofFloat number).roundedToEven.toFloat

/-- The rest after taking `right` away as often as the rounded quotient says. -/
def nearestRemainder (left right : Number) : Number :=
  if left.isUndefined || right.isUndefined || left.toFloat.isInf || right == 0 then .undefined
  else if right.toFloat.isInf then left
  else left - Number.mapped roundedToEven (left / right) * right

/-- The greater of two numbers. An undefined one does not count. -/
def maximum (left right : Number) : Number :=
  if left.isUndefined then right else if left < right then right else left

/-- The smaller of two numbers. An undefined one does not count. -/
def minimum (left right : Number) : Number :=
  if left.isUndefined then right else if right < left then right else left

/-- The natural logarithm of one more than a number, also where the sum rounds to one. -/
def logOfSuccessor (number : Float) : Float :=
  let sum := 1 + number
  if sum == 1 || number == 1 / 0 then number else sum.log * (number / (sum - 1))

def inverseSinh (number : Float) : Float :=
  let size := number.abs
  let inverse := 1 / size
  let result := logOfSuccessor (size + size / (hypotenuse 1 inverse + inverse))
  if (ExactNumber.ofFloat number).isNegative then -result else result

def inverseCosh (number : Number) : Number :=
  if number < 1 then .undefined
  else number.mapped fun value => (value + (value - 1).sqrt * (value + 1).sqrt).log

def inverseTanh (number : Float) : Float :=
  0.5 * logOfSuccessor (2 * number / (1 - number))

end Arithmetic

end ScriptEngine
