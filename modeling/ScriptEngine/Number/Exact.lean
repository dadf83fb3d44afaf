namespace ScriptEngine

/-- The exact value of a floating-point number. A finite one is `significand * 2 ^ exponent`. -/
inductive ExactNumber
  | undefined
  | infinite (negative : Bool)
  | finite (negative : Bool) (significand : Nat) (exponent : Int)
deriving DecidableEq, Repr

namespace ExactNumber

def ofBits (bits : UInt64) : ExactNumber :=
  let negative := bits >>> 63 == 1
  let exponent := ((bits >>> 52) &&& 0x7FF).toNat
  let fraction := (bits &&& 0xFFFFFFFFFFFFF).toNat
  if exponent = 0x7FF then
    if fraction = 0 then .infinite negative else .undefined
  else if exponent = 0 then
    .finite negative fraction (-1074)
  else
    .finite negative ((1 <<< 52) + fraction) (exponent - 1075)

def ofFloat (number : Float) : ExactNumber :=
  ofBits number.toBits

def isNegative : ExactNumber → Bool
  | undefined => false
  | infinite negative => negative
  | finite negative _ _ => negative

def isFinite : ExactNumber → Bool
  | finite _ _ _ => true
  | _ => false

/-- Whether the number is finite and has no fractional part. -/
def isIntegral : ExactNumber → Bool
  | finite _ significand exponent => significand % (1 <<< (-exponent).toNat) == 0
  | _ => false

/-- The integer part of `significand * 2 ^ exponent`. -/
def wholePart (significand : Nat) (exponent : Int) : Nat :=
  significand <<< exponent.toNat >>> (-exponent).toNat

def smallestInt64 : Int := -9223372036854775808

def largestInt64 : Int := 9223372036854775807

/-- The number without its fractional part, clamped to the signed 64-bit range. The undefined number
gives zero. -/
def toInt64 : ExactNumber → Int
  | undefined => 0
  | infinite true => smallestInt64
  | infinite false => largestInt64
  | finite true significand exponent => max smallestInt64 (-(wholePart significand exponent : Int))
  | finite false significand exponent => min largestInt64 (wholePart significand exponent)

end ExactNumber

end ScriptEngine
