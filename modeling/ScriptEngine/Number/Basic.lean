import ScriptEngine.Number.Exact

namespace ScriptEngine

/-- A number of a script, by the 64 bits of a double. There are many undefined numbers, that differ
in the sign and in the lower bits, and a program that reads the sign or the bits sees which one it
has. -/
structure Number where
  bits : UInt64
deriving Inhabited, Repr

namespace Number

def ofFloat (value : Float) : Number :=
  ⟨value.toBits⟩

def toFloat (number : Number) : Float :=
  Float.ofBits number.bits

def exact (number : Number) : ExactNumber :=
  .ofBits number.bits

def isUndefined (number : Number) : Bool :=
  number.exact == .undefined

/-- The undefined number without a sign. -/
def undefined : Number := ⟨0x7FF8000000000000⟩

/-- The undefined number that an operation on defined ones gives: it has a sign. -/
def invalid : Number := ⟨0xFFF8000000000000⟩

/-- An undefined number as an operation passes it on, with the highest bit of the fraction set. -/
def quieted (number : Number) : Number :=
  ⟨number.bits ||| 0x8000000000000⟩

/-- What an operation on some operands makes of its result. An undefined result is the first
undefined operand, or a new one if all are defined. -/
def ofResult (operands : List Number) (result : Float) : Number :=
  if result.isNaN then ((operands.find? isUndefined).map quieted).getD invalid else ofFloat result

def mapped (operation : Float → Float) (number : Number) : Number :=
  ofResult [number] (operation number.toFloat)

def combined (operation : Float → Float → Float) (left right : Number) : Number :=
  ofResult [left, right] (operation left.toFloat right.toFloat)

/-! ### The sign -/

def signBit : UInt64 := 0x8000000000000000

def isNegative (number : Number) : Bool :=
  number.bits &&& signBit != 0

def abs (number : Number) : Number :=
  ⟨number.bits &&& ~~~signBit⟩

def neg (number : Number) : Number :=
  ⟨number.bits ^^^ signBit⟩

/-- The first number with the sign of the second one. -/
def withSignOf (number sign : Number) : Number :=
  ⟨(number.bits &&& ~~~signBit) ||| (sign.bits &&& signBit)⟩

/-! ### Numbers as scripts write, compare and combine them -/

instance (count : Nat) : OfNat Number count := ⟨ofFloat (.ofNat count)⟩

instance : OfScientific Number :=
  ⟨fun digits negative exponent => ofFloat (OfScientific.ofScientific digits negative exponent)⟩

instance : BEq Number := ⟨fun left right => left.toFloat == right.toFloat⟩

instance : LT Number := ⟨fun left right => left.toFloat < right.toFloat⟩

instance : LE Number := ⟨fun left right => left.toFloat ≤ right.toFloat⟩

instance (left right : Number) : Decidable (left < right) :=
  inferInstanceAs (Decidable (left.toFloat < right.toFloat))

instance (left right : Number) : Decidable (left ≤ right) :=
  inferInstanceAs (Decidable (left.toFloat ≤ right.toFloat))

instance : Neg Number := ⟨neg⟩

instance : Add Number := ⟨combined (· + ·)⟩

instance : Sub Number := ⟨combined (· - ·)⟩

instance : Mul Number := ⟨combined (· * ·)⟩

instance : Div Number := ⟨combined (· / ·)⟩

end Number

/-- The number without its fractional part as a signed 64-bit integer. -/
def saturatedInt (number : Number) : Int :=
  number.exact.toInt64

/-- The integer that a number stands for, if it is finite and has no fractional part. -/
def integerOf? (number : Number) : Option Int :=
  if number.exact.isIntegral then some (saturatedInt number) else none

end ScriptEngine
