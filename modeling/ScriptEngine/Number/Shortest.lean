import ScriptEngine.Number.Exact

namespace ScriptEngine

/-- The number `digits * 10 ^ exponent`. -/
structure Decimal where
  digits : Nat
  exponent : Int
deriving DecidableEq, Repr

namespace Shortest

/-- Compares `left * 10 ^ power` with `right * 2 ^ exponent`. -/
def compareScaled (left : Nat) (power : Int) (right : Nat) (exponent : Int) : Ordering :=
  compare ((left * Nat.pow 10 power.toNat) <<< (-exponent).toNat)
    ((right * Nat.pow 10 (-power).toNat) <<< exponent.toNat)

/-- Whether a decimal lies among the reals that round to `significand * 2 ^ exponent`, ties to the
even significand. The gap below a power of two is half the gap above it. -/
def readsBack (significand : Nat) (exponent : Int) (decimal : Decimal) : Bool :=
  let narrow := significand = 1 <<< 52 ∧ exponent > -1074
  let low := if narrow then 4 * significand - 1 else 4 * significand - 2
  let atLow := compareScaled decimal.digits decimal.exponent low (exponent - 2)
  let atHigh := compareScaled decimal.digits decimal.exponent (4 * significand + 2) (exponent - 2)
  let closed := significand % 2 = 0
  (atLow == .gt || (closed && atLow == .eq)) && (atHigh == .lt || (closed && atHigh == .eq))

/-- The least power of ten above `significand * 2 ^ exponent`, searched upwards from an estimate
that is never too high. -/
def magnitude (significand : Nat) (exponent : Int) : Int :=
  let estimate := Int.fdiv ((significand.log2 + exponent) * 30103) 100000
  let above (power : Int) : Bool := compareScaled 1 power significand exponent == .gt
  if above estimate then estimate
  else if above (estimate + 1) then estimate + 1
  else estimate + 2

/-- The largest multiple of `10 ^ power` that is at most `significand * 2 ^ exponent`. -/
def gridFloor (significand : Nat) (exponent power : Int) : Nat :=
  ((significand * Nat.pow 10 (-power).toNat) <<< exponent.toNat) /
    (Nat.pow 10 power.toNat <<< (-exponent).toNat)

/-- The point of the grid `10 ^ power` that reads back. Of two such points it is the nearer one, and
the upper one if both are equally near. -/
def onGrid? (significand : Nat) (exponent power : Int) : Option Decimal :=
  let floor := gridFloor significand exponent power
  let lower : Decimal := ⟨floor, power⟩
  let upper : Decimal := ⟨floor + 1, power⟩
  match readsBack significand exponent lower, readsBack significand exponent upper with
  | true, true =>
    if compareScaled (2 * floor + 1) power (2 * significand) exponent == .gt then
      some lower
    else
      some upper
  | true, false => some lower
  | false, true => some upper
  | false, false => none

/-- The first of the grids with `count`, `count + 1`, … digits that has a point which reads back. -/
def search (significand : Nat) (exponent magnitude : Int) : Nat → Nat → Option Decimal
  | 0, _ => none
  | remaining + 1, count =>
    match onGrid? significand exponent (magnitude - count) with
    | some decimal => some decimal
    | none => search significand exponent magnitude remaining (count + 1)

/-- The exact decimal value of `significand * 2 ^ exponent`. -/
def exactDecimal (significand : Nat) (exponent : Int) : Decimal :=
  ⟨(significand * Nat.pow 5 (-exponent).toNat) <<< exponent.toNat, min exponent 0⟩

end Shortest

/-- The decimal with the fewest digits that reads back as `significand * 2 ^ exponent`. -/
def Decimal.shortest (significand : Nat) (exponent : Int) : Decimal :=
  if significand = 0 then
    ⟨0, 0⟩
  else
    (Shortest.search significand exponent (Shortest.magnitude significand exponent) 17 1).getD
      (Shortest.exactDecimal significand exponent)

end ScriptEngine
