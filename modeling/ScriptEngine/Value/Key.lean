import ScriptEngine.Value.Basic

namespace ScriptEngine

/-- What a hash is indexed by. A number is held as its bits. -/
inductive Key
  | nil
  | boolean (value : Bool)
  | number (bits : UInt64)
  | string (value : String)
deriving DecidableEq, Repr

namespace Key

/-- The key of a number. Both zeros share a key, and so do all undefined numbers. -/
def ofNumber (value : Number) : Key :=
  if value == 0 then .number (0 : Number).bits
  else if value.isUndefined then .number Number.undefined.bits
  else .number value.bits

/-- The key of a scalar. Containers and functions have none. -/
def ofValue? : Value → Option Key
  | .nil => some .nil
  | .boolean value => some (.boolean value)
  | .number value => some (.ofNumber value)
  | .string value => some (.string value)
  | .array _ => none
  | .hash _ => none
  | .function _ => none

def toValue : Key → Value
  | nil => .nil
  | boolean value => .boolean value
  | number bits => .number ⟨bits⟩
  | string value => .string value

/-- The place of a number among all numbers, from minus infinity to the undefined number. Among the
numbers with a sign the greater bits come first. -/
def totalOrder (bits : UInt64) : Int :=
  if bits.toNat < 9223372036854775808 then bits.toNat else 9223372036854775807 - bits.toNat

/-- Keys are ordered by kind first: `nil`, booleans, numbers, strings. -/
def rank : Key → Nat
  | nil => 0
  | boolean _ => 1
  | number _ => 2
  | string _ => 3

def compare : Key → Key → Ordering
  | boolean left, boolean right => Ord.compare left right
  | number left, number right => Ord.compare (totalOrder left) (totalOrder right)
  | string left, string right => Ord.compare left right
  | left, right => Ord.compare left.rank right.rank

theorem totalOrder_injective {left right : UInt64} (h : totalOrder left = totalOrder right) :
    left = right := by
  unfold totalOrder at h
  have := left.toNat_lt
  have := right.toNat_lt
  apply UInt64.toNat_inj.mp
  split at h <;> split at h <;> omega

instance : Std.OrientedCmp compare where
  eq_swap {left right} := by
    cases left <;> cases right <;> simp only [compare] <;> exact Std.OrientedCmp.eq_swap

instance : Std.TransCmp compare where
  isLE_trans {first second third} h₁ h₂ := by
    cases first <;> cases second <;> cases third <;> simp only [compare] at * <;>
      first
      | exact Std.TransCmp.isLE_trans h₁ h₂
      | simp_all [rank, Ord.compare, compareOfLessAndEq]

instance : Std.LawfulEqCmp compare where
  eq_of_compare {left right} h := by
    cases left <;> cases right <;> simp only [compare] at h
    all_goals first
      | rfl
      | exact congrArg _ (totalOrder_injective (Std.LawfulEqCmp.eq_of_compare h))
      | exact congrArg _ (Std.LawfulEqCmp.eq_of_compare h)
      | simp [rank, Ord.compare, compareOfLessAndEq] at h

end Key

end ScriptEngine
