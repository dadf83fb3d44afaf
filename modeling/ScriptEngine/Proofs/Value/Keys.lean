import ScriptEngine.Execution.Access
import ScriptEngine.Proofs.Number.Bits

/-!
# The order of the keys

The comparison by which the entries of a hash are kept in order, written out: `nil`, then the
booleans, the numbers by the IEEE total order of their bits, the strings by their code points. It is
a strict order of all keys. A key that was made from a value is made again from the value that a
script sees in its place.
-/

namespace ScriptEngine

namespace Key

/-- The IEEE total order on the bits of two numbers: those with a sign come first, the greater
magnitude before the smaller one, then those without a sign by their magnitude. -/
def NumberBefore (first second : UInt64) : Prop :=
  if 2 ^ 63 ≤ first.toNat then second.toNat < first.toNat
  else first.toNat < second.toNat ∧ second.toNat < 2 ^ 63

theorem numberBefore_iff (first second : UInt64) :
    NumberBefore first second ↔ totalOrder first < totalOrder second := by
  have hfirst := first.toNat_lt
  have hsecond := second.toNat_lt
  unfold NumberBefore totalOrder
  split <;> split <;> split <;> omega

/-- One key stands before another one in every enumeration of a hash. -/
inductive Before : Key → Key → Prop
  | kind {first second : Key} (h : first.rank < second.rank) : Before first second
  | boolean : Before (.boolean false) (.boolean true)
  | number {first second : UInt64} (h : NumberBefore first second) :
      Before (.number first) (.number second)
  | string {first second : String} (h : first.toList < second.toList) :
      Before (.string first) (.string second)

theorem compare_of_rank {first second : Key} (h : first.rank ≠ second.rank) :
    compare first second = Ord.compare first.rank second.rank := by
  cases first <;> cases second <;> first | rfl | exact absurd rfl h

theorem before_iff (first second : Key) : first.Before second ↔ compare first second = .lt := by
  constructor
  · rintro (h | _ | h | h)
    · rw [compare_of_rank (Nat.ne_of_lt h)]
      exact Nat.compare_eq_lt.mpr h
    · rfl
    · exact Int.compare_eq_lt.mpr ((numberBefore_iff _ _).mp h)
    · exact compareOfLessAndEq_eq_lt.mpr h
  · intro h
    by_cases hrank : first.rank = second.rank
    · cases first <;> cases second <;> simp only [rank, Nat.reduceEqDiff] at hrank
      case nil.nil => exact nomatch h
      case boolean.boolean first second =>
        cases first <;> cases second <;> first | exact .boolean | exact nomatch h
      case number.number => exact .number ((numberBefore_iff _ _).mpr (Int.compare_eq_lt.mp h))
      case string.string =>
        exact .string (String.lt_iff.mp (compareOfLessAndEq_eq_lt.mp h))
    · rw [compare_of_rank hrank] at h
      exact .kind (Nat.compare_eq_lt.mp h)

theorem ne_of_lt {first second : Key} (h : compare first second = .lt) : first ≠ second := by
  intro heq
  have hself : compare second second = .eq := Std.ReflCmp.compare_self
  rw [heq, hself] at h
  exact nomatch h

/-! ### Keys and the values seen in their place -/

/-- A key that is made again from the value that stands for it. -/
def IsNormal (key : Key) : Prop :=
  ofValue? key.toValue = some key

theorem isNormal_string (text : String) : (string text).IsNormal :=
  rfl

theorem isNormal_ofNumber (number : Number) : (ofNumber number).IsNormal := by
  unfold ofNumber
  split
  · rfl
  · split
    · rfl
    · rename_i hzero hundefined
      simp [IsNormal, toValue, ofValue?, ofNumber, hzero, hundefined]

theorem isNormal_of_ofValue? {value : Value} {key : Key} (h : ofValue? value = some key) :
    key.IsNormal := by
  match value, h with
  | .nil, rfl => exact rfl
  | .boolean _, rfl => rfl
  | .number _, rfl => exact isNormal_ofNumber _
  | .string _, rfl => rfl

end Key

end ScriptEngine
