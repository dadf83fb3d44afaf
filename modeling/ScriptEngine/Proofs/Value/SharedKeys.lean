import ScriptEngine.Proofs.Value.Keys
import ScriptEngine.Proofs.Number.Line

/-!
# Values that share a key

An entry of a hash is found by the key of a value, and a script compares values by their equality.
Scalars share a key just if they are equal, or both undefined. For numbers three notions come
together: the bits in a key, the total order of these bits, and the equality and the order of the
numbers as a script sees them. The undefined numbers, with all their signs and lower bits, are the
ones that need care: they are equal to none, not even to themselves, and the bits of one of them
stand for all. The other numbers are told apart by the place that they have on the line of numbers.
-/

namespace ScriptEngine

namespace Value

/-- The values that can be keys. -/
def IsScalar : Value → Prop
  | nil | boolean _ | number _ | string _ => True
  | array _ | hash _ | function _ => False

/-- The numbers that stand for no value, whatever their sign and their lower bits. -/
def IsUndefined : Value → Prop
  | number value => value.isUndefined
  | _ => False

theorem isUndefined_iff_not_equals_self {value : Value} (h : value.IsScalar) :
    value.IsUndefined ↔ ¬value.equals value := by
  match value, h with
  | .number value, _ => exact Number.isUndefined_iff_not_beq_self
  | .nil, _ => simp [IsUndefined, equals]
  | .boolean _, _ => simp [IsUndefined, equals]
  | .string _, _ => simp [IsUndefined, equals]

end Value

namespace Key

open NumberLine

/-! ### The keys of numbers -/

/-- The bits stand in the total order as the numbers do on the line, except that there is room for
the negative zero, whose bits are in no key. -/
theorem totalOrder_toBits {value : Float} (h : place value ≠ 0) :
    totalOrder value.toBits = if place value < 0 then place value - 1 else place value := by
  have hbits := toNat_toBits h
  have hlt := value.toBits.toNat_lt
  have hle : place value ≤ 0x7FF8000000000000 := place_le value
  unfold totalOrder
  split at hbits <;> split <;> omega

theorem beq_zero_iff_place {number : Number} : number == 0 ↔ place number.toFloat = 0 :=
  beq_zero_iff

theorem exists_bits (number : Number) : ∃ bits, ofNumber number = .number bits ∧
    totalOrder bits =
      if place number.toFloat < 0 then place number.toFloat - 1 else place number.toFloat := by
  unfold ofNumber
  split
  · rename_i hzero
    rw [beq_zero_iff_place.mp hzero]
    exact ⟨_, rfl, rfl⟩
  · rename_i hzero
    split
    -- One pattern of bits stands for all undefined numbers, behind all others.
    · rename_i hundefined
      rw [place_of_isNaN (Number.isUndefined_iff.mp hundefined)]
      exact ⟨_, rfl, rfl⟩
    · rename_i hdefined
      have horder := totalOrder_toBits (mt beq_zero_iff_place.mpr hzero)
      rw [Number.toBits_toFloat hdefined] at horder
      exact ⟨_, rfl, horder⟩

/-- The keys of numbers stand in the order of their places on the line. -/
theorem compare_ofNumber (first second : Number) :
    compare (ofNumber first) (ofNumber second) =
      Ord.compare (place first.toFloat) (place second.toFloat) := by
  obtain ⟨bits, hbits, horder⟩ := exists_bits first
  obtain ⟨other, hother, hotherOrder⟩ := exists_bits second
  rw [hbits, hother]
  change Ord.compare (totalOrder bits) (totalOrder other) = _
  rw [horder, hotherOrder]
  cases h : Ord.compare (place first.toFloat) (place second.toFloat) <;>
    simp only [Int.compare_eq_lt, Int.compare_eq_eq, Int.compare_eq_gt] at h ⊢ <;>
    split <;> split <;> omega

theorem ofNumber_eq_iff (first second : Number) :
    ofNumber first = ofNumber second ↔
      first == second ∨ first.isUndefined ∧ second.isUndefined := by
  calc ofNumber first = ofNumber second
    _ ↔ compare (ofNumber first) (ofNumber second) = .eq := Std.LawfulEqCmp.compare_eq_iff_eq.symm
    _ ↔ place first.toFloat = place second.toFloat := by rw [compare_ofNumber, Int.compare_eq_eq]
    _ ↔ first.toFloat == second.toFloat ∨ first.toFloat.isNaN ∧ second.toFloat.isNaN :=
        place_eq_iff _ _
    _ ↔ _ := by rw [← Number.isUndefined_iff, ← Number.isUndefined_iff, ← Number.beq_eq]

theorem compare_ofNumber_eq_lt_iff (first second : Number) :
    compare (ofNumber first) (ofNumber second) = .lt ↔
      first < second ∨ ¬first.isUndefined ∧ second.isUndefined := by
  rw [compare_ofNumber, Int.compare_eq_lt, place_lt_iff, ← Number.isUndefined_iff,
    ← Number.isUndefined_iff]
  rfl

/-- What becomes of the bits of a number in its key. Those of the two zeros become the same, and so
do all that are undefined. -/
def normalBits (bits : UInt64) : UInt64 :=
  match ExactNumber.ofBits bits with
  | .undefined => 0x7FF8000000000000
  | .finite _ 0 _ => 0
  | _ => bits

theorem ofNumber_eq (number : Number) : ofNumber number = .number (normalBits number.bits) := by
  have hundefined : number.isUndefined ↔ ExactNumber.ofBits number.bits = .undefined :=
    Number.isUndefined_iff_exact
  have hzero : number == 0 ↔ Bits.IsZero (.ofBits number.bits) := ofBits_beq_zero_iff number.bits
  unfold ofNumber normalBits
  split
  · rename_i h
    obtain ⟨negative, exponent, hexact⟩ := hzero.mp h
    rw [hexact]
    rfl
  · rename_i hnotZero
    split
    · rename_i h
      rw [hundefined.mp h]
      rfl
    · rename_i hdefined
      split
      · rename_i hexact
        exact absurd (hundefined.mpr hexact) hdefined
      · rename_i negative exponent hexact
        exact absurd (hzero.mpr ⟨negative, exponent, hexact⟩) hnotZero
      · rfl

/-! ### The keys of scalars -/

theorem exists_ofValue?_of_isScalar {value : Value} (h : value.IsScalar) :
    ∃ key, ofValue? value = some key := by
  match value, h with
  | .nil, _ => exact ⟨_, rfl⟩
  | .boolean _, _ => exact ⟨_, rfl⟩
  | .number _, _ => exact ⟨_, rfl⟩
  | .string _, _ => exact ⟨_, rfl⟩

theorem eq_iff_of_ofValue? {first second : Value} {key other : Key}
    (hkey : ofValue? first = some key) (hother : ofValue? second = some other) :
    key = other ↔ first.equals second ∨ first.IsUndefined ∧ second.IsUndefined := by
  cases first <;> cases second <;> cases hkey <;> cases hother
  case number.number first second => exact ofNumber_eq_iff first second
  all_goals simp [Value.equals, Value.IsUndefined, ofNumber_eq]

theorem exists_number_of_ofValue?_eq {number : Number} {other : Value}
    (h : ofValue? other = ofValue? (.number number)) : ∃ value, other = .number value := by
  rw [ofValue?, ofNumber_eq] at h
  cases other with
  | number value => exact ⟨value, rfl⟩
  | _ => cases h

/-! ### The order of all keys -/

/-- A comparison that puts the members of a type in one row. -/
structure StrictlyOrders {α : Type} (compare : α → α → Ordering) : Prop where
  antisymmetric : ∀ first second, compare second first = (compare first second).swap
  transitive : ∀ first second third, compare first second = .lt → compare second third = .lt →
    compare first third = .lt
  total : ∀ first second,
    compare first second = .lt ∨ first = second ∨ compare second first = .lt
  eq_iff : ∀ first second, compare first second = .eq ↔ first = second

theorem strictlyOrders_compare : StrictlyOrders compare where
  antisymmetric _ _ := Std.OrientedCmp.eq_swap
  transitive _ _ _ := Std.TransCmp.lt_trans
  total first second := by
    cases h : compare first second with
    | lt => exact .inl rfl
    | eq => exact .inr (.inl (Std.LawfulEqCmp.eq_of_compare h))
    | gt => exact .inr (.inr (Std.OrientedCmp.gt_iff_lt.mp h))
  eq_iff _ _ := Std.LawfulEqCmp.compare_eq_iff_eq

end Key

/-- **Keys agree with the equality of scripts.** Every scalar has a key, and two scalars have the
same one just if they are equal or both undefined, where the undefined ones are those that are not
equal to themselves. A number shares its key with numbers only, and whatever its bits are, there is
one key for both zeros and one for all undefined numbers, with any sign and any lower bits. The
value that stands for a key has that key again. The comparison is a strict order of all keys, in
which numbers stand as they are less than each other, the undefined ones last. -/
theorem keys_agree_with_equality :
    (∀ first second : Value, first.IsScalar → second.IsScalar → ∃ key other,
      Key.ofValue? first = some key ∧ Key.ofValue? second = some other ∧
      (key = other ↔ first.equals second ∨ first.IsUndefined ∧ second.IsUndefined)) ∧
    (∀ value : Value, value.IsScalar → (value.IsUndefined ↔ ¬value.equals value)) ∧
    (∀ number other, Key.ofValue? other = Key.ofValue? (.number number) →
      ∃ value, other = .number value) ∧
    (∀ bits, Key.ofValue? (.number ⟨bits⟩) = some (.number (Key.normalBits bits))) ∧
    (∀ value key, Key.ofValue? value = some key → Key.ofValue? key.toValue = some key) ∧
    Key.StrictlyOrders Key.compare ∧
    ∀ first second, Key.compare (.ofNumber first) (.ofNumber second) = .lt ↔
      first < second ∨ ¬first.isUndefined ∧ second.isUndefined := by
  refine ⟨?_, ?_, ?_, ?_, ?_, Key.strictlyOrders_compare, Key.compare_ofNumber_eq_lt_iff⟩
  · intro first second hfirst hsecond
    obtain ⟨key, hkey⟩ := Key.exists_ofValue?_of_isScalar hfirst
    obtain ⟨other, hother⟩ := Key.exists_ofValue?_of_isScalar hsecond
    exact ⟨key, other, hkey, hother, Key.eq_iff_of_ofValue? hkey hother⟩
  · intro value hvalue
    exact Value.isUndefined_iff_not_equals_self hvalue
  · intro number other h
    exact Key.exists_number_of_ofValue?_eq h
  · intro bits
    rw [Key.ofValue?, Key.ofNumber_eq]
  · intro value key hkey
    exact Key.isNormal_of_ofValue? hkey

/-- Two undefined numbers with another sign and other lower bits have one key, which is neither that
of a zero nor that of a text. -/
theorem keys_agree_with_equality_undefined :
    (∃ key, Key.ofValue? (.number ⟨0x7FF8000000000000⟩) = some key ∧
      Key.ofValue? (.number ⟨0xFFF0000000000001⟩) = some key ∧
      Key.ofValue? key.toValue = some key) ∧
    (∃ key, Key.ofValue? (.number 0) = some key ∧ Key.ofValue? (.number (-0)) = some key) ∧
    Key.ofValue? (.number 1) ≠ Key.ofValue? (.string "1") := by
  obtain ⟨hshared, -, honly, -, hback, -⟩ := keys_agree_with_equality
  refine ⟨?_, ?_, ?_⟩
  · obtain ⟨key, other, hkey, hother, hiff⟩ :=
      hshared (.number ⟨0x7FF8000000000000⟩) (.number ⟨0xFFF0000000000001⟩) trivial trivial
    have heq : key = other := hiff.mpr (.inr ⟨rfl, rfl⟩)
    exact ⟨key, hkey, heq ▸ hother, hback _ _ hkey⟩
  · obtain ⟨key, other, hkey, hother, hiff⟩ := hshared (.number 0) (.number (-0)) trivial trivial
    have heq : key = other := hiff.mpr (.inl (by decide))
    exact ⟨key, hkey, heq ▸ hother⟩
  · intro h
    obtain ⟨value, hvalue⟩ := honly 1 (.string "1") h.symm
    cases hvalue

end ScriptEngine
