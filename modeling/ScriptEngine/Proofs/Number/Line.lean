import ScriptEngine.Number.Basic
import ScriptEngine.Proofs.Number.Bits

/-!
# The line of numbers

The numbers that are not undefined stand on a line, each so many steps before or behind zero as its
bits tell without the sign. Both zeros have one place, and the undefined number, that is comparable
with none, is given the place behind all others. Numbers are less or equal just as their places are,
but for the undefined number, that is not equal to itself.
-/

namespace ScriptEngine

namespace NumberLine

open Float.Model Float.Model.UnpackedFloat

/-- How many numbers there are from zero up to a finite one. -/
def steps (significand : Nat) (exponent : Int) : Int :=
  (exponent + 1074) * 2 ^ 52 + significand

def withSign : Sign → Int → Int
  | .negative, steps => -steps
  | .positive, steps => steps

def placeOf : UnpackedFloat → Int
  | .notANumber => 0x7FF8000000000000
  | .infinity sign => withSign sign 0x7FF0000000000000
  | .zero _ => 0
  | .finite sign significand exponent _ => withSign sign (steps significand exponent)

def place (number : Float) : Int :=
  placeOf number.toModel.unpack

theorem place_eq (number : Float) : place number = placeOf (Bits.unpacked (.ofFloat number)) := by
  rw [place, Bits.unpack_toModel]

/-! ### Finite numbers -/

/-- The parts of a finite number: it has all of its 53 bits, or the least exponent. -/
structure Fits (significand : Nat) (exponent : Int) : Prop where
  significand_lt : significand < 2 ^ 53
  le_exponent : -1074 ≤ exponent
  exponent_le : exponent ≤ 971
  eq_least : significand < 2 ^ 52 → exponent = -1074

section Finite

variable {significand other : Nat} {exponent otherExponent : Int}

theorem fits_of_ofBits {bits : UInt64} {negative : Bool}
    (h : ExactNumber.ofBits bits = .finite negative significand exponent) :
    Fits significand exponent := by
  rcases Bits.isFull_or_least h with ⟨hsmall, rfl⟩ | ⟨⟨hlower, hupper⟩, hleast, hmost⟩
  · exact ⟨by omega, by omega, by omega, fun _ => rfl⟩
  · exact ⟨hupper, hleast, hmost, fun hsmall => absurd hlower hsmall.not_ge⟩

theorem Fits.le_steps (h : Fits significand exponent) :
    significand ≤ steps significand exponent := by
  have := h.le_exponent
  unfold steps
  omega

theorem Fits.steps_lt (h : Fits significand exponent) :
    steps significand exponent < 0x7FF0000000000000 := by
  have := h.significand_lt
  have := h.exponent_le
  unfold steps
  omega

/-- A greater exponent decides, because the significand that goes with it is full. -/
theorem compare_steps (h : Fits significand exponent) (hother : Fits other otherExponent) :
    (Ord.compare exponent otherExponent).then (Ord.compare significand other) =
      Ord.compare (steps significand exponent) (steps other otherExponent) := by
  obtain ⟨hupper, hlow, -, hleast⟩ := h
  obtain ⟨hotherUpper, hotherLow, -, hotherLeast⟩ := hother
  unfold steps
  rcases Int.lt_trichotomy exponent otherExponent with hlt | rfl | hgt
  · rw [Int.compare_eq_lt.mpr hlt, Int.compare_eq_lt.mpr (by omega)]
    rfl
  · rw [Int.compare_eq_eq.mpr rfl, Ordering.eq_then]
    rcases Nat.lt_trichotomy significand other with hlt | rfl | hgt
    · rw [Nat.compare_eq_lt.mpr hlt, Int.compare_eq_lt.mpr (by omega)]
    · rw [Nat.compare_eq_eq.mpr rfl, Int.compare_eq_eq.mpr rfl]
    · rw [Nat.compare_eq_gt.mpr hgt, Int.compare_eq_gt.mpr (by omega)]
  · rw [Int.compare_eq_gt.mpr hgt, Int.compare_eq_gt.mpr (by omega)]
    rfl

end Finite

/-! ### Comparing numbers -/

theorem compare_neg (first second : Int) :
    Ord.compare (-first) (-second) = (Ord.compare first second).swap := by
  cases h : Ord.compare first second <;>
    simp only [Int.compare_eq_lt, Int.compare_eq_eq, Int.compare_eq_gt, Ordering.swap] at h ⊢ <;>
    omega

theorem lt_eq_compare {first second : Int} : .lt = Ord.compare first second ↔ first < second := by
  rw [eq_comm, Int.compare_eq_lt]

theorem gt_eq_compare {first second : Int} : .gt = Ord.compare first second ↔ second < first := by
  rw [eq_comm, Int.compare_eq_gt]

def IsFitting : UnpackedFloat → Prop
  | .finite _ significand exponent _ => Fits significand exponent
  | _ => True

theorem isFitting_unpack (number : Float) : IsFitting number.toModel.unpack := by
  rw [Bits.unpack_toModel]
  cases hexact : ExactNumber.ofFloat number with
  | undefined => trivial
  | infinite negative => trivial
  | finite negative significand exponent =>
      rw [Bits.unpacked]
      split
      · exact fits_of_ofBits hexact
      · trivial

/-- Numbers that are not undefined are compared as their places are. -/
theorem compare_eq {first second : UnpackedFloat} (hfirst : IsFitting first)
    (hsecond : IsFitting second) (h : first ≠ .notANumber) (hother : second ≠ .notANumber) :
    first.compare second = some (Ord.compare (placeOf first) (placeOf second)) := by
  cases first with
  | notANumber => exact absurd rfl h
  | infinity sign =>
      cases second with
      | notANumber => exact absurd rfl hother
      | infinity other => cases sign <;> cases other <;> rfl
      | zero other => cases sign <;> rfl
      | finite other significand exponent hpos =>
          have hfar := hsecond.le_steps
          have hnear := hsecond.steps_lt
          cases sign <;> cases other <;>
            simp only [UnpackedFloat.compare, placeOf, withSign, Option.some.injEq, lt_eq_compare,
              gt_eq_compare] <;> omega
  | zero sign =>
      cases second with
      | notANumber => exact absurd rfl hother
      | infinity other => cases other <;> rfl
      | zero other => rfl
      | finite other significand exponent hpos =>
          have hfar := hsecond.le_steps
          cases other <;>
            simp only [UnpackedFloat.compare, placeOf, withSign, Option.some.injEq, lt_eq_compare,
              gt_eq_compare] <;> omega
  | finite sign significand exponent hpos =>
      have hfar := hfirst.le_steps
      have hnear := hfirst.steps_lt
      cases second with
      | notANumber => exact absurd rfl hother
      | infinity other =>
          cases sign <;> cases other <;>
            simp only [UnpackedFloat.compare, placeOf, withSign, Option.some.injEq, lt_eq_compare,
              gt_eq_compare] <;> omega
      | zero other =>
          cases sign <;>
            simp only [UnpackedFloat.compare, placeOf, withSign, Option.some.injEq, lt_eq_compare,
              gt_eq_compare] <;> omega
      | finite other otherSignificand otherExponent hotherPos =>
          have hotherFar := hsecond.le_steps
          cases sign <;> cases other <;>
            simp only [UnpackedFloat.compare, placeOf, withSign, Option.some.injEq, lt_eq_compare,
              gt_eq_compare, compare_neg, compare_steps hfirst hsecond] <;> omega

/-! ### The undefined number -/

theorem placeOf_lt {unpacked : UnpackedFloat} (hfits : IsFitting unpacked)
    (h : unpacked ≠ .notANumber) : placeOf unpacked < placeOf .notANumber := by
  cases unpacked with
  | notANumber => exact absurd rfl h
  | infinity sign => cases sign <;> decide
  | zero sign => exact Int.sign_eq_one_iff_pos.mp rfl
  | finite sign significand exponent hpos =>
      have hfar := hfits.le_steps
      have hnear := hfits.steps_lt
      cases sign <;> simp only [placeOf, withSign] <;> omega

section Undefined

variable {first second : Float}

theorem isNaN_iff {number : Float} : number.isNaN ↔ number.toModel.unpack = .notANumber :=
  UnpackedFloat.isNaN_iff

theorem place_of_isNaN (h : first.isNaN) : place first = placeOf .notANumber := by
  rw [place, isNaN_iff.mp h]

theorem place_lt_of_isNaN (h : ¬first.isNaN) (hother : second.isNaN) :
    place first < place second := by
  rw [place_of_isNaN hother]
  exact placeOf_lt (isFitting_unpack first) (mt isNaN_iff.mpr h)

theorem place_le (number : Float) : place number ≤ placeOf .notANumber := by
  by_cases h : number.isNaN
  · exact (place_of_isNaN h).le
  · exact (placeOf_lt (isFitting_unpack number) (mt isNaN_iff.mpr h)).le

theorem compare_of_isNaN (h : first.isNaN ∨ second.isNaN) :
    first.toModel.unpack.compare second.toModel.unpack = none := by
  rw [isNaN_iff, isNaN_iff] at h
  rcases h with h | h
  · rw [h]
    rfl
  · rw [h]
    cases first.toModel.unpack <;> rfl

theorem compare_of_not_isNaN (h : ¬first.isNaN) (hother : ¬second.isNaN) :
    first.toModel.unpack.compare second.toModel.unpack =
      some (Ord.compare (place first) (place second)) :=
  compare_eq (isFitting_unpack first) (isFitting_unpack second) (mt isNaN_iff.mpr h)
    (mt isNaN_iff.mpr hother)

end Undefined

/-! ### The order and the equality of numbers -/

section Order

variable (first second : Float)

theorem lt_iff_compare :
    first < second ↔ first.toModel.unpack.compare second.toModel.unpack = some .lt := by
  change decide (first.toModel.lt second.toModel = true) = true ↔ _
  rw [decide_eq_true_iff]
  exact beq_iff_eq

theorem beq_iff_compare :
    first == second ↔ first.toModel.unpack.compare second.toModel.unpack = some .eq := by
  change UnpackedFloat.beq _ _ = true ↔ _
  exact beq_iff_eq

/-- A number stands before another one just if it is less, or if only the other one is undefined. -/
theorem place_lt_iff :
    place first < place second ↔ first < second ∨ ¬first.isNaN ∧ second.isNaN := by
  rw [lt_iff_compare]
  by_cases h : first.isNaN
  -- An undefined number is less than none, and nothing stands behind it.
  · have hlast : ¬place first < place second := by
      rw [place_of_isNaN h]
      exact (place_le second).not_gt
    rw [compare_of_isNaN (.inl h)]
    simp only [hlast, reduceCtorEq, h, not_true_eq_false, false_and, or_self]
  · by_cases hother : second.isNaN
    · exact iff_of_true (place_lt_of_isNaN h hother) (.inr ⟨h, hother⟩)
    · rw [compare_of_not_isNaN h hother, Option.some.injEq, Int.compare_eq_lt]
      exact (or_iff_left fun hundefined => hother hundefined.2).symm

/-- Numbers stand in one place just if they are equal or both undefined. -/
theorem place_eq_iff :
    place first = place second ↔ first == second ∨ first.isNaN ∧ second.isNaN := by
  rw [beq_iff_compare]
  by_cases h : first.isNaN
  · by_cases hother : second.isNaN
    · exact iff_of_true (by rw [place_of_isNaN h, place_of_isNaN hother]) (.inr ⟨h, hother⟩)
    · rw [compare_of_isNaN (.inl h)]
      simp only [(place_lt_of_isNaN hother h).ne', reduceCtorEq, hother, and_false, or_self]
  · by_cases hother : second.isNaN
    · rw [compare_of_isNaN (.inr hother)]
      simp only [(place_lt_of_isNaN h hother).ne, reduceCtorEq, h, false_and, or_self]
    · rw [compare_of_not_isNaN h hother, Option.some.injEq, Int.compare_eq_eq]
      exact (or_iff_left fun hundefined => h hundefined.1).symm

theorem beq_zero_iff {number : Float} : number == 0 ↔ place number = 0 := by
  have hzero : ¬(0 : Float).isNaN := by decide
  rw [show (0 : Int) = place 0 from rfl, place_eq_iff]
  exact (or_iff_left fun hundefined => hzero hundefined.2).symm

end Order

/-! ### The bits of a number -/

section Bits

variable {bits : UInt64} {negative : Bool} {significand : Nat} {exponent : Int}

theorem toNat_of_finite (h : ExactNumber.ofBits bits = .finite negative significand exponent) :
    (bits.toNat : Int) = (if negative then 2 ^ 63 else 0) + steps significand exponent := by
  have hbits := bits.toNat_lt
  rw [Bits.ofBits_eq_ofParts, Bits.toNat_unpackExponent, Bits.toNat_unpackMantissa,
    Bits.negative_eq] at h
  unfold Bits.ofParts at h
  unfold steps
  split at h
  · split at h <;> exact nomatch h
  · split at h <;> cases h <;> simp only [decide_eq_true_eq] <;> split <;> omega

theorem toNat_of_infinite (h : ExactNumber.ofBits bits = .infinite negative) :
    (bits.toNat : Int) = (if negative then 2 ^ 63 else 0) + 0x7FF0000000000000 := by
  have hbits := bits.toNat_lt
  rw [Bits.ofBits_eq_ofParts, Bits.toNat_unpackExponent, Bits.toNat_unpackMantissa,
    Bits.negative_eq] at h
  unfold Bits.ofParts at h
  split at h
  · split at h
    · cases h
      simp only [decide_eq_true_eq]
      split <;> omega
    · exact nomatch h
  · split at h <;> exact nomatch h

theorem unpack_of_isNaNBits {bits : BitVec Format.binary64.numBits} (h : isNaNBits bits) :
    UnpackedFloat.unpack Format.binary64 bits = .notANumber := by
  unfold isNaNBits at h
  obtain ⟨hexponent, hmantissa⟩ := of_decide_eq_true h
  unfold UnpackedFloat.unpack
  rw [if_pos hexponent, if_neg hmantissa]

/-- All bits that are undefined stand for one number. -/
theorem toBits_ofBits (bits : UInt64) :
    (Float.ofBits bits).toBits =
      if ExactNumber.ofBits bits = .undefined then 0x7FF8000000000000 else bits := by
  have hpacked : (Float.ofBits bits).toBits.toBitVec =
      UnpackedFloat.pack Format.binary64 (UnpackedFloat.unpack Format.binary64 bits.toBitVec) := rfl
  apply UInt64.toBitVec_inj.mp
  rw [hpacked]
  split
  · rename_i h
    rw [Bits.unpack_ofBits, h]
    rfl
  · rename_i h
    rw [pack_unpack, if_neg]
    intro hnan
    apply h
    apply Bits.eq_undefined_of_unpacked
    rw [← Bits.unpack_ofBits, unpack_of_isNaNBits hnan]

theorem ofFloat_ofBits (bits : UInt64) :
    ExactNumber.ofFloat (Float.ofBits bits) = ExactNumber.ofBits bits := by
  rw [ExactNumber.ofFloat, toBits_ofBits]
  split
  · rename_i h
    rw [h]
    rfl
  · rfl

theorem ofBits_beq_zero_iff (bits : UInt64) :
    Float.ofBits bits == 0 ↔ Bits.IsZero (.ofBits bits) := by
  rw [← ofFloat_ofBits]
  constructor
  · intro h
    rcases Bits.ofFloat_eq_of_beq h with heq | ⟨hzero, -⟩
    · exact ⟨false, -1074, heq⟩
    · exact hzero
  · rintro ⟨negative, exponent, hexact⟩
    rw [beq_zero_iff, place_eq, hexact]
    rfl

end Bits

/-- The bits of a number, read as a natural number, are the sign and the steps from zero. -/
theorem toNat_toBits {number : Float} (h : place number ≠ 0) :
    (number.toBits.toNat : Int) =
      if place number < 0 then 2 ^ 63 - place number else place number := by
  rw [place_eq] at h ⊢
  cases hexact : ExactNumber.ofBits number.toBits with
  | undefined =>
      have hbits := toBits_ofBits number.toBits
      rw [Float.ofBits_toBits, if_pos hexact] at hbits
      rw [ExactNumber.ofFloat, hexact, hbits]
      rfl
  | infinite negative =>
      rw [ExactNumber.ofFloat, hexact, toNat_of_infinite hexact]
      cases negative <;> rfl
  | finite negative significand exponent =>
      have hfar := (fits_of_ofBits hexact).le_steps
      rw [ExactNumber.ofFloat, hexact, Bits.unpacked] at h ⊢
      rw [toNat_of_finite hexact]
      split at h
      · rename_i hpos
        rw [dif_pos hpos]
        cases negative <;>
          simp only [Bits.signOf, placeOf, withSign, Bool.false_eq_true, if_true, if_false]
        · rw [if_neg (by omega), zero_add]
        · rw [if_pos (by omega), sub_neg_eq_add]
      · exact absurd rfl h

end NumberLine

/-! ### The numbers of scripts -/

namespace Number

open NumberLine

theorem toFloat_ofFloat (value : Float) : (ofFloat value).toFloat = value :=
  Float.ofBits_toBits value

theorem ofFloat_toFloat (number : Number) : ExactNumber.ofFloat number.toFloat = number.exact :=
  ofFloat_ofBits number.bits

theorem beq_eq (left right : Number) : (left == right) = (left.toFloat == right.toFloat) :=
  rfl

theorem isUndefined_iff_exact {number : Number} :
    number.isUndefined ↔ number.exact = .undefined :=
  beq_iff_eq

theorem isUndefined_iff {number : Number} : number.isUndefined ↔ number.toFloat.isNaN := by
  rw [isUndefined_iff_exact, isNaN_iff, Bits.unpack_toModel, ofFloat_toFloat]
  exact ⟨fun h => by rw [h]; rfl, Bits.eq_undefined_of_unpacked⟩

/-- The bits of a defined number are those of its double. -/
theorem toBits_toFloat {number : Number} (h : ¬number.isUndefined) :
    number.toFloat.toBits = number.bits := by
  rw [isUndefined_iff_exact] at h
  exact (toBits_ofBits number.bits).trans (if_neg h)

/-- The undefined numbers are those that are not even equal to themselves. -/
theorem isUndefined_iff_not_beq_self {number : Number} :
    number.isUndefined ↔ ¬number == number := by
  rw [isUndefined_iff, beq_eq, beq_iff_compare]
  constructor
  · intro h
    rw [compare_of_isNaN (.inl h)]
    exact nofun
  · intro h
    by_contra hdefined
    rw [compare_of_not_isNaN hdefined hdefined, Int.compare_eq_eq.mpr rfl] at h
    exact h rfl

end Number

end ScriptEngine
