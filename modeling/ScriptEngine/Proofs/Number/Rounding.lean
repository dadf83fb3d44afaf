import Mathlib

/-!
# Rounding to floating-point numbers

The logical model of the floating-point operations rounds an exact result to 53 bits. Here is what
that comes to for results that are not too small: one that lies less than half a unit above a number
of 53 bits is not rounded above it.
-/

namespace ScriptEngine

namespace Rounding

open Float.Model Float.Model.UnpackedFloat

/-- A significand with all of its 53 bits. -/
structure IsFull (significand : Nat) : Prop where
  lower : 2 ^ 52 ≤ significand
  upper : significand < 2 ^ 53

theorem mantissa_shiftRight (extended : ExtendedMantissa) (count : Nat) :
    (extended >>> count).mantissa = extended.mantissa / 2 ^ count := by
  change (count.repeat ExtendedMantissa.shiftRightOne extended).mantissa = _
  induction count with
  | zero => simp [Nat.repeat]
  | succ count ih =>
      change (count.repeat ExtendedMantissa.shiftRightOne extended).mantissa / 2 = _
      rw [ih, Nat.div_div_eq_div_mul, pow_succ]

theorem roundBit_shiftRight_succ (extended : ExtendedMantissa) (count : Nat) :
    (extended >>> (count + 1)).roundBit = (extended.mantissa / 2 ^ count % 2 != 0) := by
  rw [← mantissa_shiftRight]
  rfl

variable {extended : ExtendedMantissa} {bound : Nat}

theorem mantissa_le_roundedMantissa (extended : ExtendedMantissa) :
    extended.mantissa ≤ extended.roundedMantissa := by
  obtain ⟨mantissa, round, sticky⟩ := extended
  cases round <;> cases sticky <;>
    simp [ExtendedMantissa.roundedMantissa, ExtendedMantissa.accuracy, Accuracy.roundToNearestEven]

theorem roundedMantissa_le_succ (extended : ExtendedMantissa) :
    extended.roundedMantissa ≤ extended.mantissa + 1 := by
  obtain ⟨mantissa, round, sticky⟩ := extended
  cases round <;> cases sticky <;>
    simp only [ExtendedMantissa.roundedMantissa, ExtendedMantissa.accuracy,
      Accuracy.roundToNearestEven] <;> omega

theorem roundedMantissa_of_roundBit (h : extended.roundBit = false) :
    extended.roundedMantissa = extended.mantissa := by
  obtain ⟨mantissa, round, sticky⟩ := extended
  obtain rfl : round = false := h
  cases sticky <;> rfl

theorem roundedMantissa_le (h : extended.mantissa < bound ∨
    extended.mantissa = bound ∧ extended.roundBit = false) :
    extended.roundedMantissa ≤ bound := by
  rcases h with hlt | ⟨heq, hround⟩
  · exact (roundedMantissa_le_succ extended).trans hlt
  · rw [roundedMantissa_of_roundBit hround, heq]

/-- A quotient by a power of two that is less than a half above a bound rounds to at most that. -/
theorem roundedMantissa_shiftRight_le {significand count : Nat}
    (h : 2 * significand < (2 * bound + 1) * 2 ^ count) :
    ((⟨significand, false, false⟩ : ExtendedMantissa) >>> count).roundedMantissa ≤ bound := by
  apply roundedMantissa_le
  rw [mantissa_shiftRight]
  cases count with
  | zero =>
      simp only [pow_zero, Nat.div_one] at h ⊢
      by_cases hlt : significand < bound
      · exact .inl hlt
      · exact .inr ⟨by omega, rfl⟩
  | succ count =>
      have hhalf : significand / 2 ^ count ≤ 2 * bound := by
        have : significand < (2 * bound + 1) * 2 ^ count := by
          rw [pow_succ] at h
          linarith
        exact Nat.lt_succ_iff.mp ((Nat.div_lt_iff_lt_mul (by positivity)).mpr this)
      rw [roundBit_shiftRight_succ]
      simp only [pow_succ, ← Nat.div_div_eq_div_mul]
      generalize significand / 2 ^ count = half at hhalf
      by_cases hlt : half / 2 < bound
      · exact .inl hlt
      · have heq : half = 2 * bound := by omega
        refine .inr ⟨by omega, ?_⟩
        rw [heq]
        simp

/-! ### Rounding a product -/

/-- The number of places by which a significand is longer than 53 bits. -/
def excess (significand : Nat) : Nat := significand.log2 - 52

theorem shiftToTargetExponent_eq {significand : Nat} {exponent : Int}
    (hsignificand : 2 ^ 52 ≤ significand) (hexponent : -1074 ≤ exponent) :
    shiftToTargetExponent Format.binary64 significand exponent .exact =
      ((⟨significand, false, false⟩ : ExtendedMantissa) >>> excess significand,
        exponent + excess significand) := by
  have hlog : 52 ≤ significand.log2 := (Nat.le_log2 (by omega)).mpr hsignificand
  have htarget : (Format.binary64.targetExponent (totalExponent significand exponent) -
      exponent).toNat = excess significand := by
    change (max ((significand.log2 : Int) + 1 + exponent - 53) (-1074) - exponent).toNat =
      significand.log2 - 52
    omega
  unfold shiftToTargetExponent shiftToExponent
  simp only [htarget]
  rfl

theorem div_two_pow_excess {significand : Nat} (h : 2 ^ 52 ≤ significand) :
    IsFull (significand / 2 ^ excess significand) := by
  have hlog : 52 ≤ significand.log2 := (Nat.le_log2 (by omega)).mpr h
  have hlower : 2 ^ (52 + excess significand) ≤ significand := by
    rw [excess, Nat.add_sub_cancel' hlog]
    exact Nat.log2_self_le (by omega)
  have hupper : significand < 2 ^ (53 + excess significand) := by
    have hbelow := Nat.lt_log2_self (n := significand)
    rwa [show significand.log2 + 1 = 53 + excess significand by unfold excess; omega] at hbelow
  constructor
  · rw [Nat.le_div_iff_mul_le (by positivity), ← pow_add]
    exact hlower
  · rw [Nat.div_lt_iff_lt_mul (by positivity), ← pow_add]
    exact hupper

/-- The significand that an exact value is rounded to, before it is brought back to 53 bits. -/
def rounded (significand : Nat) : Nat :=
  ((⟨significand, false, false⟩ : ExtendedMantissa) >>> excess significand).roundedMantissa

theorem le_rounded {significand : Nat} (h : 2 ^ 52 ≤ significand) :
    2 ^ 52 ≤ rounded significand := by
  refine le_trans ?_ (mantissa_le_roundedMantissa _)
  rw [mantissa_shiftRight]
  exact (div_two_pow_excess h).lower

theorem rounded_le_two_pow {significand : Nat} (h : 2 ^ 52 ≤ significand) :
    rounded significand ≤ 2 ^ 53 := by
  refine le_trans (roundedMantissa_le_succ _) ?_
  rw [mantissa_shiftRight]
  exact (div_two_pow_excess h).upper

theorem two_zpow_pos (exponent : Int) : (0 : ℚ) < 2 ^ exponent := by positivity

theorem two_zpow_add (first second : Int) : (2 : ℚ) ^ (first + second) = 2 ^ first * 2 ^ second :=
  zpow_add₀ (by norm_num) first second

/-- What an exact value is rounded to goes no higher than a full significand that the value is less
than half a unit above. -/
theorem rounded_mul_le {significand bound : Nat} {exponent limit : Int}
    (hsignificand : 2 ^ 52 ≤ significand) (hbound : IsFull bound)
    (h : 2 * (significand : ℚ) * 2 ^ exponent < (2 * bound + 1) * 2 ^ limit) :
    (rounded significand : ℚ) * 2 ^ (exponent + excess significand) ≤ bound * 2 ^ limit := by
  have hpos := two_zpow_pos exponent
  have hlower : (2 : ℚ) ^ 52 ≤ bound := by exact_mod_cast hbound.lower
  have hupper : (bound : ℚ) + 1 ≤ 2 ^ 53 := by exact_mod_cast hbound.upper
  rcases lt_trichotomy (exponent + excess significand) limit with hlt | heq | hgt
  · have htop : (rounded significand : ℚ) ≤ 2 ^ 53 := by
      exact_mod_cast rounded_le_two_pow hsignificand
    have hstep : (2 : ℚ) ^ (exponent + excess significand + 1) ≤ 2 ^ limit :=
      zpow_le_zpow_right₀ (by norm_num) hlt
    rw [two_zpow_add _ 1, zpow_one] at hstep
    have hplace := two_zpow_pos (exponent + excess significand)
    nlinarith
  · rw [← heq] at h ⊢
    rw [two_zpow_add, zpow_natCast] at h
    have hhalf : 2 * significand < (2 * bound + 1) * 2 ^ excess significand := by
      have : 2 * (significand : ℚ) < (2 * bound + 1) * 2 ^ excess significand := by
        by_contra hnot
        nlinarith
      exact_mod_cast this
    have hrounded : rounded significand ≤ bound := roundedMantissa_shiftRight_le hhalf
    have : (rounded significand : ℚ) ≤ bound := by exact_mod_cast hrounded
    exact mul_le_mul_of_nonneg_right this (two_zpow_pos _).le
  · exfalso
    have hfloor := (div_two_pow_excess hsignificand).lower
    rw [Nat.le_div_iff_mul_le (by positivity)] at hfloor
    have hlow : (2 : ℚ) ^ 52 * 2 ^ excess significand ≤ significand := by exact_mod_cast hfloor
    have hstep : (2 : ℚ) ^ (limit + 1) ≤ 2 ^ (exponent + excess significand) :=
      zpow_le_zpow_right₀ (by norm_num) hgt
    rw [two_zpow_add, two_zpow_add, zpow_one, zpow_natCast] at hstep
    have hplace := two_zpow_pos limit
    nlinarith

/-- An exact value of 53 bits and more is rounded to a full significand. It goes no higher than a
full significand that it is less than half a unit above. -/
theorem roundWithAccuracy_exact (sign : Sign) {significand : Nat} {exponent : Int}
    (hsignificand : 2 ^ 52 ≤ significand) (hexponent : -1074 ≤ exponent) :
    ∃ (full : Nat) (place : Int) (hpos : 0 < full),
      roundWithAccuracy Format.binary64 sign significand exponent .exact =
        .finite sign full place hpos ∧ IsFull full ∧ exponent ≤ place ∧
      ∀ (bound : Nat) (limit : Int), IsFull bound →
        2 * (significand : ℚ) * 2 ^ exponent < (2 * bound + 1) * 2 ^ limit →
        (full : ℚ) * 2 ^ place ≤ bound * 2 ^ limit := by
  have hrounded := le_rounded hsignificand
  have hfull := div_two_pow_excess hrounded
  refine ⟨rounded significand / 2 ^ excess (rounded significand),
    exponent + excess significand + excess (rounded significand),
    lt_of_lt_of_le (by norm_num) hfull.lower, ?_, hfull, by omega, ?_⟩
  · have hsecond : shiftToTargetExponent Format.binary64
        ((⟨significand, false, false⟩ : ExtendedMantissa) >>> excess significand).roundedMantissa
        (exponent + excess significand) .exact =
          ((⟨rounded significand, false, false⟩ : ExtendedMantissa) >>>
            excess (rounded significand),
            exponent + excess significand + excess (rounded significand)) :=
      shiftToTargetExponent_eq hrounded (by omega)
    unfold roundWithAccuracy
    rw [shiftToTargetExponent_eq hsignificand hexponent]
    simp only [hsecond, mantissa_shiftRight]
    rw [dif_neg (Nat.ne_of_gt (lt_of_lt_of_le (by norm_num) hfull.lower))]
  · intro bound limit hbound h
    refine le_trans ?_ (rounded_mul_le hsignificand hbound h)
    rw [two_zpow_add _ (excess (rounded significand)), zpow_natCast]
    have hdiv : ((rounded significand / 2 ^ excess (rounded significand) : Nat) : ℚ) *
        2 ^ excess (rounded significand) ≤ rounded significand := by
      exact_mod_cast Nat.div_mul_le_self _ _
    have hplace := two_zpow_pos (exponent + excess significand)
    nlinarith

/-! ### Storing a number -/

theorem toNat_implicitBit {full : Nat} (h : IsFull full) :
    (1#1 ++ BitVec.ofNat 52 full).toNat = full := by
  have hlower := h.lower
  have hupper := h.upper
  rw [BitVec.toNat_append, BitVec.toNat_ofNat, BitVec.toNat_ofNat,
    ← Nat.shiftLeft_add_eq_or_of_lt (Nat.mod_lt _ (by positivity)), Nat.shiftLeft_eq]
  omega

/-- A full significand at a place in the range is stored as it is. -/
theorem unpack_pack {sign : Sign} {full : Nat} {place : Int} {hpos : 0 < full} (h : IsFull full)
    (hlow : -1074 ≤ place) (hhigh : place ≤ 971) :
    unpack Format.binary64 (pack Format.binary64 (.finite sign full place hpos)) =
      .finite sign full place hpos := by
  have hlog : full.log2 = 52 := (Nat.log2_eq_iff hpos.ne').mpr ⟨h.lower, h.upper⟩
  have hbias : place + (Format.binary64.exponentBias : Int) +
      (Format.binary64.mantissaBitsWithoutImplicit : Int) = place + 1075 := by
    have hexponentBias : Format.binary64.exponentBias = 1023 := by decide
    have hmantissaBits : Format.binary64.mantissaBitsWithoutImplicit = 52 := rfl
    rw [hexponentBias, hmantissaBits]
    omega
  have hrange : ¬ 2 ^ Format.binary64.exponentBits ≤ (place + 1075).toNat + 1 := by
    have : 2 ^ Format.binary64.exponentBits = 2048 := by decide
    omega
  have hbits : full.log2 + 1 = Format.binary64.mantissaBits := by
    rw [hlog]
    rfl
  have hpack : UnpackedFloat.pack Format.binary64 (.finite sign full place hpos) =
      packComponents Format.binary64 sign (BitVec.ofNat 11 (place + 1075).toNat)
        (BitVec.ofNat 52 full) := by
    simp only [UnpackedFloat.pack, hbias, if_neg hrange, if_pos hbits]
  have hexponent : (BitVec.ofNat 11 (place + 1075).toNat).toNat = (place + 1075).toNat := by
    rw [BitVec.toNat_ofNat]
    omega
  have hfinite : BitVec.ofNat 11 (place + 1075).toNat ≠ -1#11 := by
    intro heq
    have := congrArg BitVec.toNat heq
    rw [hexponent] at this
    simp at this
    omega
  have hnormal : BitVec.ofNat 11 (place + 1075).toNat ≠ 0#11 := by
    intro heq
    have := congrArg BitVec.toNat heq
    rw [hexponent] at this
    simp at this
    omega
  rw [hpack]
  unfold UnpackedFloat.unpack
  simp only [unpackMantissa_packComponents, unpackExponent_packComponents,
    unpackSign_packComponents, Sign.ofBitVec_toBitVec, if_neg hfinite, if_neg hnormal]
  congr 1
  · exact toNat_implicitBit h
  · have hexponentBias : Format.binary64.exponentBias = 1023 := by decide
    rw [hexponent, hexponentBias]
    omega

/-! ### Numbers that are not too small -/

/-- A floating-point number is `full * 2 ^ place`. -/
structure Represents (number : Float) (full : Nat) (place : Int) : Prop where
  isFull : IsFull full
  low : -1074 ≤ place
  high : place ≤ 971
  unpack_eq : ∃ hpos, number.toModel.unpack = .finite .positive full place hpos

theorem Represents.not_isInf {number : Float} {full : Nat} {place : Int}
    (h : Represents number full place) : number.isInf = false := by
  obtain ⟨hpos, hunpack⟩ := h.unpack_eq
  change number.toModel.unpack.isInf = false
  rw [hunpack]
  rfl

/-- The greatest place that a number can have. -/
theorem place_le_of_mul_le {full bound : Nat} {place limit : Int} (hfull : IsFull full)
    (hbound : IsFull bound) (h : (full : ℚ) * 2 ^ place ≤ bound * 2 ^ limit) : place ≤ limit := by
  by_contra hnot
  have hlower : (2 : ℚ) ^ 52 ≤ full := by exact_mod_cast hfull.lower
  have hupper : (bound : ℚ) + 1 ≤ 2 ^ 53 := by exact_mod_cast hbound.upper
  have hstep : (2 : ℚ) ^ (limit + 1) ≤ 2 ^ place := zpow_le_zpow_right₀ (by norm_num) (by omega)
  rw [two_zpow_add, zpow_one] at hstep
  have hpos := two_zpow_pos limit
  nlinarith

/-- An exact value below the range of the numbers is rounded to a number. -/
theorem represents_round {significand top : Nat} {exponent limit : Int}
    (hsignificand : 2 ^ 52 ≤ significand) (hexponent : -1074 ≤ exponent) (htop : IsFull top)
    (hlimit : limit ≤ 971)
    (h : 2 * (significand : ℚ) * 2 ^ exponent < (2 * top + 1) * 2 ^ limit) :
    ∃ full place, Represents
        (.ofModel (.pack (roundWithAccuracy Format.binary64 .positive significand exponent .exact)))
        full place ∧ exponent ≤ place ∧
      ∀ (bound : Nat) (limit : Int), IsFull bound →
        2 * (significand : ℚ) * 2 ^ exponent < (2 * bound + 1) * 2 ^ limit →
        (full : ℚ) * 2 ^ place ≤ bound * 2 ^ limit := by
  obtain ⟨full, place, hpos, hround, hfull, hplace, hbounds⟩ :=
    roundWithAccuracy_exact .positive hsignificand hexponent
  have hhigh : place ≤ 971 := (place_le_of_mul_le hfull htop (hbounds top limit htop h)).trans hlimit
  refine ⟨full, place, ⟨hfull, by omega, hhigh, hpos, ?_⟩, hplace, hbounds⟩
  rw [hround]
  exact unpack_pack hfull (by omega) hhigh

theorem Represents.mul {left right : Float} {first second top : Nat}
    {firstPlace secondPlace limit : Int} (hleft : Represents left first firstPlace)
    (hright : Represents right second secondPlace) (hplaces : -1074 ≤ firstPlace + secondPlace)
    (htop : IsFull top) (hlimit : limit ≤ 971)
    (h : 2 * ((first * second : Nat) : ℚ) * 2 ^ (firstPlace + secondPlace) <
      (2 * top + 1) * 2 ^ limit) :
    ∃ full place, Represents (left * right) full place ∧ firstPlace + secondPlace ≤ place ∧
      ∀ (bound : Nat) (limit : Int), IsFull bound →
        2 * ((first * second : Nat) : ℚ) * 2 ^ (firstPlace + secondPlace) <
          (2 * bound + 1) * 2 ^ limit →
        (full : ℚ) * 2 ^ place ≤ bound * 2 ^ limit := by
  obtain ⟨hfirst, hleft_eq⟩ := hleft.unpack_eq
  obtain ⟨hsecond, hright_eq⟩ := hright.unpack_eq
  have hproduct : 2 ^ 52 ≤ first * second :=
    le_trans hleft.isFull.lower (Nat.le_mul_of_pos_right first hsecond)
  have hmul : left * right = .ofModel (.pack (roundWithAccuracy Format.binary64 .positive
      (first * second) (firstPlace + secondPlace) .exact)) := by
    change Float.ofModel (.pack (UnpackedFloat.mul _ left.toModel.unpack right.toModel.unpack)) = _
    rw [hleft_eq, hright_eq]
    rfl
  rw [hmul]
  exact represents_round hproduct hplaces htop hlimit h

/-! ### Numbers that are made from natural ones -/

theorem ofScientific_eq {significand exponent : Nat} (hpos : 0 < significand)
    (hexponent : exponent ≤ 308) :
    Float.Model.ofScientific significand (Int.ofNat exponent) =
      .pack (roundWithAccuracy Format.binary64 .positive (significand * 2 ^ 53 * 10 ^ exponent) (-53)
        .exact) := by
  have hsmall : ¬ (Int.ofNat exponent > 2 ^ Format.binary64.exponentBits) := by
    change ¬ ((exponent : Int) > 2048)
    omega
  have hlarge : ¬ (Int.ofNat exponent <
      -((2 ^ Format.binary64.exponentBits : Int) + significand.log2)) := by
    change ¬ ((exponent : Int) < -(2048 + (significand.log2 : Int)))
    omega
  have hnonneg : 0 ≤ Int.ofNat exponent := Int.natCast_nonneg exponent
  unfold Float.Model.ofScientific UnpackedFloat.ofScientific
  rw [dif_neg hpos.ne', if_neg hsmall, if_neg hlarge, if_pos hnonneg]
  change Float.Model.pack (roundWithAccuracy Format.binary64 .positive
    (significand <<< 53 * 10 ^ exponent) (-53 + 0) .exact) = _
  rw [Nat.shiftLeft_eq, add_zero]

/-- A natural number next to the exact value of `significand * 10 ^ exponent`. -/
theorem represents_ofScientific {significand exponent top : Nat} {limit : Int}
    (hpos : 0 < significand) (hexponent : exponent ≤ 308) (htop : IsFull top) (hlimit : limit ≤ 971)
    (h : 2 * ((significand * 10 ^ exponent : Nat) : ℚ) < (2 * top + 1) * 2 ^ limit) :
    ∃ full place, Represents (.ofModel (.ofScientific significand (Int.ofNat exponent))) full place ∧
      -53 ≤ place ∧ ∀ (bound : Nat) (limit : Int), IsFull bound →
        2 * ((significand * 10 ^ exponent : Nat) : ℚ) < (2 * bound + 1) * 2 ^ limit →
        (full : ℚ) * 2 ^ place ≤ bound * 2 ^ limit := by
  have hvalue : ((significand * 2 ^ 53 * 10 ^ exponent : Nat) : ℚ) * 2 ^ (-53 : Int) =
      ((significand * 10 ^ exponent : Nat) : ℚ) := by
    have hcancel : (2 : ℚ) ^ 53 * 2 ^ (-53 : Int) = 1 := by norm_num
    rw [Nat.cast_mul, Nat.cast_mul, Nat.cast_pow, Nat.cast_mul, Nat.cast_ofNat]
    linear_combination (significand * (10 ^ exponent : Nat) : ℚ) * hcancel
  have hlower : 2 ^ 52 ≤ significand * 2 ^ 53 * 10 ^ exponent := by
    have hten : 0 < 10 ^ exponent := by positivity
    nlinarith [Nat.mul_pos hpos hten]
  rw [ofScientific_eq hpos hexponent]
  have hround := @represents_round (significand * 2 ^ 53 * 10 ^ exponent) top (-53) limit
    hlower (by norm_num) htop hlimit
  rw [mul_assoc, hvalue] at hround
  simp only [mul_assoc] at hround ⊢
  exact hround h

/-- The number one. -/
theorem represents_one : Represents (Float.ofBits 0x3FF0000000000000) (2 ^ 52) (-52) := by
  refine ⟨⟨le_rfl, by norm_num⟩, by norm_num, by norm_num, by norm_num, rfl⟩

theorem toUInt64_toFloat {number : Nat} (hpos : 0 < number) (h : number < 2 ^ 53) :
    number.toUInt64.toFloat = .ofModel (.pack (roundWithAccuracy Format.binary64 .positive
      (number * 2 ^ (52 - number.log2)) (-((52 - number.log2 : Nat) : Int)) .exact)) := by
  have hlog : number.log2 ≤ 52 := Nat.lt_succ_iff.mp ((Nat.log2_lt hpos.ne').mpr h)
  have hsize : number.toUInt64.toNat = number := by
    rw [Nat.toUInt64, UInt64.toNat_ofNat']
    exact Nat.mod_eq_of_lt (h.trans (by norm_num))
  have hsign : compare (number : Int) 0 = .gt := by
    rw [compare_gt_iff_gt]
    omega
  have htarget : Format.binary64.targetExponent (totalExponent number 0) =
      -((52 - number.log2 : Nat) : Int) := by
    change max ((number.log2 : Int) + 1 + 0 - 53) (-1074) = _
    omega
  change Float.ofModel (.pack (UnpackedFloat.normalize Format.binary64 number.toUInt64.toNat 0
    .positive)) = _
  rw [hsize]
  unfold UnpackedFloat.normalize
  rw [hsign]
  simp only [UnpackedFloat.round, Int.toNat_natCast, htarget, decreaseExponent]
  rw [Nat.shiftLeft_eq]
  simp

theorem ofNat_of_small {number : Nat} (h : number < 2 ^ 53) :
    Float.ofNat number = number.toUInt64.toFloat * Float.ofBits 0x3FF0000000000000 := by
  change Float.ofScientific number false 0 = _
  unfold Float.ofScientific
  rw [dif_pos ⟨h, by omega⟩]
  rfl

theorem ofScientific_of_large {significand exponent : Nat}
    (h : ¬ (significand < 2 ^ 53 ∧ exponent ≤ 22)) :
    Float.ofScientific significand false exponent =
      .ofModel (.ofScientific significand (Int.ofNat exponent)) := by
  unfold Float.ofScientific
  rw [dif_neg h]
  rfl

theorem represents_toUInt64_toFloat {number : Nat} (hpos : 0 < number) (h : number < 2 ^ 53) :
    ∃ full place, Represents number.toUInt64.toFloat full place ∧ -52 ≤ place ∧
      ∀ (bound : Nat) (limit : Int), IsFull bound →
        2 * (number : ℚ) < (2 * bound + 1) * 2 ^ limit →
        (full : ℚ) * 2 ^ place ≤ bound * 2 ^ limit := by
  have hlog : number.log2 ≤ 52 := Nat.lt_succ_iff.mp ((Nat.log2_lt hpos.ne').mpr h)
  have hlower : 2 ^ 52 ≤ number * 2 ^ (52 - number.log2) := by
    calc 2 ^ 52 = 2 ^ number.log2 * 2 ^ (52 - number.log2) := by
          rw [← pow_add, Nat.add_sub_cancel' hlog]
      _ ≤ number * 2 ^ (52 - number.log2) := Nat.mul_le_mul_right _ (Nat.log2_self_le hpos.ne')
  have hvalue : ((number * 2 ^ (52 - number.log2) : Nat) : ℚ) *
      2 ^ (-((52 - number.log2 : Nat) : Int)) = number := by
    rw [zpow_neg, zpow_natCast, Nat.cast_mul, Nat.cast_pow, Nat.cast_ofNat,
      mul_inv_cancel_right₀ (by positivity)]
  have hnumber : 2 * (number : ℚ) < (2 * (2 ^ 52 : Nat) + 1) * 2 ^ (1 : Int) := by
    have hle : (number : ℚ) ≤ 2 ^ 53 := by exact_mod_cast h.le
    have hright : (2 * ((2 ^ 52 : Nat) : ℚ) + 1) * 2 ^ (1 : Int) = 2 ^ 54 + 2 := by norm_num
    rw [hright]
    linarith
  have hround := @represents_round (number * 2 ^ (52 - number.log2)) (2 ^ 52)
    (-((52 - number.log2 : Nat) : Int)) 1 hlower (by omega) ⟨le_rfl, by norm_num⟩ (by norm_num)
  simp only [mul_assoc, hvalue] at hround
  rw [toUInt64_toFloat hpos h]
  obtain ⟨full, place, hfull, hplace, hbounds⟩ := hround hnumber
  exact ⟨full, place, hfull, by omega, hbounds⟩

/-- A natural number of at most 64 bits and one. -/
theorem represents_ofNat {number : Nat} (hpos : 0 < number) (h : number ≤ 2 ^ 64) :
    ∃ full place, Represents (Float.ofNat number) full place ∧ -104 ≤ place ∧
      ∀ (bound : Nat) (limit : Int), IsFull bound →
        2 * (number : ℚ) < (2 * bound + 1) * 2 ^ limit →
        (full : ℚ) * 2 ^ place ≤ bound * 2 ^ limit := by
  have htop : IsFull (2 ^ 52) := ⟨le_rfl, by norm_num⟩
  have hnumber : 2 * (number : ℚ) < (2 * (2 ^ 52 : Nat) + 1) * 2 ^ (12 : Int) := by
    have hle : (number : ℚ) ≤ 2 ^ 64 := by exact_mod_cast h
    have hright : (2 * ((2 ^ 52 : Nat) : ℚ) + 1) * 2 ^ (12 : Int) = 2 ^ 65 + 4096 := by norm_num
    rw [hright]
    linarith
  by_cases hsmall : number < 2 ^ 53
  · obtain ⟨first, firstPlace, hfirst, hfirstPlace, hfirstBounds⟩ :=
      represents_toUInt64_toFloat hpos hsmall
    have hvalue : ((first * 2 ^ 52 : Nat) : ℚ) * 2 ^ (firstPlace + -52) = first * 2 ^ firstPlace := by
      have hcancel : (2 : ℚ) ^ 52 * 2 ^ (-52 : Int) = 1 := by norm_num
      rw [two_zpow_add, Nat.cast_mul, Nat.cast_pow, Nat.cast_ofNat]
      linear_combination (first * 2 ^ firstPlace : ℚ) * hcancel
    have hbelow : ∀ (bound : Nat) (limit : Int), IsFull bound →
        2 * (number : ℚ) < (2 * bound + 1) * 2 ^ limit →
        2 * ((first * 2 ^ 52 : Nat) : ℚ) * 2 ^ (firstPlace + -52) < (2 * bound + 1) * 2 ^ limit := by
      intro bound limit hbound hlt
      have hle := hfirstBounds bound limit hbound hlt
      have hpositive := two_zpow_pos limit
      rw [mul_assoc, hvalue]
      nlinarith
    obtain ⟨full, place, hfull, hplace, hbounds⟩ := hfirst.mul represents_one (by omega) htop
      (by norm_num) (hbelow _ _ htop hnumber)
    rw [ofNat_of_small hsmall]
    exact ⟨full, place, hfull, by omega, fun bound limit hbound hlt =>
      hbounds bound limit hbound (hbelow bound limit hbound hlt)⟩
  · have hlarge := @represents_ofScientific number 0 (2 ^ 52) 12 hpos (by norm_num) htop
      (by norm_num)
    simp only [pow_zero, mul_one] at hlarge
    obtain ⟨full, place, hfull, hplace, hbounds⟩ := hlarge hnumber
    rw [show Float.ofNat number = Float.ofScientific number false 0 from rfl,
      ofScientific_of_large fun hboth => hsmall hboth.1]
    exact ⟨full, place, hfull, by omega, hbounds⟩

end Rounding

end ScriptEngine
