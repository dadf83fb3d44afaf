import ScriptEngine.Proofs.Number.Line

/-!
# Integers among the numbers

An integer of magnitude up to `2 ^ 53` is a floating-point number. The number that is made from it is
exactly it, and equals every number that stands for it.
-/

namespace ScriptEngine

namespace Rounding

open Float.Model Float.Model.UnpackedFloat

/-- A value of 53 bits with zeros after them is rounded to these bits. -/
theorem excess_mul_two_pow {full : Nat} (h : IsFull full) (count : Nat) :
    excess (full * 2 ^ count) = count := by
  have hlog : (full * 2 ^ count).log2 = 52 + count := by
    rw [Nat.log2_eq_iff (by have := h.lower; positivity)]
    constructor
    · rw [pow_add]
      exact Nat.mul_le_mul_right _ h.lower
    · rw [show 52 + count + 1 = 53 + count by omega, pow_add]
      exact Nat.mul_lt_mul_of_pos_right h.upper (by positivity)
  rw [excess, hlog, Nat.add_sub_cancel_left]

theorem rounded_mul_two_pow {full : Nat} (h : IsFull full) (count : Nat) :
    rounded (full * 2 ^ count) = full := by
  have hbit : ((⟨full * 2 ^ count, false, false⟩ : ExtendedMantissa) >>> count).roundBit = false := by
    cases count with
    | zero => rfl
    | succ count =>
        rw [roundBit_shiftRight_succ]
        have heven : full * 2 ^ (count + 1) / 2 ^ count = full * 2 := by
          rw [pow_succ', ← mul_assoc]
          exact Nat.mul_div_cancel _ (by positivity)
        simp [heven]
  rw [rounded, excess_mul_two_pow h, roundedMantissa_of_roundBit hbit, mantissa_shiftRight]
  exact Nat.mul_div_cancel _ (by positivity)

theorem round_mul_two_pow (sign : Sign) {full : Nat} (h : IsFull full) (hpos : 0 < full) (count : Nat)
    {exponent : Int} (hexponent : -1074 ≤ exponent) :
    roundWithAccuracy Format.binary64 sign (full * 2 ^ count) exponent .exact =
      .finite sign full (exponent + count) hpos := by
  have hlower : 2 ^ 52 ≤ full * 2 ^ count :=
    h.lower.trans (Nat.le_mul_of_pos_right full (by positivity))
  have hrounded := rounded_mul_two_pow h count
  rw [rounded, excess_mul_two_pow h] at hrounded
  have hnone : excess full = 0 := by
    simpa using excess_mul_two_pow h 0
  have hsecond : shiftToTargetExponent Format.binary64
      ((⟨full * 2 ^ count, false, false⟩ : ExtendedMantissa) >>> count).roundedMantissa
      (exponent + count) .exact =
        ((⟨full, false, false⟩ : ExtendedMantissa) >>> 0, exponent + count) := by
    rw [hrounded, shiftToTargetExponent_eq h.lower (by omega), hnone]
    simp
  unfold roundWithAccuracy
  rw [shiftToTargetExponent_eq hlower hexponent, excess_mul_two_pow h]
  simp only [hsecond, mantissa_shiftRight, pow_zero, Nat.div_one]
  rw [dif_neg hpos.ne']

/-! ### Natural numbers up to `2 ^ 53` -/

theorem isFull_shifted {number : Nat} (hpos : 0 < number) (h : number < 2 ^ 53) :
    IsFull (number * 2 ^ (52 - number.log2)) := by
  have hlog : number.log2 ≤ 52 := Nat.lt_succ_iff.mp ((Nat.log2_lt hpos.ne').mpr h)
  constructor
  · calc 2 ^ 52 = 2 ^ number.log2 * 2 ^ (52 - number.log2) := by
          rw [← pow_add, Nat.add_sub_cancel' hlog]
      _ ≤ number * 2 ^ (52 - number.log2) :=
          Nat.mul_le_mul_right _ (Nat.log2_self_le hpos.ne')
  · calc number * 2 ^ (52 - number.log2)
      _ < 2 ^ (number.log2 + 1) * 2 ^ (52 - number.log2) :=
          Nat.mul_lt_mul_of_pos_right Nat.lt_log2_self (by positivity)
      _ = 2 ^ 53 := by
          rw [← pow_add]
          congr 1
          omega

theorem shifted_mul_two_zpow (number count : Nat) :
    ((number * 2 ^ count : Nat) : ℚ) * 2 ^ (-(count : Int)) = number := by
  rw [zpow_neg, zpow_natCast, Nat.cast_mul, Nat.cast_pow, Nat.cast_ofNat,
    mul_inv_cancel_right₀ (by positivity)]

/-- Two full significands with the same value are the same, and so are their places. -/
theorem eq_of_mul_two_zpow_eq {full other : Nat} {place otherPlace : Int} (hfull : IsFull full)
    (hother : IsFull other) (h : (full : ℚ) * 2 ^ place = other * 2 ^ otherPlace) :
    full = other ∧ place = otherPlace := by
  obtain rfl : place = otherPlace := by
    apply le_antisymm
    · exact place_le_of_mul_le hfull hother h.le
    · exact place_le_of_mul_le hother hfull h.ge
  have hpos := two_zpow_pos place
  have hcast : (full : ℚ) = other := mul_right_cancel₀ hpos.ne' h
  exact ⟨by exact_mod_cast hcast, rfl⟩

theorem represents_pack {full : Nat} (h : IsFull full) {place : Int} (hlow : -1074 ≤ place)
    (hhigh : place ≤ 971) (hpos : 0 < full) :
    Represents (.ofModel (.pack (.finite .positive full place hpos))) full place :=
  ⟨h, hlow, hhigh, hpos, unpack_pack h hlow hhigh⟩

theorem Represents.mul_one {number : Float} {full : Nat} {place : Int}
    (h : Represents number full place) (hplace : -1022 ≤ place) :
    Represents (number * Float.ofBits 0x3FF0000000000000) full place := by
  obtain ⟨hpos, hnumber⟩ := h.unpack_eq
  obtain ⟨hone, hunpack⟩ := represents_one.unpack_eq
  have hmul : number * Float.ofBits 0x3FF0000000000000 = .ofModel (.pack
      (roundWithAccuracy Format.binary64 .positive (full * 2 ^ 52) (place + -52) .exact)) := by
    change Float.ofModel (.pack (UnpackedFloat.mul _ number.toModel.unpack
      (Float.ofBits 0x3FF0000000000000).toModel.unpack)) = _
    rw [hnumber, hunpack]
    rfl
  have hexponent : place + -52 + (52 : Nat) = place := by omega
  rw [hmul, round_mul_two_pow .positive h.isFull hpos 52 (by omega), hexponent]
  exact represents_pack h.isFull h.low h.high hpos

/-- The number that is made from a natural number of at most `2 ^ 53` has just its value. -/
theorem represents_ofNat_exact {number : Nat} (hpos : 0 < number) (h : number ≤ 2 ^ 53) :
    ∃ full place, Represents (Float.ofNat number) full place ∧ (full : ℚ) * 2 ^ place = number := by
  rcases h.eq_or_lt with rfl | hsmall
  · refine ⟨2 ^ 52, 1, ?_, by norm_num⟩
    have hfull : IsFull (2 ^ 52) := ⟨le_rfl, by norm_num⟩
    have hround := round_mul_two_pow .positive hfull (by norm_num) 54
      (show -1074 ≤ (-53 : Int) by norm_num)
    rw [show Float.ofNat (2 ^ 53) = Float.ofScientific (2 ^ 53) false 0 from rfl,
      ofScientific_of_large (by norm_num), ofScientific_eq (by norm_num) (by norm_num),
      show 2 ^ 53 * 2 ^ 53 * 10 ^ 0 = 2 ^ 52 * 2 ^ 54 by norm_num, hround]
    exact represents_pack hfull (by norm_num) (by norm_num) (by norm_num)
  · have hfull := isFull_shifted hpos hsmall
    have hround := round_mul_two_pow .positive hfull (lt_of_lt_of_le (by norm_num) hfull.lower) 0
      (show -1074 ≤ -((52 - number.log2 : Nat) : Int) by omega)
    rw [pow_zero, mul_one, Nat.cast_zero, add_zero] at hround
    refine ⟨_, _, ?_, shifted_mul_two_zpow number (52 - number.log2)⟩
    rw [ofNat_of_small hsmall, toUInt64_toFloat hpos hsmall, hround]
    exact (represents_pack hfull (by omega) (by omega) _).mul_one (by omega)

/-! ### Integers -/

/-- The whole part of a number without a fractional part is its value. -/
theorem wholePart_eq {significand : Nat} {exponent : Int}
    (h : significand % (1 <<< (-exponent).toNat) = 0) :
    (significand : ℚ) * 2 ^ exponent = ExactNumber.wholePart significand exponent := by
  unfold ExactNumber.wholePart
  rw [Nat.shiftLeft_eq, Nat.shiftRight_eq_div_pow]
  rw [Nat.one_shiftLeft] at h
  rcases le_total 0 exponent with hnonneg | hneg
  · obtain ⟨count, rfl⟩ := Int.eq_ofNat_of_zero_le hnonneg
    simp
  · obtain ⟨count, hcount⟩ := Int.eq_ofNat_of_zero_le (Int.neg_nonneg_of_nonpos hneg)
    obtain rfl : exponent = -(count : Int) := by omega
    have hcount : (-(-(count : Int))).toNat = count := by omega
    have hzero : (-(count : Int)).toNat = 0 := by omega
    rw [hcount] at h ⊢
    obtain ⟨whole, rfl⟩ := Nat.dvd_of_mod_eq_zero h
    rw [hzero, pow_zero, mul_one, Nat.mul_div_cancel_left _ (by positivity), mul_comm (2 ^ count)]
    exact shifted_mul_two_zpow whole count

/-- A number whose value is a natural number has no fractional part. -/
theorem mod_eq_zero_of_mul_two_zpow {significand whole : Nat} {exponent : Int}
    (h : (significand : ℚ) * 2 ^ exponent = whole) :
    significand % (1 <<< (-exponent).toNat) = 0 := by
  rcases le_total 0 exponent with hnonneg | hneg
  · rw [show (-exponent).toNat = 0 by omega]
    exact Nat.mod_one significand
  · obtain ⟨count, hcount⟩ := Int.eq_ofNat_of_zero_le (Int.neg_nonneg_of_nonpos hneg)
    obtain rfl : exponent = -(count : Int) := by omega
    have hfactor : (significand : ℚ) = whole * 2 ^ count := by
      rw [← h, zpow_neg, zpow_natCast, mul_assoc, inv_mul_cancel₀ (by positivity), mul_one]
    have hproduct : significand = whole * 2 ^ count := by exact_mod_cast hfactor
    rw [show (-(-(count : Int))).toNat = count by omega, Nat.one_shiftLeft, hproduct]
    exact Nat.mul_mod_left whole (2 ^ count)

/-- What is known of a number that stands for a small integer. -/
theorem exists_finite_of_integerOf? {number : Number} {integer : Int}
    (h : integerOf? number = some integer) (hsmall : integer.natAbs ≤ 2 ^ 53) :
    ∃ negative significand exponent,
      number.exact = .finite negative significand exponent ∧
      significand % (1 <<< (-exponent).toNat) = 0 ∧
      integer = if negative then -(ExactNumber.wholePart significand exponent : Int)
        else ExactNumber.wholePart significand exponent := by
  unfold integerOf? saturatedInt at h
  split at h
  · rename_i hintegral
    have hinteger := Option.some.inj h
    cases hexact : number.exact with
    | finite negative significand exponent =>
        rw [hexact] at hintegral hinteger
        refine ⟨negative, significand, exponent, rfl, by simpa [ExactNumber.isIntegral] using hintegral,
          ?_⟩
        cases negative <;>
          simp only [ExactNumber.toInt64, ExactNumber.smallestInt64, ExactNumber.largestInt64] at hinteger
        · simp
          omega
        · simp
          omega
    | undefined => rw [hexact] at hintegral; exact nomatch hintegral
    | infinite negative => rw [hexact] at hintegral; exact nomatch hintegral
  · exact nomatch h

theorem beq_of_unpack_finite {left right : Float} {sign : Sign} {significand : Nat} {exponent : Int}
    {hleft hright : 0 < significand}
    (h : left.toModel.unpack = .finite sign significand exponent hleft)
    (hother : right.toModel.unpack = .finite sign significand exponent hright) : left == right := by
  change UnpackedFloat.beq left.toModel.unpack right.toModel.unpack = true
  rw [h, hother]
  cases sign <;> simp [UnpackedFloat.beq, UnpackedFloat.compare]

theorem unpack_neg {number : Float} {full : Nat} {place : Int} (h : Represents number full place) :
    ∃ hpos, (Float.neg number).toModel.unpack = .finite .negative full place hpos := by
  obtain ⟨hpos, hunpack⟩ := h.unpack_eq
  refine ⟨hpos, ?_⟩
  change UnpackedFloat.unpack Format.binary64
    (UnpackedFloat.pack Format.binary64 (UnpackedFloat.neg number.toModel.unpack)) = _
  rw [hunpack]
  exact unpack_pack h.isFull h.low h.high

/-- A number with all of its bits that has the value of a small natural number is made from it, with
either sign. -/
theorem beq_ofInt_of_isFull {number : Float} {negative : Bool} {full whole : Nat} {place : Int}
    (hnumber : ExactNumber.ofFloat number = .finite negative full place) (hfull : IsFull full)
    (hwhole : whole ≤ 2 ^ 53) (hvalue : (full : ℚ) * 2 ^ place = whole) :
    number == Float.ofInt (if negative then -(whole : Int) else whole) := by
  have hfullPos : 0 < full := lt_of_lt_of_le (by norm_num) hfull.lower
  have hpos : 0 < whole := by
    have hproduct : (0 : ℚ) < full * 2 ^ place := by positivity
    rw [hvalue] at hproduct
    exact_mod_cast hproduct
  obtain ⟨other, otherPlace, hmade, hmadeValue⟩ := represents_ofNat_exact hpos hwhole
  obtain ⟨rfl, rfl⟩ := eq_of_mul_two_zpow_eq hfull hmade.isFull (hvalue.trans hmadeValue.symm)
  have hunpack : number.toModel.unpack = .finite (Bits.signOf negative) full place hfullPos := by
    rw [Bits.unpack_toModel, hnumber, Bits.unpacked, dif_pos hfullPos]
  cases negative with
  | false =>
      obtain ⟨_, hother⟩ := hmade.unpack_eq
      exact beq_of_unpack_finite hunpack hother
  | true =>
      obtain ⟨_, hother⟩ := unpack_neg hmade
      obtain ⟨count, rfl⟩ : ∃ count, whole = count + 1 := ⟨whole - 1, by omega⟩
      exact beq_of_unpack_finite hunpack hother

/-- A number that stands for an integer of at most 53 bits is what is made from the integer. -/
theorem beq_ofInt {number : Number} {integer : Int} (h : integerOf? number = some integer)
    (hsmall : integer.natAbs ≤ 2 ^ 53) : number == .ofFloat (.ofInt integer) := by
  obtain ⟨negative, significand, exponent, hexact, hintegral, hinteger⟩ :=
    exists_finite_of_integerOf? h hsmall
  rw [← Number.ofFloat_toFloat] at hexact
  have hvalue := wholePart_eq hintegral
  have hwhole : ExactNumber.wholePart significand exponent ≤ 2 ^ 53 := by
    cases negative <;> simp at hinteger <;> omega
  rw [hinteger, Number.beq_eq, Number.toFloat_ofFloat]
  rcases Bits.isFull_or_least hexact with ⟨hsignificand, rfl⟩ | ⟨hfull, -, -⟩
  · have hzero : significand = 0 := by
      have hbelow : significand < 1 <<< (-(-1074 : Int)).toNat := by
        rw [Nat.one_shiftLeft]
        exact hsignificand.trans (Nat.pow_lt_pow_right (by norm_num) (by norm_num))
      rwa [Nat.mod_eq_of_lt hbelow] at hintegral
    subst hzero
    have hunpack : number.toFloat.toModel.unpack = .zero (Bits.signOf negative) := by
      rw [Bits.unpack_toModel, hexact]
      rfl
    change UnpackedFloat.beq number.toFloat.toModel.unpack _ = true
    rw [hunpack]
    cases negative <;> rfl
  · exact beq_ofInt_of_isFull hexact hfull hwhole hvalue

end Rounding

/-- The value of a finite number. -/
def ExactNumber.value? : ExactNumber → Option ℚ
  | finite negative significand exponent =>
    some ((if negative then -1 else 1) * (significand * 2 ^ exponent))
  | _ => none

open Rounding in
/-- A number stands for a natural number, unless that is too great for a signed 64-bit integer, if
this is its value. -/
theorem integerOf?_eq_some_iff {number : Number} {whole : Nat}
    (h : (whole : Int) < ExactNumber.largestInt64) :
    integerOf? number = some (whole : Int) ↔ number.exact.value? = some (whole : ℚ) := by
  unfold integerOf? saturatedInt
  cases hexact : number.exact with
  | undefined => simp [ExactNumber.isIntegral, ExactNumber.value?]
  | infinite negative => simp [ExactNumber.isIntegral, ExactNumber.value?]
  | finite negative significand exponent =>
      have hmagnitude : (0 : ℚ) ≤ significand * 2 ^ exponent := by positivity
      by_cases hintegral : significand % (1 <<< (-exponent).toNat) = 0
      · have hvalue := wholePart_eq hintegral
        simp only [ExactNumber.isIntegral, hintegral, ExactNumber.value?, hvalue, beq_self_eq_true,
          if_true, Option.some.injEq]
        cases negative with
        | false =>
            simp only [ExactNumber.toInt64, if_false, one_mul, Nat.cast_inj, Bool.false_eq_true]
            omega
        | true =>
            have hcast : (-1 : ℚ) * (ExactNumber.wholePart significand exponent : ℚ) = whole ↔
                -(ExactNumber.wholePart significand exponent : Int) = whole := by
              rw [neg_one_mul]
              exact_mod_cast Iff.rfl
            simp only [ExactNumber.toInt64, ExactNumber.smallestInt64, if_true, hcast]
            omega
      · have hnone : ExactNumber.isIntegral (.finite negative significand exponent) = false := by
          simpa [ExactNumber.isIntegral] using hintegral
        simp only [hnone, ExactNumber.value?, Option.some.injEq, Bool.false_eq_true, if_false,
          reduceCtorEq, false_iff]
        intro hvalue
        refine hintegral ?_
        cases negative with
        | false => exact mod_eq_zero_of_mul_two_zpow (by simpa using hvalue)
        | true =>
            have hwhole : (0 : ℚ) ≤ whole := Nat.cast_nonneg whole
            have hzero : (significand : ℚ) * 2 ^ exponent = (0 : Nat) := by
              simp only [if_true, neg_one_mul] at hvalue
              rw [Nat.cast_zero]
              linarith
            exact mod_eq_zero_of_mul_two_zpow hzero

open Rounding in
/-- The value of a number that is made from a natural number of at most `2 ^ 53`. -/
theorem value?_ofNat {whole : Nat} (h : whole ≤ 2 ^ 53) :
    (ExactNumber.ofFloat (Float.ofNat whole)).value? = some (whole : ℚ) := by
  have hunpack := Bits.unpack_toModel (Float.ofNat whole)
  rcases Nat.eq_zero_or_pos whole with rfl | hpos
  · have hzero : ExactNumber.ofFloat (Float.ofNat 0) = .finite false 0 (-1074) := by
      decide +kernel
    rw [hzero]
    simp [ExactNumber.value?]
  · obtain ⟨full, place, hmade, hvalue⟩ := represents_ofNat_exact hpos h
    obtain ⟨hfull, hmade⟩ := hmade.unpack_eq
    rw [hmade] at hunpack
    have hexact : ExactNumber.ofFloat (Float.ofNat whole) = .finite false full place :=
      Bits.eq_finite_of_unpacked hunpack.symm
    simp [hexact, ExactNumber.value?, hvalue]

/-- A number that is made from a natural number of at most `2 ^ 53` stands for it. -/
theorem integerOf?_ofNat {whole : Nat} (h : whole ≤ 2 ^ 53) :
    integerOf? (.ofFloat (.ofNat whole)) = some (whole : Int) := by
  have hsmall : (whole : Int) < ExactNumber.largestInt64 := by
    unfold ExactNumber.largestInt64
    omega
  exact (integerOf?_eq_some_iff hsmall).mpr (value?_ofNat h)

/-- A finite number whose value is an integer stands for it. -/
theorem integerOf?_of_finite {number : Number} {negative : Bool} {significand whole : Nat}
    {exponent : Int} (hexact : number.exact = .finite negative significand exponent)
    (hvalue : (significand : ℚ) * 2 ^ exponent = whole)
    (hsmall : (whole : Int) ≤ ExactNumber.largestInt64) :
    integerOf? number = some (if negative then -(whole : Int) else whole) := by
  have hintegral := Rounding.mod_eq_zero_of_mul_two_zpow hvalue
  have hwhole : ExactNumber.wholePart significand exponent = whole := by
    exact_mod_cast (Rounding.wholePart_eq hintegral).symm.trans hvalue
  unfold ExactNumber.largestInt64 at hsmall
  cases negative <;>
    simp only [integerOf?, saturatedInt, hexact, ExactNumber.isIntegral, ExactNumber.toInt64,
      ExactNumber.smallestInt64, ExactNumber.largestInt64, hintegral, hwhole, beq_self_eq_true,
      if_true, Option.some.injEq, Bool.false_eq_true, if_false] <;>
    omega

open Rounding in
/-- A number that is made from an integer of magnitude up to `2 ^ 53` stands for it. -/
theorem integerOf?_ofInt {whole : Int} (h : whole.natAbs ≤ 2 ^ 53) :
    integerOf? (.ofFloat (.ofInt whole)) = some whole := by
  cases whole with
  | ofNat count => exact integerOf?_ofNat h
  | negSucc count =>
      obtain ⟨full, place, hmade, hvalue⟩ := represents_ofNat_exact count.succ_pos h
      obtain ⟨hpos, hunpack⟩ := unpack_neg hmade
      rw [Bits.unpack_toModel] at hunpack
      have hexact : ExactNumber.ofFloat (Float.ofInt (.negSucc count)) = .finite true full place :=
        Bits.eq_finite_of_unpacked hunpack
      have hsmall : ((count + 1 : Nat) : Int) ≤ ExactNumber.largestInt64 := by
        unfold ExactNumber.largestInt64
        rw [Int.natAbs_negSucc] at h
        omega
      exact integerOf?_of_finite hexact hvalue hsmall

theorem integerOf?_of_isZero {number : Number} (h : Bits.IsZero number.exact) :
    integerOf? number = some 0 := by
  obtain ⟨negative, exponent, hexact⟩ := h
  rw [integerOf?_of_finite hexact (Eq.trans (by simp) Nat.cast_zero.symm) (by decide)]
  cases negative <;> rfl

/-- Equal numbers stand for the same integer. -/
theorem integerOf?_eq_of_beq {left right : Number} (h : left == right) :
    integerOf? left = integerOf? right := by
  have hexact := Bits.ofFloat_eq_of_beq h
  rw [Number.ofFloat_toFloat, Number.ofFloat_toFloat] at hexact
  rcases hexact with hexact | ⟨hleft, hright⟩
  · rw [integerOf?, integerOf?, saturatedInt, saturatedInt, hexact]
  · rw [integerOf?_of_isZero hleft, integerOf?_of_isZero hright]

end ScriptEngine
