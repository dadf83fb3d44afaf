import ScriptEngine.Number.Exact
import ScriptEngine.Proofs.Number.Rounding

/-!
# The bits of a number

The operations on numbers take the bits apart into a sign, an exponent and a fraction. Here is that
what they work on is the exact value of the bits.
-/

namespace ScriptEngine

namespace Bits

open Float.Model Float.Model.UnpackedFloat

/-! ### The three parts -/

variable (bits : UInt64)

theorem toNat_unpackMantissa :
    (@unpackMantissa Format.binary64 bits.toBitVec).toNat = bits.toNat % 2 ^ 52 := by
  simp [unpackMantissa]

theorem toNat_unpackExponent :
    (@unpackExponent Format.binary64 bits.toBitVec).toNat =
      bits.toNat / 2 ^ 52 % 2 ^ 11 := by
  simp [unpackExponent, Nat.shiftRight_eq_div_pow]

theorem toNat_unpackSign :
    (@unpackSign Format.binary64 bits.toBitVec).toNat = bits.toNat / 2 ^ 63 := by
  have := bits.toNat_lt
  simp [unpackSign, Nat.shiftRight_eq_div_pow]
  omega

/-! ### The exact value -/

def signOf (negative : Bool) : Sign :=
  if negative then .negative else .positive

/-- An exact value in the form that the operations on numbers work on. -/
def unpacked : ExactNumber → UnpackedFloat
  | .undefined => .notANumber
  | .infinite negative => .infinity (signOf negative)
  | .finite negative significand exponent =>
    if hpos : 0 < significand then
      .finite (signOf negative) significand exponent hpos
    else
      .zero (signOf negative)

theorem negative_eq : (bits >>> 63 == 1) = decide (2 ^ 63 ≤ bits.toNat) := by
  have hlt := bits.toNat_lt
  have hshift : (bits >>> 63).toNat = bits.toNat / 2 ^ 63 := by
    rw [UInt64.toNat_shiftRight]
    exact Nat.shiftRight_eq_div_pow _ _
  have hone : bits >>> 63 = 1 ↔ 2 ^ 63 ≤ bits.toNat := by
    rw [← UInt64.toNat_inj, hshift]
    change bits.toNat / 2 ^ 63 = 1 ↔ _
    omega
  rw [← decide_eq_decide.mpr hone]
  rfl

theorem sign_eq :
    Sign.ofBitVec (@unpackSign Format.binary64 bits.toBitVec) = signOf (bits >>> 63 == 1) := by
  have hlt := bits.toNat_lt
  have hsign := toNat_unpackSign bits
  rw [negative_eq]
  by_cases hnegative : 2 ^ 63 ≤ bits.toNat
  · rw [decide_eq_true hnegative, BitVec.eq_of_toNat_eq (y := 1#1) (hsign.trans (by simp; omega))]
    rfl
  · rw [decide_eq_false hnegative, BitVec.eq_of_toNat_eq (y := 0#1) (hsign.trans (by simp; omega))]
    rfl

theorem exponent_eq : ((bits >>> 52) &&& 0x7FF).toNat = bits.toNat / 2 ^ 52 % 2 ^ 11 := by
  rw [UInt64.toNat_and, UInt64.toNat_shiftRight, ← Nat.shiftRight_eq_div_pow]
  exact Nat.and_two_pow_sub_one_eq_mod _ 11

theorem fraction_eq : (bits &&& 0xFFFFFFFFFFFFF).toNat = bits.toNat % 2 ^ 52 := by
  rw [UInt64.toNat_and]
  exact Nat.and_two_pow_sub_one_eq_mod _ 52

theorem toNat_one_append (fraction : BitVec 52) :
    (1#1 ++ fraction).toNat = 1 <<< 52 + fraction.toNat := by
  rw [BitVec.toNat_append, Nat.shiftLeft_add_eq_or_of_lt fraction.isLt]
  rfl

/-- The exact value of a number with these parts. -/
def ofParts (negative : Bool) (exponent fraction : Nat) : ExactNumber :=
  if exponent = 0x7FF then
    if fraction = 0 then .infinite negative else .undefined
  else if exponent = 0 then
    .finite negative fraction (-1074)
  else
    .finite negative (1 <<< 52 + fraction) (exponent - 1075)

theorem unpack_packComponents (negative : Bool) (exponent : BitVec 11) (fraction : BitVec 52) :
    UnpackedFloat.unpack Format.binary64
        (packComponents Format.binary64 (signOf negative) exponent fraction) =
      unpacked (ofParts negative exponent.toNat fraction.toNat) := by
  have hgreatest : exponent = -1#11 ↔ exponent.toNat = 0x7FF := BitVec.toNat_inj.symm
  have hleast : exponent = 0#11 ↔ exponent.toNat = 0 := BitVec.toNat_inj.symm
  have hnone : fraction = 0#52 ↔ fraction.toNat = 0 := BitVec.toNat_inj.symm
  have hbias : Format.binary64.exponentBias = 1023 := by decide
  unfold UnpackedFloat.unpack ofParts
  simp only [unpackMantissa_packComponents, unpackExponent_packComponents,
    unpackSign_packComponents, Sign.ofBitVec_toBitVec, hbias]
  by_cases hexponent : exponent.toNat = 0x7FF
  · rw [if_pos (hgreatest.mpr hexponent), if_pos hexponent]
    by_cases hfraction : fraction.toNat = 0
    · rw [if_pos (hnone.mpr hfraction), if_pos hfraction, unpacked]
    · rw [if_neg (mt hnone.mp hfraction), if_neg hfraction, unpacked]
  · rw [if_neg (mt hgreatest.mp hexponent), if_neg hexponent]
    by_cases hzero : exponent.toNat = 0
    · rw [if_pos (hleast.mpr hzero), if_pos hzero, unpacked]
      by_cases hfraction : fraction.toNat = 0
      · rw [dif_pos (hnone.mpr hfraction), dif_neg (by omega)]
      · rw [dif_neg (mt hnone.mp hfraction), dif_pos (by omega), hzero]
        rfl
    · rw [if_neg (mt hleast.mp hzero), if_neg hzero, unpacked,
        dif_pos (Nat.add_pos_left (by decide) _)]
      congr 1
      exact toNat_one_append fraction

theorem ofBits_eq_ofParts :
    ExactNumber.ofBits bits = ofParts (bits >>> 63 == 1)
      (@unpackExponent Format.binary64 bits.toBitVec).toNat
      (@unpackMantissa Format.binary64 bits.toBitVec).toNat := by
  rw [toNat_unpackExponent, toNat_unpackMantissa, ← exponent_eq, ← fraction_eq]
  rfl

/-- The operations on numbers work on the exact value. -/
theorem unpack_ofBits :
    UnpackedFloat.unpack Format.binary64 bits.toBitVec = unpacked (.ofBits bits) := by
  rw [ofBits_eq_ofParts, ← unpack_packComponents, ← sign_eq,
    packComponents_unpackSign_unpackExponent_unpackMantissa]

theorem unpack_toModel (number : Float) :
    number.toModel.unpack = unpacked (.ofFloat number) :=
  unpack_ofBits number.toBits

/-- A finite number has all of its 53 bits, or the least exponent. -/
theorem isFull_or_least {bits : UInt64} {negative : Bool} {significand : Nat} {exponent : Int}
    (h : ExactNumber.ofBits bits = .finite negative significand exponent) :
    (significand < 2 ^ 52 ∧ exponent = -1074) ∨
      (Rounding.IsFull significand ∧ -1074 ≤ exponent ∧ exponent ≤ 971) := by
  rw [ofBits_eq_ofParts] at h
  have hexponent := (@unpackExponent Format.binary64 bits.toBitVec).isLt
  have hfraction := (@unpackMantissa Format.binary64 bits.toBitVec).isLt
  change (@unpackExponent Format.binary64 bits.toBitVec).toNat < 2 ^ 11 at hexponent
  change (@unpackMantissa Format.binary64 bits.toBitVec).toNat < 2 ^ 52 at hfraction
  unfold ofParts at h
  split at h
  · split at h <;> exact nomatch h
  · split at h <;> cases h
    · exact .inl ⟨hfraction, rfl⟩
    · refine .inr ⟨⟨?_, ?_⟩, ?_, ?_⟩ <;> omega

/-! ### Equal numbers -/

theorem signOf_injective {negative other : Bool} (h : signOf negative = signOf other) :
    negative = other := by
  cases negative <;> cases other <;> first | rfl | exact nomatch h

/-- An exact value is one of the zeros. -/
def IsZero (exact : ExactNumber) : Prop :=
  ∃ negative exponent, exact = .finite negative 0 exponent

theorem isZero_of_unpacked {exact : ExactNumber} {sign : Sign} (h : unpacked exact = .zero sign) :
    IsZero exact := by
  cases exact with
  | undefined => cases h
  | infinite negative => cases h
  | finite negative significand exponent =>
      rw [unpacked] at h
      split at h
      · cases h
      · rename_i hzero
        obtain rfl : significand = 0 := Nat.eq_zero_of_not_pos hzero
        exact ⟨negative, exponent, rfl⟩

theorem eq_finite_of_unpacked {exact : ExactNumber} {negative : Bool} {significand : Nat}
    {exponent : Int} {hpos : 0 < significand}
    (h : unpacked exact = .finite (signOf negative) significand exponent hpos) :
    exact = .finite negative significand exponent := by
  cases exact with
  | undefined => cases h
  | infinite other => cases h
  | finite other otherSignificand otherExponent =>
      rw [unpacked] at h
      split at h
      · injection h with hsign hsignificand hexponent
        rw [signOf_injective hsign, hsignificand, hexponent]
      · cases h

theorem eq_infinite_of_unpacked {exact : ExactNumber} {negative : Bool}
    (h : unpacked exact = .infinity (signOf negative)) : exact = .infinite negative := by
  cases exact with
  | undefined => cases h
  | infinite other =>
      injection h with hsign
      rw [signOf_injective hsign]
  | finite other significand exponent =>
      rw [unpacked] at h
      split at h <;> cases h

theorem eq_undefined_of_unpacked {exact : ExactNumber} (h : unpacked exact = .notANumber) :
    exact = .undefined := by
  cases exact with
  | undefined => rfl
  | infinite negative => cases h
  | finite negative significand exponent =>
      rw [unpacked] at h
      split at h <;> cases h

/-- The zeros are the only exact values that are worked on alike. -/
theorem eq_of_unpacked_eq {exact other : ExactNumber} (h : unpacked exact = unpacked other) :
    exact = other ∨ IsZero exact ∧ IsZero other := by
  cases other with
  | undefined => exact .inl (eq_undefined_of_unpacked h)
  | infinite negative => exact .inl (eq_infinite_of_unpacked h)
  | finite negative significand exponent =>
      by_cases hpos : 0 < significand
      · rw [unpacked, dif_pos hpos] at h
        exact .inl (eq_finite_of_unpacked h)
      · rw [unpacked, dif_neg hpos] at h
        obtain rfl : significand = 0 := Nat.eq_zero_of_not_pos hpos
        exact .inr ⟨isZero_of_unpacked h, negative, exponent, rfl⟩

theorem eq_or_zero_of_beq {left right : UnpackedFloat} (h : UnpackedFloat.beq left right) :
    left = right ∨ (∃ sign, left = .zero sign) ∧ ∃ sign, right = .zero sign := by
  cases left with
  | notANumber => cases h
  | infinity sign =>
      cases right with
      | infinity other => cases sign <;> cases other <;> first | exact .inl rfl | exact nomatch h
      | _ => cases sign <;> exact nomatch h
  | zero sign =>
      cases right with
      | notANumber => cases h
      | infinity other => cases other <;> exact nomatch h
      | finite other => cases other <;> exact nomatch h
      | zero other => exact .inr ⟨⟨sign, rfl⟩, other, rfl⟩
  | finite sign significand exponent hpos =>
      cases right with
      | notANumber => cases sign <;> cases h
      | infinity other => cases sign <;> cases other <;> exact nomatch h
      | zero other => cases sign <;> exact nomatch h
      | finite other otherSignificand otherExponent hother =>
          left
          cases sign <;> cases other <;>
            simp only [UnpackedFloat.beq, UnpackedFloat.compare, Ordering.swap_eq_eq,
              Ordering.then_eq_eq, Std.LawfulEqCmp.compare_eq_iff_eq, beq_iff_eq, Option.some.injEq,
              reduceCtorEq] at h
          all_goals
            obtain ⟨rfl, rfl⟩ := h
            rfl

/-- Equal numbers have one exact value, unless both are zero. -/
theorem ofFloat_eq_of_beq {left right : Float} (h : left == right) :
    ExactNumber.ofFloat left = ExactNumber.ofFloat right ∨
      IsZero (.ofFloat left) ∧ IsZero (.ofFloat right) := by
  change UnpackedFloat.beq left.toModel.unpack right.toModel.unpack = true at h
  rw [unpack_toModel, unpack_toModel] at h
  rcases eq_or_zero_of_beq h with heq | ⟨⟨sign, hleft⟩, other, hright⟩
  · exact eq_of_unpacked_eq heq
  · exact .inr ⟨isZero_of_unpacked hleft, isZero_of_unpacked hright⟩

end Bits

end ScriptEngine
