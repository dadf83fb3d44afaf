import ScriptEngine.Number.Shortest
import ScriptEngine.Proofs.Number.Scaling

/-!
# The size of the shortest decimal

The shortest decimal of a number lies no further above it than half a unit. So the decimal of the
greatest number is the only one that comes near the end of the range.
-/

namespace ScriptEngine

namespace Shortest

open Rounding

theorem ten_zpow_mul (exponent : Int) :
    (10 : ℚ) ^ exponent * 10 ^ (-exponent).toNat = 10 ^ exponent.toNat := by
  rw [← zpow_natCast, ← zpow_natCast, ← zpow_add₀ (by norm_num)]
  congr 1
  omega

theorem two_zpow_mul (exponent : Int) :
    (2 : ℚ) ^ exponent * 2 ^ (-exponent).toNat = 2 ^ exponent.toNat := by
  rw [← zpow_natCast, ← zpow_natCast, ← zpow_add₀ (by norm_num)]
  congr 1
  omega

/-- What a comparison of two scaled numbers says about their values. -/
theorem le_of_compareScaled {left right : Nat} {power exponent : Int}
    (h : (compareScaled left power right exponent).isLE) :
    (left : ℚ) * 10 ^ power ≤ right * 2 ^ exponent := by
  unfold compareScaled at h
  rw [Nat.isLE_compare, Nat.shiftLeft_eq, Nat.shiftLeft_eq] at h
  have hcast : (left : ℚ) * 10 ^ power.toNat * 2 ^ (-exponent).toNat ≤
      right * 10 ^ (-power).toNat * 2 ^ exponent.toNat := by
    exact_mod_cast h
  rw [← ten_zpow_mul power, ← two_zpow_mul exponent] at hcast
  have hten : (0 : ℚ) < 10 ^ (-power).toNat := by positivity
  have htwo : (0 : ℚ) < 2 ^ (-exponent).toNat := by positivity
  refine le_of_mul_le_mul_right ?_ (mul_pos hten htwo)
  linear_combination hcast

theorem le_of_readsBack {significand : Nat} {exponent : Int} {decimal : Decimal}
    (h : readsBack significand exponent decimal = true) :
    (decimal.digits : ℚ) * 10 ^ decimal.exponent ≤
      (4 * significand + 2 : Nat) * 2 ^ (exponent - 2) := by
  apply le_of_compareScaled
  unfold readsBack at h
  simp only [Bool.and_eq_true, Bool.or_eq_true, beq_iff_eq] at h
  rcases h.2 with hlt | ⟨_, heq⟩
  · rw [hlt]
    rfl
  · rw [heq]
    rfl

theorem readsBack_of_onGrid {significand : Nat} {exponent power : Int} {decimal : Decimal}
    (h : onGrid? significand exponent power = some decimal) :
    readsBack significand exponent decimal = true := by
  unfold onGrid? at h
  dsimp only at h
  split at h
  · rename_i hlower hupper
    split at h
    · exact Option.some.inj h ▸ hlower
    · exact Option.some.inj h ▸ hupper
  · rename_i hlower _
    exact Option.some.inj h ▸ hlower
  · rename_i _ hupper
    exact Option.some.inj h ▸ hupper
  · simp at h

theorem readsBack_of_search {significand remaining count : Nat} {exponent magnitude : Int}
    {decimal : Decimal} (h : search significand exponent magnitude remaining count = some decimal) :
    readsBack significand exponent decimal = true := by
  induction remaining generalizing count with
  | zero => simp [search] at h
  | succ remaining ih =>
      unfold search at h
      split at h
      · rename_i found hfound
        exact readsBack_of_onGrid (Option.some.inj h ▸ hfound)
      · exact ih h

theorem exactDecimal_value (significand : Nat) (exponent : Int) :
    ((exactDecimal significand exponent).digits : ℚ) *
        10 ^ (exactDecimal significand exponent).exponent =
      significand * 2 ^ exponent := by
  have hten : (10 : ℚ) ^ min exponent 0 * (5 ^ (-exponent).toNat * 2 ^ (-exponent).toNat) = 1 := by
    rw [← mul_pow, show min exponent 0 = -((-exponent).toNat : Int) by omega, zpow_neg,
      zpow_natCast]
    norm_num
  have htwo := two_zpow_mul exponent
  have hpos : (2 : ℚ) ^ (-exponent).toNat ≠ 0 := by positivity
  unfold exactDecimal
  simp only [Nat.shiftLeft_eq, Nat.pow_eq]
  push_cast
  apply mul_right_cancel₀ hpos
  linear_combination (significand * 2 ^ exponent.toNat : ℚ) * hten - (significand : ℚ) * htwo

theorem half_unit (significand : Nat) (exponent : Int) :
    ((4 * significand + 2 : Nat) : ℚ) * 2 ^ (exponent - 2) =
      (significand + 1 / 2) * 2 ^ exponent := by
  rw [sub_eq_add_neg, two_zpow_add]
  push_cast
  ring

/-- The shortest decimal is at most half a unit above the number. -/
theorem shortest_le (significand : Nat) (exponent : Int) :
    ((Decimal.shortest significand exponent).digits : ℚ) *
        10 ^ (Decimal.shortest significand exponent).exponent ≤
      (significand + 1 / 2) * 2 ^ exponent := by
  have hpos := two_zpow_pos exponent
  unfold Decimal.shortest
  split
  · norm_num
    positivity
  · cases hsearch : search significand exponent (magnitude significand exponent) 17 1 with
    | some decimal =>
        rw [← half_unit]
        exact le_of_readsBack (readsBack_of_search hsearch)
    | none =>
        rw [Option.getD_none, exactDecimal_value]
        nlinarith

theorem shortest_greatest :
    Decimal.shortest 9007199254740991 971 = ⟨greatestDigits, 292⟩ := by
  decide +kernel

theorem half_below (bits : Nat) :
    (((2 ^ 54 - 3) * 2 ^ bits : Nat) : ℚ) =
      (9007199254740990 + 1 / 2) * 2 ^ ((bits + 1 : Nat) : Int) := by
  rw [zpow_natCast, pow_succ]
  push_cast
  ring

/-- The shortest decimal of a number can be read. -/
theorem isReadable_shortest {significand : Nat} {exponent : Int} (hsignificand : significand < 2 ^ 53)
    (hexponent : exponent ≤ 971) :
    IsReadable (Decimal.shortest significand exponent).digits
      (Decimal.shortest significand exponent).exponent := by
  by_cases hgreatest : significand = 9007199254740991 ∧ exponent = 971
  · obtain ⟨rfl, rfl⟩ := hgreatest
    rw [shortest_greatest]
    refine .inr ⟨le_rfl, le_of_eq ?_⟩
    unfold greatestDecimal
    rw [Nat.cast_mul, Nat.cast_pow, Nat.cast_ofNat]
    rfl
  · left
    refine (shortest_le significand exponent).trans ?_
    have hbound : (greatestButOne : ℚ) = (9007199254740990 + 1 / 2) * 2 ^ (971 : Int) := half_below 970
    have hpos := two_zpow_pos exponent
    rw [hbound]
    rcases lt_or_eq_of_le hexponent with hlt | rfl
    · have hlong : (significand : ℚ) + 1 / 2 ≤ 9007199254740991 + 1 / 2 := by
        have : (significand : ℚ) ≤ 9007199254740991 := by
          exact_mod_cast Nat.le_of_lt_succ hsignificand
        linarith
      have hstep : (2 : ℚ) ^ (exponent + 1) ≤ 2 ^ (971 : Int) :=
        zpow_le_zpow_right₀ (by norm_num) hlt
      rw [two_zpow_add, zpow_one] at hstep
      generalize (2 : ℚ) ^ (971 : Int) = top at hstep ⊢
      nlinarith
    · have hshort : (significand : ℚ) + 1 / 2 ≤ 9007199254740990 + 1 / 2 := by
        have hle : significand ≤ 9007199254740990 := by omega
        have : (significand : ℚ) ≤ 9007199254740990 := by exact_mod_cast hle
        linarith
      exact mul_le_mul_of_nonneg_right hshort hpos.le

end Shortest

end ScriptEngine
