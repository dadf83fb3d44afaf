import ScriptEngine.Json.Reader
import ScriptEngine.Proofs.Number.Rounding

/-!
# Scaling by powers of ten

A significand times a power of ten, computed in floating point, stays in the range of the numbers if
the exact product is at most `greatestDecimal`, the shortest decimal of the greatest number. The two
factors and their product are each rounded, which could carry a product over the end of the range.
Below some exponent it would do so next to the end: there the exact product must not lie above
`greatestButOne`.
-/

namespace ScriptEngine

namespace Rounding

open JsonReader

/-- The digits of the shortest decimal of the greatest number. -/
def greatestDigits : Nat := 17976931348623157

def greatestDecimal : Nat := greatestDigits * 10 ^ 292

/-- Half way from the number before the greatest one to that. -/
def greatestButOne : Nat := (2 ^ 54 - 3) * 2 ^ 970

/-- The greatest significand that is scaled by a power of ten. -/
def significandLimit (exponent : Nat) : Nat :=
  min (2 ^ 64)
    ((if exponent < 292 then greatestButOne else greatestDecimal - 1) / 10 ^ exponent)

/-- A full significand next to a natural number, and the place of its lowest bit above `-52`. -/
def nearest (number : Nat) : Nat × Nat :=
  let place := number.log2
  let full := (number * 2 ^ 53 + 2 ^ place) / 2 ^ (place + 1)
  if full = 2 ^ 53 then (2 ^ 52, place + 1) else (full, place)

/-- A natural number lies less than half a unit above the full significand next to it. -/
structure IsNear (number : Nat) : Prop where
  isFull : IsFull (nearest number).1
  near : number * 2 ^ 53 < (2 * (nearest number).1 + 1) * 2 ^ (nearest number).2

/-- Even the greatest significand stays in the range. -/
structure StaysInRange (exponent : Nat) : Prop where
  significand : IsNear (significandLimit exponent)
  power : IsNear (10 ^ exponent)
  place : (nearest (10 ^ exponent)).2 ≤ 1023
  product :
    2 * ((nearest (significandLimit exponent)).1 * (nearest (10 ^ exponent)).1) *
        2 ^ ((nearest (significandLimit exponent)).2 + (nearest (10 ^ exponent)).2) <
      18014398509481983 * 2 ^ (971 + 104)

instance (significand : Nat) : Decidable (IsFull significand) :=
  decidable_of_iff (2 ^ 52 ≤ significand ∧ significand < 2 ^ 53)
    ⟨fun h => ⟨h.1, h.2⟩, fun h => ⟨h.lower, h.upper⟩⟩

instance (number : Nat) : Decidable (IsNear number) :=
  decidable_of_iff (IsFull (nearest number).1 ∧
      number * 2 ^ 53 < (2 * (nearest number).1 + 1) * 2 ^ (nearest number).2)
    ⟨fun h => ⟨h.1, h.2⟩, fun h => ⟨h.isFull, h.near⟩⟩

instance (exponent : Nat) : Decidable (StaysInRange exponent) :=
  decidable_of_iff (IsNear (significandLimit exponent) ∧ IsNear (10 ^ exponent) ∧
      (nearest (10 ^ exponent)).2 ≤ 1023 ∧
      2 * ((nearest (significandLimit exponent)).1 * (nearest (10 ^ exponent)).1) *
          2 ^ ((nearest (significandLimit exponent)).2 + (nearest (10 ^ exponent)).2) <
        18014398509481983 * 2 ^ (971 + 104))
    ⟨fun h => ⟨h.1, h.2.1, h.2.2.1, h.2.2.2⟩,
      fun h => ⟨h.significand, h.power, h.place, h.product⟩⟩

theorem staysInRange_add : ∀ more < 21, StaysInRange (288 + more) := by
  decide +kernel

/-- The powers of ten that are numbers themselves. -/
def isSmallPower (exponent : Nat) : Bool :=
  match (powerOfTen exponent).toModel.unpack with
  | .finite .positive full place _ => 2 ^ 52 ≤ full && full < 2 ^ 53 && -52 ≤ place && place ≤ 21
  | _ => false

theorem isSmallPower_of_lt : ∀ exponent < 23, isSmallPower exponent = true := by
  decide +kernel

theorem represents_powerOfTen_small {exponent : Nat} (h : exponent < 23) :
    ∃ full place, Represents (powerOfTen exponent) full place ∧ -52 ≤ place ∧ place ≤ 21 := by
  have hsmall := isSmallPower_of_lt exponent h
  unfold isSmallPower at hsmall
  split at hsmall
  · rename_i full place hpos hunpack
    simp only [Bool.and_eq_true, decide_eq_true_eq] at hsmall
    obtain ⟨⟨⟨hlower, hupper⟩, hlow⟩, hhigh⟩ := hsmall
    exact ⟨full, place, ⟨⟨hlower, hupper⟩, by omega, by omega, hpos, hunpack⟩, hlow, hhigh⟩
  · exact absurd hsmall (by decide)

theorem powerOfTen_of_large {exponent : Nat} (h : ¬ exponent < 23) :
    powerOfTen exponent = .ofModel (.ofScientific 1 (Int.ofNat exponent)) :=
  ofScientific_of_large fun hboth => h (Nat.lt_succ_of_le hboth.2)

/-- The bound that `nearest` gives for all numbers up to one. -/
theorem IsNear.lt_of_le {number limit : Nat} (h : IsNear limit) (hnumber : number ≤ limit) :
    2 * (number : ℚ) < (2 * ((nearest limit).1 : ℚ) + 1) * 2 ^ ((nearest limit).2 - 52 : Int) := by
  have hle : (number : ℚ) ≤ limit := by exact_mod_cast hnumber
  have hlt : (limit : ℚ) * 2 ^ 53 < (2 * (nearest limit).1 + 1) * 2 ^ (nearest limit).2 := by
    exact_mod_cast h.near
  have hcancel : (2 : ℚ) ^ ((nearest limit).2 - 52 : Int) * 2 ^ 52 = 2 ^ (nearest limit).2 := by
    rw [sub_eq_add_neg, two_zpow_add, zpow_natCast, mul_assoc]
    norm_num
  rw [← hcancel] at hlt
  norm_num at hlt ⊢
  linarith

/-- The significand of the greatest number. -/
def greatestFull : Nat := 9007199254740991

theorem isFull_greatestFull : IsFull greatestFull := by decide

/-- An exact value in the range is less than half a unit above the greatest number. -/
theorem lt_greatest {value : ℚ}
    (h : value < ((18014398509481983 : Nat) : ℚ) * 2 ^ ((971 : Nat) : Int)) :
    value < (2 * (greatestFull : ℚ) + 1) * 2 ^ (971 : Int) := by
  have hgreatest : 2 * (greatestFull : ℚ) + 1 = (18014398509481983 : Nat) := by
    norm_num [greatestFull]
  rwa [hgreatest]

theorem not_isInf_of_small {significand exponent : Nat} (hpos : 0 < significand)
    (hsignificand : significand ≤ 2 ^ 64) (hexponent : exponent < 23) :
    (Float.ofNat significand * powerOfTen exponent).isInf = false := by
  obtain ⟨first, firstPlace, hfirst, hfirstPlace, hfirstBounds⟩ :=
    represents_ofNat hpos hsignificand
  obtain ⟨second, secondPlace, hsecond, hlow, hhigh⟩ := represents_powerOfTen_small hexponent
  have hfirstBound : (first : ℚ) * 2 ^ firstPlace ≤ (2 ^ 52 : Nat) * 2 ^ (12 : Int) := by
    apply hfirstBounds _ _ (by decide)
    have hle : (significand : ℚ) ≤ 2 ^ 64 := by exact_mod_cast hsignificand
    have hright : (2 * ((2 ^ 52 : Nat) : ℚ) + 1) * 2 ^ (12 : Int) = 2 ^ 65 + 4096 := by norm_num
    rw [hright]
    linarith
  have hsecondBound : (second : ℚ) * 2 ^ secondPlace ≤ 2 ^ 53 * 2 ^ (21 : Int) := by
    have hupper : (second : ℚ) ≤ 2 ^ 53 := by exact_mod_cast hsecond.isFull.upper.le
    have hplace : (2 : ℚ) ^ secondPlace ≤ 2 ^ (21 : Int) := zpow_le_zpow_right₀ (by norm_num) hhigh
    exact mul_le_mul hupper hplace (two_zpow_pos _).le (by positivity)
  have hproduct : 2 * ((first * second : Nat) : ℚ) * 2 ^ (firstPlace + secondPlace) <
      (2 * (greatestFull : ℚ) + 1) * 2 ^ (971 : Int) := by
    apply lt_greatest
    have hmul := mul_le_mul hfirstBound hsecondBound (by positivity) (by positivity)
    rw [two_zpow_add, Nat.cast_mul]
    calc 2 * ((first : ℚ) * second) * (2 ^ firstPlace * 2 ^ secondPlace)
        = 2 * (first * 2 ^ firstPlace * (second * 2 ^ secondPlace)) := by ring
      _ ≤ 2 * ((2 ^ 52 : Nat) * 2 ^ (12 : Int) * (2 ^ 53 * 2 ^ (21 : Int))) :=
          mul_le_mul_of_nonneg_left hmul (by norm_num)
      _ < (18014398509481983 : Nat) * 2 ^ (86 : Int) := by norm_num
      _ ≤ (18014398509481983 : Nat) * 2 ^ ((971 : Nat) : Int) :=
          mul_le_mul_of_nonneg_left (zpow_le_zpow_right₀ (by norm_num) (by norm_num)) (by norm_num)
  obtain ⟨full, place, hfull, _⟩ := hfirst.mul hsecond (by linarith) isFull_greatestFull le_rfl hproduct
  exact hfull.not_isInf

/-- The bounds of two factors give one of their product. -/
theorem mul_lt_of_le {first second upperFirst upperSecond place secondUpperPlace : Nat}
    {firstPlace secondPlace : Int} (limit bits : Nat)
    (hfirst : (first : ℚ) * 2 ^ firstPlace ≤ upperFirst * 2 ^ (place - 52 : Int))
    (hsecond : (second : ℚ) * 2 ^ secondPlace ≤ upperSecond * 2 ^ (secondUpperPlace - 52 : Int))
    (h : 2 * (upperFirst * upperSecond) * 2 ^ (place + secondUpperPlace) <
      limit * 2 ^ (bits + 104)) :
    2 * ((first * second : Nat) : ℚ) * 2 ^ (firstPlace + secondPlace) <
      limit * 2 ^ (bits : Int) := by
  have hmul := mul_le_mul hfirst hsecond
    (mul_nonneg (Nat.cast_nonneg _) (two_zpow_pos _).le)
    (mul_nonneg (Nat.cast_nonneg _) (two_zpow_pos _).le)
  have hrange := (Nat.cast_lt (α := ℚ)).mpr h
  simp only [Nat.cast_mul, Nat.cast_pow, Nat.cast_ofNat] at hrange
  have htop : (2 : ℚ) ^ (bits + 104) = 2 ^ (bits : Int) * 2 ^ 104 := by
    rw [pow_add, zpow_natCast]
  have hupper : (2 : ℚ) ^ (place + secondUpperPlace) =
      2 ^ (place - 52 : Int) * 2 ^ (secondUpperPlace - 52 : Int) * 2 ^ 104 := by
    rw [← two_zpow_add, ← zpow_natCast, ← zpow_natCast, ← two_zpow_add]
    congr 1
    push_cast
    ring
  rw [htop, hupper] at hrange
  have hproduct : 2 * (upperFirst * upperSecond : ℚ) *
      (2 ^ (place - 52 : Int) * 2 ^ (secondUpperPlace - 52 : Int)) < limit * 2 ^ (bits : Int) := by
    refine lt_of_mul_lt_mul_right (a := (2 : ℚ) ^ 104) ?_ (by norm_num)
    linear_combination hrange
  calc 2 * ((first * second : Nat) : ℚ) * 2 ^ (firstPlace + secondPlace)
      = 2 * (first * 2 ^ firstPlace * (second * 2 ^ secondPlace)) := by
        rw [two_zpow_add, Nat.cast_mul]
        ring
    _ ≤ 2 * (upperFirst * 2 ^ (place - 52 : Int) *
          (upperSecond * 2 ^ (secondUpperPlace - 52 : Int))) :=
        mul_le_mul_of_nonneg_left hmul (by norm_num)
    _ = 2 * (upperFirst * upperSecond) *
          (2 ^ (place - 52 : Int) * 2 ^ (secondUpperPlace - 52 : Int)) := by ring
    _ < limit * 2 ^ (bits : Int) := hproduct

theorem not_isInf_of_staysInRange {significand exponent limit : Nat} (hpos : 0 < significand)
    (hexponent : ¬ exponent < 23) (hlimit : exponent ≤ limit) (hlast : limit ≤ 308)
    (hsignificand : significand ≤ significandLimit limit) (h : StaysInRange limit) :
    (Float.ofNat significand * powerOfTen exponent).isInf = false := by
  have hlong : significand ≤ 2 ^ 64 := hsignificand.trans (Nat.min_le_left _ _)
  have hpower : 1 * 10 ^ exponent ≤ 10 ^ limit := by
    rw [one_mul]
    exact Nat.pow_le_pow_right (by norm_num) hlimit
  obtain ⟨first, firstPlace, hfirst, hfirstPlace, hfirstBounds⟩ := represents_ofNat hpos hlong
  have hfirstBound := hfirstBounds _ _ h.significand.isFull (h.significand.lt_of_le hsignificand)
  have hplace : ((nearest (10 ^ limit)).2 - 52 : Int) ≤ 971 := by
    have hlow := h.place
    generalize (nearest (10 ^ limit)).2 = place at hlow ⊢
    omega
  obtain ⟨second, secondPlace, hsecond, hsecondPlace, hsecondBounds⟩ :=
    represents_ofScientific one_pos (hlimit.trans hlast) h.power.isFull hplace
      (h.power.lt_of_le hpower)
  have hsecondBound := hsecondBounds _ _ h.power.isFull (h.power.lt_of_le hpower)
  rw [← powerOfTen_of_large hexponent] at hsecond
  have hproduct : 2 * ((first * second : Nat) : ℚ) * 2 ^ (firstPlace + secondPlace) <
      (2 * (greatestFull : ℚ) + 1) * 2 ^ (971 : Int) := by
    exact lt_greatest (mul_lt_of_le 18014398509481983 971 hfirstBound hsecondBound h.product)
  obtain ⟨full, place, hfull, _⟩ := hfirst.mul hsecond
    (le_trans (by norm_num) (add_le_add hfirstPlace hsecondPlace)) isFull_greatestFull le_rfl hproduct
  exact hfull.not_isInf

theorem significandLimit_288 : significandLimit 288 = 2 ^ 64 := by decide +kernel

theorem greatestButOne_le : greatestButOne ≤ greatestDecimal - 1 := by decide +kernel

theorem not_isInf_greatest :
    (Float.ofNat greatestDigits * powerOfTen 292).isInf = false := by
  decide +kernel

/-- Digits that do not end in a zero have no other ones of the same value at a higher place. -/
theorem eq_of_mul_ten_pow_eq {digits other place exponent : Nat} (hdigits : ¬ 10 ∣ digits)
    (hplace : place ≤ exponent) (h : other * 10 ^ exponent = digits * 10 ^ place) :
    other = digits ∧ exponent = place := by
  obtain ⟨more, rfl⟩ := Nat.exists_eq_add_of_le hplace
  have hproduct : other * 10 ^ more = digits := by
    apply Nat.eq_of_mul_eq_mul_right (Nat.pow_pos (n := place) (by norm_num : 0 < 10))
    rw [mul_assoc, ← pow_add, add_comm more, h]
  cases more with
  | zero => exact ⟨by simpa using hproduct, rfl⟩
  | succ more =>
      have hdvd : 10 ∣ digits := ⟨other * 10 ^ more, by
        rw [← hproduct, pow_succ]
        ring⟩
      exact absurd hdvd hdigits

/-- **Scaling stays in range.** A significand of 64 bits, times a power of ten, does not become
infinite if the product is at most the greatest decimal. -/
theorem not_isInf_of_le {significand exponent : Nat} (hpos : 0 < significand)
    (hsignificand : significand ≤ greatestSignificand) (hexponent : exponent ≤ 308)
    (h : significand * 10 ^ exponent ≤ greatestButOne ∨
      292 ≤ exponent ∧ significand * 10 ^ exponent ≤ greatestDecimal) :
    (Float.ofNat significand * powerOfTen exponent).isInf = false := by
  have hlong : significand ≤ 2 ^ 64 := hsignificand.trans (by decide)
  by_cases hsmall : exponent < 23
  · exact not_isInf_of_small hpos hlong hsmall
  by_cases hmiddle : exponent ≤ 288
  · refine not_isInf_of_staysInRange hpos hsmall hmiddle (by norm_num) ?_
      (staysInRange_add 0 (by norm_num))
    rwa [significandLimit_288]
  · obtain ⟨more, rfl⟩ : ∃ more, exponent = 288 + more := ⟨exponent - 288, by omega⟩
    by_cases hgreatest : 292 ≤ 288 + more ∧ significand * 10 ^ (288 + more) = greatestDecimal
    · obtain ⟨rfl, hplace⟩ := eq_of_mul_ten_pow_eq (by decide) hgreatest.1 hgreatest.2
      rw [hplace]
      exact not_isInf_greatest
    · refine not_isInf_of_staysInRange hpos hsmall le_rfl hexponent (le_min hlong ?_)
        (staysInRange_add more (by omega))
      rw [Nat.le_div_iff_mul_le (by positivity)]
      split
      · rename_i hlow
        exact h.resolve_right fun hboth => absurd hboth.1 (Nat.not_le.mpr hlow)
      · rcases h with hbelow | ⟨hhigh, hbelow⟩
        · exact hbelow.trans greatestButOne_le
        · exact Nat.le_sub_one_of_lt (lt_of_le_of_ne hbelow fun heq => hgreatest ⟨hhigh, heq⟩)

/-- A decimal is not too great to be read: next to the end of the range it is the greatest decimal
itself or its last digit stands at a high place. -/
def IsReadable (digits : Nat) (exponent : Int) : Prop :=
  (digits : ℚ) * 10 ^ exponent ≤ greatestButOne ∨
    292 ≤ exponent ∧ (digits : ℚ) * 10 ^ exponent ≤ greatestDecimal

theorem greatestSignificand_le : greatestSignificand ≤ greatestButOne := by decide +kernel

theorem greatestDecimal_lt : greatestDecimal < 10 ^ 309 := by decide +kernel

theorem exponent_lt_of_mul_le {significand exponent bound limit : Nat} (hpos : 0 < significand)
    (h : significand * 10 ^ exponent ≤ bound) (hbound : bound < 10 ^ limit) : exponent < limit := by
  have hpower : 10 ^ exponent < 10 ^ limit :=
    lt_of_le_of_lt (Nat.le_mul_of_pos_left _ hpos) (lt_of_le_of_lt h hbound)
  exact (Nat.pow_lt_pow_iff_right (by norm_num)).mp hpower

/-- A bound of a natural multiple of a power of ten. -/
theorem mul_pow_toNat_le {digits bound : Nat} {exponent : Int} (hexponent : 0 ≤ exponent)
    (h : (digits : ℚ) * 10 ^ exponent ≤ bound) : digits * 10 ^ exponent.toNat ≤ bound := by
  rw [← Int.toNat_of_nonneg hexponent, zpow_natCast] at h
  exact_mod_cast h

/-- Scaling gives a number if the exact value is in the range. -/
theorem exists_scaled {significand : Nat} {exponent : Int} (hpos : 0 < significand)
    (hsignificand : significand ≤ greatestSignificand)
    (h : exponent ≤ 0 ∨ IsReadable significand exponent) :
    ∃ value, scaled? significand exponent = some value := by
  unfold scaled?
  by_cases hnegative : exponent < 0
  · exact ⟨_, by rw [if_pos hnegative]⟩
  have hreadable : significand * 10 ^ exponent.toNat ≤ greatestButOne ∨
      292 ≤ exponent.toNat ∧ significand * 10 ^ exponent.toNat ≤ greatestDecimal := by
    rcases h with hnonpos | hreadable
    · obtain rfl : exponent = 0 := by omega
      left
      rw [Int.toNat_zero, pow_zero, mul_one]
      exact hsignificand.trans greatestSignificand_le
    · have hnonneg := Int.not_lt.mp hnegative
      rcases hreadable with hlow | ⟨hplace, hhigh⟩
      · exact .inl (mul_pow_toNat_le hnonneg hlow)
      · exact .inr ⟨(Int.le_toNat hnonneg).mpr hplace, mul_pow_toNat_le hnonneg hhigh⟩
  have hexponent : exponent.toNat ≤ 308 := by
    have hbound : significand * 10 ^ exponent.toNat ≤ greatestDecimal := by
      rcases hreadable with hlow | ⟨_, hhigh⟩
      · exact hlow.trans (greatestButOne_le.trans (Nat.sub_le _ _))
      · exact hhigh
    have hlast := exponent_lt_of_mul_le hpos hbound greatestDecimal_lt
    exact Nat.le_of_lt_succ hlast
  have hfinite := not_isInf_of_le hpos hsignificand hexponent hreadable
  simp only [if_neg hnegative, hfinite]
  exact ⟨_, by rw [if_pos (by omega)]; rfl⟩

end Rounding

end ScriptEngine
