import Mathlib.Data.List.DropRight
import ScriptEngine.Proofs.Json.Numbers
import ScriptEngine.Proofs.Number.Line

/-!
# Decimals as text

A decimal is written with its trailing zeros moved into the exponent, either with a point between
its digits or with an exponent after them. Both texts are read.
-/

namespace ScriptEngine

namespace JsonReader

open Rounding

/-! ### Significant digits -/

theorem toList_toString_nat (number : Nat) : (toString number).toList = Nat.toDigits 10 number := by
  rw [Nat.toString_eq_repr, Nat.toList_repr]

theorem isWhole_zero : IsWhole ['0'] := by
  refine ⟨List.cons_ne_nil _ _, fun digit hdigit => ?_, fun _ => rfl⟩
  rw [List.mem_singleton.mp hdigit]
  rfl

/-- Digits and an exponent that stand for a decimal: no zero leads, unless zero stands alone. -/
structure IsSignificant (decimal : Decimal) (digits : List Char) (exponent : Int) : Prop where
  whole : IsWhole digits
  zero (h : digits = ['0']) : exponent = 0
  value (h : digits ≠ ['0']) : (Nat.ofDigitChars 10 digits 0 : ℚ) * 10 ^ exponent =
    decimal.digits * 10 ^ decimal.exponent
  le (h : digits ≠ ['0']) : decimal.exponent ≤ exponent

/-- The digits without the zeros at their end, and how many those are. -/
theorem exists_trailing_zeros (digits : List Char) :
    ∃ count, digits = digits.rdropWhile (· == '0') ++ List.replicate count '0' := by
  refine ⟨(digits.rtakeWhile (· == '0')).length, ?_⟩
  have hzeros : digits.rtakeWhile (· == '0') =
      List.replicate (digits.rtakeWhile (· == '0')).length '0' := by
    refine List.eq_replicate_length.mpr fun digit hdigit => ?_
    have hzero := List.mem_rtakeWhile_imp hdigit
    exact beq_iff_eq.mp hzero
  rw [← hzeros, List.rdropWhile_append_rtakeWhile]

theorem isSignificant_significantDigits (decimal : Decimal) :
    IsSignificant decimal (Notation.significantDigits decimal).1
      (Notation.significantDigits decimal).2 := by
  have hwhole := isWhole_toDigits decimal.digits
  obtain ⟨count, hcount⟩ := exists_trailing_zeros (Nat.toDigits 10 decimal.digits)
  have hkept : ((Nat.toDigits 10 decimal.digits).reverse.dropWhile (· == '0')).reverse =
      (Nat.toDigits 10 decimal.digits).rdropWhile (· == '0') := rfl
  simp only [Notation.significantDigits, toList_toString_nat, hkept]
  have hfirst : ((Nat.toDigits 10 decimal.digits).rdropWhile (· == '0')).head? ≠ some '0' := by
    intro hzero
    have halone := hwhole.zero_alone (by rw [hcount, List.head?_append, hzero]; rfl)
    rw [halone] at hzero
    exact absurd hzero (by decide)
  generalize (Nat.toDigits 10 decimal.digits).rdropWhile (· == '0') = kept at hcount hfirst
  have hlength : ((Nat.toDigits 10 decimal.digits).length : Int) - kept.length = count := by
    rw [hcount, List.length_append, List.length_replicate]
    omega
  have hvalue : decimal.digits = 10 ^ count * Nat.ofDigitChars 10 kept 0 := by
    conv_lhs => rw [← Nat.ofDigitChars_ten_toDigits (n := decimal.digits), hcount]
    rw [Nat.ofDigitChars_append, Nat.ofDigitChars_replicate_zero]
  cases kept with
  | nil =>
      exact ⟨isWhole_zero, fun _ => rfl, fun h => absurd rfl h, fun h => absurd rfl h⟩
  | cons head tail =>
      refine ⟨⟨List.cons_ne_nil _ _, fun digit hdigit => ?_, fun hzero => ?_⟩, fun hzero => ?_,
        fun _ => ?_, fun _ => ?_⟩
      · exact hwhole.isDigit digit (hcount ▸ List.mem_append_left _ hdigit)
      · exact absurd hzero hfirst
      · exact absurd (congrArg List.head? hzero) hfirst
      · simp only [List.isEmpty_cons, Bool.false_eq_true, if_false]
        rw [hlength, hvalue, zpow_add₀ (by norm_num), zpow_natCast]
        push_cast
        ring
      · simp only [List.isEmpty_cons, Bool.false_eq_true, if_false]
        omega

/-! ### Texts -/

/-- Digits filled with zeros up to the point on either side. -/
theorem isDigit_of_mem_filled {digits : List Char} (hdigits : ∀ digit ∈ digits, digit.isDigit)
    (leading trailing : Nat) : ∀ digit ∈ List.replicate leading '0' ++ digits ++
      List.replicate trailing '0', digit.isDigit := by
  intro digit hdigit
  rw [List.mem_append, List.mem_append] at hdigit
  rcases hdigit with (hleading | hmiddle) | htrailing
  · rw [List.eq_of_mem_replicate hleading]
    rfl
  · exact hdigits digit hmiddle
  · rw [List.eq_of_mem_replicate htrailing]
    rfl

theorem isWhole_front {digits : List Char} {whole : Int} (hdigits : IsWhole digits)
    (hzero : digits = ['0'] → whole = 1) {front : List Char}
    (hfront : front = (List.replicate (-whole).toNat '0' ++ digits ++
      List.replicate (whole - digits.length).toNat '0').take whole.toNat) :
    IsWhole (if front.isEmpty then ['0'] else front) := by
  split
  · exact isWhole_zero
  · rename_i hnonempty
    rw [List.isEmpty_iff] at hnonempty
    have hpositive : 0 < whole := by
      by_contra hnonpos
      rw [Int.toNat_of_nonpos (by omega)] at hfront
      exact hnonempty hfront
    rw [Int.toNat_of_nonpos (by omega : -whole ≤ 0), List.replicate_zero, List.nil_append] at hfront
    refine ⟨hnonempty, fun digit hdigit => ?_, fun hhead => ?_⟩
    · rw [hfront] at hdigit
      exact isDigit_of_mem_filled hdigits.isDigit 0 _ digit (List.mem_of_mem_take hdigit)
    · rw [hfront, List.head?_take, if_neg (by omega)] at hhead
      obtain ⟨head, tail, hcons⟩ := List.exists_cons_of_ne_nil hdigits.ne_nil
      have halone : digits = ['0'] := by
        apply hdigits.zero_alone
        rw [hcons] at hhead ⊢
        exact hhead
      rw [hfront, hzero halone, halone]
      rfl

/-- A positional text has digits on both sides of its point. -/
theorem positional_shape {digits : List Char} {whole : Int} (hdigits : IsWhole digits)
    (hzero : digits = ['0'] → whole = 1) (hwhole : whole ≤ 16) :
    ∃ front back, (Notation.positional digits whole 1).toList = front ++ '.' :: back ∧
      IsWhole front ∧ front.length ≤ 16 ∧ back ≠ [] ∧ ∀ digit ∈ back, digit.isDigit := by
  have hfront := isWhole_front hdigits hzero rfl
  have hall := isDigit_of_mem_filled hdigits.isDigit (-whole).toNat (whole - digits.length).toNat
  unfold Notation.positional
  dsimp only
  generalize List.replicate (-whole).toNat '0' ++ digits ++
    List.replicate (whole - digits.length).toNat '0' = padded at hfront hall ⊢
  have hback : (padded.drop whole.toNat ++
      List.replicate (1 - (padded.drop whole.toNat).length) '0').isEmpty = false := by
    rw [List.isEmpty_eq_false_iff]
    intro hnil
    have hlength := congrArg List.length hnil
    rw [List.length_append, List.length_replicate, List.length_nil] at hlength
    omega
  refine ⟨_, _, ?_, hfront, ?_, List.isEmpty_eq_false_iff.mp hback, ?_⟩
  · simp only [String.toList_ofList, hback, Bool.false_eq_true, if_false]
  · split
    · decide
    · rw [List.length_take]
      omega
  · intro digit hdigit
    rcases List.mem_append.mp hdigit with hdropped | hfilled
    · exact hall digit (List.mem_of_mem_drop hdropped)
    · rw [List.eq_of_mem_replicate hfilled]
      rfl

theorem toList_exponent (mantissa : List Char) (exponent : Int) :
    (String.ofList mantissa ++ "e" ++ (if true = true ∧ 0 ≤ exponent then "+" else "") ++
        toString exponent).toList =
      mantissa ++ 'e' :: (if 0 ≤ exponent then '+' else '-') ::
        Nat.toDigits 10 exponent.natAbs := by
  rw [Int.toString_eq_repr, Int.repr_eq_if]
  by_cases hexponent : 0 ≤ exponent
  · have hplace : exponent.toNat = exponent.natAbs := by omega
    simp [hexponent, Nat.toList_repr, hplace]
  · have hplace : (-exponent).toNat = exponent.natAbs := by omega
    simp [hexponent, Nat.toList_repr, hplace]

/-- A scientific text has its exponent after a sign of its own. -/
theorem scientific_shape (head : Char) (tail : List Char) (exponent : Int) :
    (Notation.scientific (head :: tail) exponent true).toList =
      (head :: if tail.isEmpty then [] else '.' :: tail) ++
        'e' :: (if 0 ≤ exponent then '+' else '-') :: Nat.toDigits 10 exponent.natAbs := by
  cases tail with
  | nil => exact toList_exponent [head] exponent
  | cons second tail => exact toList_exponent (head :: '.' :: second :: tail) exponent

/-! ### Reading them -/

variable {positive : Bool} {rest : List Char}

theorem ofDigitChars_le_of_length {digits : List Char} (hdigits : ∀ digit ∈ digits, digit.isDigit)
    (hlength : digits.length ≤ 16) : Nat.ofDigitChars 10 digits 0 < 10 ^ 16 := by
  have hlt := ofDigitChars_lt digits hdigits 0
  rw [zero_add, mul_one] at hlt
  exact hlt.trans_le (Nat.pow_le_pow_right (by norm_num) hlength)

/-- The first digit after a point is taken if there are few digits before it. -/
theorem absorb_count_pos {significand : Nat} (hsmall : significand < 10 ^ 16) {digits : List Char}
    (hne : digits ≠ []) (hdigits : ∀ digit ∈ digits, digit.isDigit) :
    0 < (absorb significand digits).2 := by
  obtain ⟨head, tail, rfl⟩ := List.exists_cons_of_ne_nil hne
  have hhead := ofDigitChars_lt [head] (fun digit hdigit => hdigits digit (by simp_all)) significand
  have hfits : Nat.ofDigitChars 10 [head] significand ≤ greatestSignificand := by
    have hgreatest : greatestSignificand = 18446744073709551615 := rfl
    rw [List.length_singleton, pow_one] at hhead
    omega
  rw [Nat.ofDigitChars_cons, Nat.ofDigitChars_nil] at hfits
  unfold absorb
  simp only [if_neg (Nat.not_lt.mpr hfits)]
  omega

/-- Digits with a point between them are read as a number that is no integer. -/
theorem reads_positional {front back : List Char} (hfront : IsWhole front)
    (hlength : front.length ≤ 16) (hne : back ≠ []) (hback : ∀ digit ∈ back, digit.isDigit)
    (hrest : Stops isNumberPart rest) :
    ∃ value, Reads (number positive) (front ++ '.' :: (back ++ rest)) (.real value) rest := by
  have hsmall := ofDigitChars_le_of_length hfront.isDigit hlength
  have hcount := absorb_count_pos hsmall hne hback
  have hscaled : scaled? (absorb (Nat.ofDigitChars 10 front 0) back).1
      (0 - (absorb (Nat.ofDigitChars 10 front 0) back).2) =
        some (scaleDown 8 (Float.ofNat (absorb (Nat.ofDigitChars 10 front 0) back).1)
          (0 - ((absorb (Nat.ofDigitChars 10 front 0) back).2 : Int)).natAbs) := by
    unfold scaled?
    dsimp only
    rw [if_pos (by omega)]
  have hfits : Nat.ofDigitChars 10 front 0 ≤ greatestSignificand :=
    hsmall.le.trans (by decide)
  exact ⟨_, reads_number_of_whole hfront hfits (.inl rfl)
    (reads_fractionPart hne hback (stops_isDigit hrest) (reads_afterDigits hscaled hrest))⟩

theorem IsReadable.mono {digits other : Nat} {exponent place : Int}
    (h : IsReadable digits exponent) (hplace : exponent ≤ place)
    (hle : (other : ℚ) * 10 ^ place ≤ digits * 10 ^ exponent) : IsReadable other place := by
  rcases h with hbelow | ⟨hhigh, hbelow⟩
  · exact .inl (hle.trans hbelow)
  · exact .inr ⟨hhigh.trans hplace, hle.trans hbelow⟩

theorem IsReadable.le {digits : Nat} {exponent : Int} (h : IsReadable digits exponent) :
    (digits : ℚ) * 10 ^ exponent ≤ greatestDecimal := by
  rcases h with hbelow | ⟨_, hbelow⟩
  · refine hbelow.trans ?_
    exact_mod_cast greatestButOne_le.trans (Nat.sub_le _ _)
  · exact hbelow

/-- A number of digits in front of the others, scaled to where it stands. -/
theorem prefix_mul_le (digits : List Char) (significand : Nat) (exponent : Int) :
    (significand : ℚ) * 10 ^ (exponent + digits.length) ≤
      Nat.ofDigitChars 10 digits significand * 10 ^ exponent := by
  have hle : ((10 ^ digits.length * significand : Nat) : ℚ) ≤
      Nat.ofDigitChars 10 digits significand :=
    Nat.cast_le.mpr (le_ofDigitChars digits significand)
  rw [zpow_add₀ (by norm_num), zpow_natCast]
  calc (significand : ℚ) * (10 ^ exponent * 10 ^ digits.length)
      = ((10 ^ digits.length * significand : Nat) : ℚ) * 10 ^ exponent := by
        push_cast
        ring
    _ ≤ Nat.ofDigitChars 10 digits significand * 10 ^ exponent :=
        mul_le_mul_of_nonneg_right hle (zpow_nonneg (by norm_num) _)

/-- The digits that are taken after the first one stand for a number that can be scaled. -/
theorem isReadable_absorb {decimal : Decimal} {head : Char} {tail : List Char} {exponent : Int}
    (h : IsSignificant decimal (head :: tail) exponent) (hne : head :: tail ≠ ['0'])
    (hreadable : IsReadable decimal.digits decimal.exponent) {significand count : Nat}
    (hcount : count ≤ tail.length)
    (hsignificand : significand =
      Nat.ofDigitChars 10 (tail.take count) (Nat.ofDigitChars 10 [head] 0)) :
    IsReadable significand (exponent + tail.length - count) := by
  have hvalue : Nat.ofDigitChars 10 (head :: tail) 0 =
      Nat.ofDigitChars 10 (tail.drop count) significand := by
    rw [hsignificand, ← Nat.ofDigitChars_append, List.take_append_drop]
    rfl
  have hle := prefix_mul_le (tail.drop count) significand exponent
  rw [← hvalue, h.value hne, List.length_drop] at hle
  have hexponent := h.le hne
  have hplace : exponent + ((tail.length - count : Nat) : Int) = exponent + tail.length - count := by
    omega
  rw [hplace] at hle
  exact IsReadable.mono hreadable (by omega) hle

theorem one_le_first {decimal : Decimal} {head : Char} {tail : List Char} {exponent : Int}
    (h : IsSignificant decimal (head :: tail) exponent) (hne : head :: tail ≠ ['0']) :
    1 ≤ Nat.ofDigitChars 10 [head] 0 := by
  have hhead : head ≠ '0' := by
    rintro rfl
    exact hne (h.whole.zero_alone rfl)
  have hdigit := h.whole.isDigit head List.mem_cons_self
  simp only [Char.isDigit, Bool.and_eq_true, decide_eq_true_eq] at hdigit
  have hlower : '0'.toNat ≤ head.toNat := hdigit.1
  have hdistinct : head.toNat ≠ '0'.toNat := fun heq => hhead (Char.toNat_inj.mp heq)
  rw [Nat.ofDigitChars_cons, Nat.ofDigitChars_nil]
  omega

/-- Digits with an exponent are read as a number that is no integer. -/
theorem reads_scientific {decimal : Decimal} {head : Char} {tail : List Char} {exponent : Int}
    (h : IsSignificant decimal (head :: tail) exponent) (hne : head :: tail ≠ ['0'])
    (hreadable : IsReadable decimal.digits decimal.exponent) (hrest : Stops isNumberPart rest) :
    ∃ value, Reads (number positive)
      ((Notation.scientific (head :: tail) (exponent + tail.length) true).toList ++ rest)
      (.real value) rest := by
  have hfirst := one_le_first h hne
  have hhead : ∀ digit ∈ [head], digit.isDigit := fun digit hdigit =>
    h.whole.isDigit digit (List.mem_cons.mpr (.inl (List.mem_singleton.mp hdigit)))
  have hfirstFits : Nat.ofDigitChars 10 [head] 0 ≤ greatestSignificand :=
    (ofDigitChars_le_of_length hhead (by simp)).le.trans (by decide)
  obtain ⟨hvalue, hcount, hfits⟩ := absorb_spec tail hfirstFits
  have hpos : 0 < (absorb (Nat.ofDigitChars 10 [head] 0) tail).1 := by
    rw [hvalue]
    exact (Nat.mul_pos (Nat.pow_pos (by norm_num)) hfirst).trans_le (le_ofDigitChars _ _)
  have hplace : 0 ≤ exponent + tail.length →
      (exponent + tail.length).natAbs ≤ greatestExponent := by
    intro hnonneg
    have hone := isReadable_absorb h hne hreadable (Nat.zero_le _) rfl
    rw [Nat.cast_zero, sub_zero] at hone
    have hbound := mul_pow_toNat_le hnonneg (IsReadable.le hone)
    have hlt := exponent_lt_of_mul_le hfirst hbound greatestDecimal_lt
    have hgreatest : greatestExponent = 2147483647 := rfl
    omega
  obtain ⟨value, hread⟩ : ∃ value, Reads
      (exponentPart positive (absorb (Nat.ofDigitChars 10 [head] 0) tail).1
        (0 - (absorb (Nat.ofDigitChars 10 [head] 0) tail).2))
      ('e' :: (if 0 ≤ exponent + tail.length then '+' else '-') ::
        (Nat.toDigits 10 (exponent + tail.length).natAbs ++ rest)) (.real value) rest := by
    by_cases hnonneg : 0 ≤ exponent + tail.length
    · rw [if_pos hnonneg]
      refine reads_exponentPart (.inl ⟨rfl, hplace hnonneg⟩) hrest fun shift hshift => ?_
      obtain ⟨_, hshift⟩ := hshift.resolve_right fun hminus => absurd hminus.1 (by decide)
      have hscale : 0 - ((absorb (Nat.ofDigitChars 10 [head] 0) tail).2 : Int) + shift =
          exponent + tail.length - (absorb (Nat.ofDigitChars 10 [head] 0) tail).2 := by
        omega
      rw [hscale]
      exact exists_scaled hpos hfits (.inr (isReadable_absorb h hne hreadable hcount hvalue))
    · rw [if_neg hnonneg]
      refine reads_exponentPart (.inr rfl) hrest fun shift hshift => ?_
      obtain ⟨_, hshift⟩ := hshift.resolve_left fun hplus => absurd hplus.1 (by decide)
      exact exists_scaled hpos hfits (.inl (by omega))
  have hwhole : IsWhole [head] :=
    ⟨List.cons_ne_nil _ _, hhead, fun hzero => congrArg (· :: []) (Option.some.inj hzero)⟩
  refine ⟨value, ?_⟩
  rw [scientific_shape]
  cases tail with
  | nil => exact reads_number_of_whole hwhole hfirstFits (.inr rfl) hread
  | cons second tail =>
      have htail : ∀ digit ∈ second :: tail, digit.isDigit := fun digit hdigit =>
        h.whole.isDigit digit (List.mem_cons_of_mem _ hdigit)
      simp only [List.isEmpty_cons, Bool.false_eq_true, if_false, List.cons_append,
        List.append_assoc]
      refine reads_number_of_whole hwhole hfirstFits (.inl rfl)
        (reads_fractionPart (List.cons_ne_nil _ _) htail (stops_cons (by decide) _) ?_)
      exact (reads_peek _).bind hread

/-- A decimal in the notation of reals begins with a digit and is read. -/
theorem reads_render {decimal : Decimal} (hreadable : IsReadable decimal.digits decimal.exponent)
    (hrest : Stops isNumberPart rest) :
    (∃ head tail, (JsonDocument.realNotation.render decimal).toList = head :: tail ∧ head.isDigit) ∧
      ∃ value, Reads (number positive) ((JsonDocument.realNotation.render decimal).toList ++ rest)
        (.real value) rest := by
  have hsignificant := isSignificant_significantDigits decimal
  unfold Notation.render
  generalize Notation.significantDigits decimal = parts at hsignificant ⊢
  obtain ⟨digits, exponent⟩ := parts
  obtain ⟨head, tail, rfl⟩ := List.exists_cons_of_ne_nil hsignificant.whole.ne_nil
  have hleading : exponent + ((head :: tail).length : Int) - 1 = exponent + tail.length := by
    rw [List.length_cons]
    omega
  dsimp only
  rw [hleading]
  split
  · rename_i hpositional
    simp only [JsonDocument.realNotation, Bool.and_eq_true, decide_eq_true_eq] at hpositional
    obtain ⟨front, back, htext, hfront, hlength, hne, hback⟩ := @positional_shape (head :: tail)
      (exponent + tail.length + 1) hsignificant.whole (fun hzero => by
        have hexponent : exponent = 0 := hsignificant.zero hzero
        rw [(List.cons.inj hzero).2, hexponent]
        rfl) (by omega)
    have hread := @reads_positional positive rest front back hfront hlength hne hback hrest
    have hminimum : JsonDocument.realNotation.minimumFraction = 1 := rfl
    rw [hminimum, htext]
    refine ⟨?_, by rwa [List.append_assoc, List.cons_append]⟩
    obtain ⟨first, others, rfl⟩ := List.exists_cons_of_ne_nil hfront.ne_nil
    exact ⟨first, _, rfl, hfront.isDigit first List.mem_cons_self⟩
  · rename_i hscientific
    have hne : head :: tail ≠ ['0'] := by
      intro hzero
      have hexponent : exponent = 0 := hsignificant.zero hzero
      rw [(List.cons.inj hzero).2, hexponent] at hscientific
      exact hscientific rfl
    refine ⟨?_, reads_scientific hsignificant hne hreadable hrest⟩
    have hsigned : JsonDocument.realNotation.signedExponent = true := rfl
    rw [hsigned, scientific_shape]
    exact ⟨head, _, rfl, hsignificant.whole.isDigit head List.mem_cons_self⟩

/-! ### Numbers of documents -/

theorem isReadable_of_ofFloat {number : Float} {negative : Bool} {significand : Nat}
    {exponent : Int} (h : ExactNumber.ofFloat number = .finite negative significand exponent) :
    IsReadable (Decimal.shortest significand exponent).digits
      (Decimal.shortest significand exponent).exponent := by
  have hfits := NumberLine.fits_of_ofBits h
  exact Shortest.isReadable_shortest hfits.significand_lt hfits.exponent_le

theorem reads_value_digit {fuel levels : Nat} {head : Char} {tail : List Char} {read : JsonNumber}
    (hhead : head.isDigit) (h : Reads (number true) (head :: tail) read rest) :
    Reads (value (fuel + 1) levels) (head :: tail) (.number read) rest := by
  unfold value
  have hspace : isSpace head = false := isSpace_of_isDigit hhead
  refine (reads_skipSpace (stops_cons hspace _)).bind ((reads_peek _).bind ?_)
  simp only [List.head?_cons]
  split
  case h_9 first heq =>
    obtain rfl := Option.some.inj heq
    rw [if_pos hhead]
    exact h.map _
  case h_1 heq => exact absurd heq (Option.some_ne_none _)
  all_goals
    rename_i heq
    obtain rfl := Option.some.inj heq
    exact absurd hhead (by decide)

theorem reads_value_minus {fuel levels : Nat} {text : List Char} {read : JsonNumber}
    (h : Reads (number false) text read rest) :
    Reads (value (fuel + 1) levels) ('-' :: text) (.number read) rest := by
  unfold value
  refine (reads_skipSpace (stops_cons (by decide) _)).bind ((reads_peek _).bind ?_)
  exact (reads_skip _ _).bind (h.map _)

/-- A number with a sign in front of digits is read if the digits are, with either sign. -/
theorem readsBack_of_digits {number : JsonNumber} {negative : Bool} {text : List Char}
    (htext : (JsonDocument.renderNumber number).toList = if negative then '-' :: text else text)
    (hstart : ∃ head tail, text = head :: tail ∧ head.isDigit)
    (h : ∀ rest, Stops isNumberPart rest → ∃ read : JsonNumber,
      Reads (JsonReader.number (!negative)) (text ++ rest) read rest ∧
        read.eraseReal = number.eraseReal) :
    ReadsBack number := by
  obtain ⟨head, tail, rfl, hhead⟩ := hstart
  cases negative with
  | true =>
      refine ⟨⟨'-', head :: tail, htext, .inl rfl⟩, fun fuel levels rest hrest => ?_⟩
      obtain ⟨read, hread, herase⟩ := h rest hrest
      rw [htext]
      exact ⟨read, reads_value_minus hread, herase⟩
  | false =>
      refine ⟨⟨head, tail, htext, .inr hhead⟩, fun fuel levels rest hrest => ?_⟩
      obtain ⟨read, hread, herase⟩ := h rest hrest
      rw [htext]
      exact ⟨read, reads_value_digit hhead hread, herase⟩

/-- Integers that fit 64 bits with a sign are read from their text. -/
theorem readsBack_integer {number : Int} (h : number.natAbs ≤ 9223372036854775808) :
    ReadsBack (.integer number) := by
  have hwhole := isWhole_toDigits number.natAbs
  have hvalue := Nat.ofDigitChars_ten_toDigits (n := number.natAbs)
  have hfits : Nat.ofDigitChars 10 (Nat.toDigits 10 number.natAbs) 0 ≤ greatestSignificand := by
    rw [hvalue]
    exact h.trans (by decide)
  refine @readsBack_of_digits _ (decide (number < 0)) (Nat.toDigits 10 number.natAbs) ?_ ?_
    fun rest hrest => ⟨_, reads_number_of_integer hwhole hfits hrest, ?_⟩
  · rw [JsonDocument.renderNumber, Int.toString_eq_repr, Int.repr_eq_if]
    by_cases hnumber : 0 ≤ number
    · have habs : number.toNat = number.natAbs := by omega
      simp [hnumber, Nat.toList_repr, habs]
    · have habs : (-number).toNat = number.natAbs := by omega
      simp [hnumber, not_le.mp hnumber, Nat.toList_repr, habs]
  · obtain ⟨head, tail, htext⟩ := List.exists_cons_of_ne_nil hwhole.ne_nil
    exact ⟨head, tail, htext, hwhole.isDigit head (htext ▸ List.mem_cons_self)⟩
  · rw [hvalue]
    unfold signedInteger
    by_cases hnumber : number < 0
    · have hpart : ¬ (number.natAbs = 0 ∨ 9223372036854775808 < number.natAbs) := by omega
      have habs : -(number.natAbs : Int) = number := by omega
      simp only [hnumber, decide_true, Bool.not_true, Bool.false_eq_true, if_false, if_neg hpart,
        habs]
    · have habs : (number.natAbs : Int) = number := by omega
      simp [hnumber, habs]

/-- Finite reals are read from their text as some real. -/
theorem readsBack_real {number : Float} (h : (ExactNumber.ofFloat number).isFinite) :
    ReadsBack (.real number) := by
  cases hexact : ExactNumber.ofFloat number with
  | undefined =>
      rw [hexact] at h
      exact absurd h Bool.false_ne_true
  | infinite negative =>
      rw [hexact] at h
      exact absurd h Bool.false_ne_true
  | finite negative significand exponent =>
      have hreadable := isReadable_of_ofFloat hexact
      have hread {positive : Bool} {rest : List Char} (hrest : Stops isNumberPart rest) :=
        @reads_render positive rest _ hreadable hrest
      have htext : (JsonDocument.renderNumber (.real number)).toList =
          (if negative then "-" else "").toList ++
            (JsonDocument.realNotation.render (.shortest significand exponent)).toList := by
        rw [JsonDocument.renderNumber, hexact, ExactNumber.render, String.toList_append]
      generalize (JsonDocument.realNotation.render (.shortest significand exponent)).toList = text
        at hread htext
      refine @readsBack_of_digits _ negative text ?_ (@hread true [] (by simp [Stops])).1
        fun rest hrest => ?_
      · cases negative with
        | true => exact htext
        | false => exact htext
      · obtain ⟨value, hvalue⟩ := (@hread (!negative) rest hrest).2
        exact ⟨.real value, hvalue, rfl⟩

end JsonReader

end ScriptEngine
