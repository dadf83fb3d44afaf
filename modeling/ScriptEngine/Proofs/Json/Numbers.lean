import ScriptEngine.Proofs.Json.Documents
import ScriptEngine.Proofs.Number.ShortestDecimal

/-!
# Reading numbers

The text of an integer is read as that integer. The text of any other number is read as some number:
the digits that the reader takes, scaled by the exponent, stay in the range, since they come from a
shortest decimal.
-/

namespace ScriptEngine

namespace JsonReader

open Rounding

/-! ### Digits -/

theorem ofDigitChars_lt (digits : List Char) (hdigits : ∀ digit ∈ digits, digit.isDigit)
    (start : Nat) :
    Nat.ofDigitChars 10 digits start < 10 ^ digits.length * (start + 1) := by
  induction digits generalizing start with
  | nil => simp
  | cons digit digits ih =>
      have hdigit : digit.toNat - '0'.toNat ≤ 9 := by
        have := hdigits digit List.mem_cons_self
        simp only [Char.isDigit, Bool.and_eq_true, decide_eq_true_eq] at this
        have hupper : digit.toNat ≤ '9'.toNat := this.2
        have hnine : '9'.toNat = 57 := rfl
        have hzero : '0'.toNat = 48 := rfl
        omega
      rw [Nat.ofDigitChars_cons, List.length_cons, pow_succ]
      refine lt_of_lt_of_le (ih (fun other hother => hdigits other (List.mem_cons_of_mem _ hother)) _) ?_
      rw [mul_assoc]
      exact Nat.mul_le_mul_left _ (by omega)

theorem le_ofDigitChars (digits : List Char) (start : Nat) :
    10 ^ digits.length * start ≤ Nat.ofDigitChars 10 digits start := by
  rw [Nat.ofDigitChars_eq_ofDigitChars_zero]
  omega

/-- All digits are taken if their value fits. -/
theorem absorb_of_le {digits : List Char} {start : Nat}
    (h : Nat.ofDigitChars 10 digits start ≤ greatestSignificand) :
    absorb start digits = (Nat.ofDigitChars 10 digits start, digits.length) := by
  induction digits generalizing start with
  | nil => rfl
  | cons digit digits ih =>
      rw [Nat.ofDigitChars_cons] at h ⊢
      have hnext : 10 * start + (digit.toNat - '0'.toNat) ≤ greatestSignificand := by
        have hle := le_ofDigitChars digits (10 * start + (digit.toNat - '0'.toNat))
        exact (Nat.le_mul_of_pos_left _ (by positivity)).trans (hle.trans h)
      unfold absorb
      simp only [if_neg (Nat.not_lt.mpr hnext), ih h, List.length_cons]

/-- What is taken of the digits is the value of the first of them, and fits. -/
theorem absorb_spec (digits : List Char) {start : Nat} (hstart : start ≤ greatestSignificand) :
    (absorb start digits).1 = Nat.ofDigitChars 10 (digits.take (absorb start digits).2) start ∧
      (absorb start digits).2 ≤ digits.length ∧
      (absorb start digits).1 ≤ greatestSignificand := by
  induction digits generalizing start with
  | nil => exact ⟨by simp [absorb], le_rfl, hstart⟩
  | cons digit digits ih =>
      unfold absorb
      simp only
      split
      · exact ⟨by simp, Nat.zero_le _, hstart⟩
      · rename_i hnext
        obtain ⟨hvalue, hcount, hfits⟩ := ih (Nat.not_lt.mp hnext)
        refine ⟨?_, by rw [List.length_cons]; omega, hfits⟩
        rw [List.take_succ_cons, Nat.ofDigitChars_cons]
        exact hvalue

/-- Digits as they stand before a point: a zero comes alone. -/
structure IsWhole (whole : List Char) : Prop where
  ne_nil : whole ≠ []
  isDigit (digit : Char) (h : digit ∈ whole) : digit.isDigit
  zero_alone (h : whole.head? = some '0') : whole = ['0']

theorem isWhole_toDigits (number : Nat) : IsWhole (Nat.toDigits 10 number) := by
  have hdigits : ∀ digit ∈ Nat.toDigits 10 number, digit.isDigit :=
    fun digit hdigit => Nat.isDigit_of_mem_toDigits (by norm_num) (by norm_num) hdigit
  refine ⟨Nat.toDigits_ne_nil, hdigits, fun hzero => ?_⟩
  obtain ⟨tail, htail⟩ : ∃ tail, Nat.toDigits 10 number = '0' :: tail := by
    cases htext : Nat.toDigits 10 number with
    | nil => exact absurd htext Nat.toDigits_ne_nil
    | cons head tail =>
        rw [htext] at hzero
        exact ⟨tail, by rw [Option.some.inj hzero]⟩
  have hnumber : Nat.ofDigitChars 10 tail 0 = number := by
    have hvalue := Nat.ofDigitChars_ten_toDigits (n := number)
    rwa [htail] at hvalue
  cases tail with
  | nil => exact htail
  | cons second tail =>
      have hlt := ofDigitChars_lt (second :: tail)
        (fun digit hdigit => hdigits digit (htail ▸ List.mem_cons_of_mem _ hdigit)) 0
      rw [hnumber, zero_add, mul_one] at hlt
      have hlength := (Nat.length_toDigits_le_iff (b := 10) (by norm_num)
        (List.length_pos_of_ne_nil (List.cons_ne_nil second tail))).mpr hlt
      rw [htail] at hlength
      simp at hlength

/-! ### Parts of a number -/

variable {positive : Bool} {whole text rest : List Char} {result : JsonNumber}

theorem stops_isDigit (h : Stops isNumberPart rest) : Stops Char.isDigit rest := by
  intro head hhead
  have hpart := h head hhead
  simp only [isNumberPart, Bool.or_eq_false_iff] at hpart
  exact hpart.1.1.1

/-- The digits before a point or an exponent, with the reader at what follows. -/
theorem reads_number_of_whole (hwhole : IsWhole whole)
    (hfits : Nat.ofDigitChars 10 whole 0 ≤ greatestSignificand) {mark : Char}
    (hmark : mark = '.' ∨ mark = 'e')
    (h : Reads ((if mark = '.' then fractionPart else exponentPart) positive
      (Nat.ofDigitChars 10 whole 0) 0) (mark :: text) result rest) :
    Reads (number positive) (whole ++ mark :: text) result rest := by
  obtain ⟨head, tail, rfl⟩ := List.exists_cons_of_ne_nil hwhole.ne_nil
  unfold number
  refine (reads_peek _).bind ?_
  by_cases hzero : head = '0'
  · subst hzero
    obtain rfl : tail = [] := (List.cons.inj (hwhole.zero_alone rfl)).2
    refine (reads_skip _ _).bind ((reads_peek _).bind ?_)
    rcases hmark with rfl | rfl <;> exact h
  · have hhead : head.isDigit := hwhole.isDigit head List.mem_cons_self
    have hstops : Stops Char.isDigit (mark :: text) := by
      rcases hmark with rfl | rfl <;> exact stops_cons (by decide) _
    simp only [List.cons_append, List.head?_cons, hhead, not_true_eq_false, if_false]
    refine (reads_takeAll_append hwhole.isDigit hstops).bind ?_
    rw [absorb_of_le hfits]
    simp only [sub_self]
    refine (reads_peek _).bind ?_
    rcases hmark with rfl | rfl <;> exact h

theorem ne_of_not_isNumberPart {head : Char} (h : isNumberPart head = false) :
    head.isDigit = false ∧ head ≠ '.' ∧ head ≠ 'e' ∧ head ≠ 'E' := by
  simp only [isNumberPart, Bool.or_eq_false_iff, beq_eq_false_iff_ne] at h
  exact ⟨h.1.1.1, h.1.1.2, h.1.2, h.2⟩

/-- The digits of an integer, with nothing after them that belongs to a number. -/
theorem reads_number_of_integer (hwhole : IsWhole whole)
    (hfits : Nat.ofDigitChars 10 whole 0 ≤ greatestSignificand) (hrest : Stops isNumberPart rest) :
    Reads (number positive) (whole ++ rest) (signedInteger positive (Nat.ofDigitChars 10 whole 0))
      rest := by
  obtain ⟨head, tail, rfl⟩ := List.exists_cons_of_ne_nil hwhole.ne_nil
  unfold number
  refine (reads_peek _).bind ?_
  by_cases hzero : head = '0'
  · subst hzero
    obtain rfl : tail = [] := (List.cons.inj (hwhole.zero_alone rfl)).2
    simp only [List.cons_append, List.nil_append, List.head?_cons]
    refine (reads_skip _ _).bind ((reads_peek _).bind ?_)
    cases rest with
    | nil => exact reads_pure _ _
    | cons next rest =>
        obtain ⟨hdigit, hpoint, hlower, hupper⟩ := ne_of_not_isNumberPart (hrest next rfl)
        simp only [List.head?_cons, hdigit, Bool.false_eq_true, if_false]
        exact reads_pure _ _
  · have hhead : head.isDigit := hwhole.isDigit head List.mem_cons_self
    simp only [List.cons_append, List.head?_cons, hhead, not_true_eq_false, if_false]
    refine (reads_takeAll_append hwhole.isDigit (stops_isDigit hrest)).bind ?_
    rw [absorb_of_le hfits]
    simp only [sub_self, if_true]
    refine (reads_peek _).bind ?_
    cases rest with
    | nil => exact reads_pure _ _
    | cons next rest =>
        obtain ⟨hdigit, hpoint, hlower, hupper⟩ := ne_of_not_isNumberPart (hrest next rfl)
        simp only [List.head?_cons]
        split
        · rename_i heq
          exact absurd (Option.some.inj heq) hpoint
        · rename_i heq
          exact absurd (Option.some.inj heq) hlower
        · rename_i heq
          exact absurd (Option.some.inj heq) hupper
        · exact reads_pure _ _

theorem reads_finish {significand : Nat} {exponent : Int} {value : Float}
    (h : scaled? significand exponent = some value) (rest : List Char) :
    Reads (finish positive significand exponent) rest (withSign positive value) rest := by
  unfold finish
  rw [h]
  exact reads_pure _ _

/-- The digits after a point, of which as many are taken as fit. -/
theorem reads_fractionPart {digits : List Char} (hne : digits ≠ [])
    (hdigits : ∀ digit ∈ digits, digit.isDigit) (htext : Stops Char.isDigit text)
    {significand : Nat} {exponent : Int}
    (h : Reads (afterDigits positive (absorb significand digits).1
      (exponent - (absorb significand digits).2)) text result rest) :
    Reads (fractionPart positive significand exponent) ('.' :: (digits ++ text)) result rest := by
  unfold fractionPart
  refine (reads_skip _ _).bind ((reads_takeAll_append hdigits htext).bind ?_)
  have hempty : digits.isEmpty = false := by
    rw [List.isEmpty_eq_false_iff]
    exact hne
  simp only [hempty, Bool.false_eq_true, if_false]
  exact h

theorem reads_afterDigits {significand : Nat} {exponent : Int} {value : Float}
    (h : scaled? significand exponent = some value) (hrest : Stops isNumberPart rest) :
    Reads (afterDigits positive significand exponent) rest (withSign positive value) rest := by
  unfold afterDigits
  refine (reads_peek _).bind ?_
  cases rest with
  | nil => exact reads_finish h []
  | cons next rest =>
      obtain ⟨hdigit, hpoint, hlower, hupper⟩ := ne_of_not_isNumberPart (hrest next rfl)
      simp only [List.head?_cons]
      split
      · rename_i heq
        exact absurd (Option.some.inj heq) hlower
      · rename_i heq
        exact absurd (Option.some.inj heq) hupper
      · exact reads_finish h _

/-- The exponent after its mark and sign. One below zero is never out of range. -/
theorem reads_exponentPart {significand place : Nat} {start : Int} {sign : Char}
    (hsign : sign = '+' ∧ place ≤ greatestExponent ∨ sign = '-') (hrest : Stops isNumberPart rest)
    (h : ∀ shift : Int, (sign = '+' ∧ shift = place ∨ sign = '-' ∧ shift ≤ 0) →
      ∃ value, scaled? significand (start + shift) = some value) :
    ∃ value, Reads (exponentPart positive significand start)
      ('e' :: sign :: (Nat.toDigits 10 place ++ rest)) (.real value) rest := by
  have hwhole := isWhole_toDigits place
  obtain ⟨head, tail, htext⟩ := List.exists_cons_of_ne_nil hwhole.ne_nil
  have hhead : head.isDigit := hwhole.isDigit head (htext ▸ List.mem_cons_self)
  have hdigits := reads_takeAll_append hwhole.isDigit (stops_isDigit hrest)
  have hmark : some sign = some '+' ∨ some sign = some '-' := by
    rcases hsign with ⟨rfl, _⟩ | rfl
    · exact .inl rfl
    · exact .inr rfl
  -- what is left once the digits are taken, whatever the reader makes of them
  have hparts {value : Float}
      (hvalue : Reads (if (absorb 0 (Nat.toDigits 10 place)).1 ≤ greatestExponent then
          finish positive significand (start + if some sign = some '-' then
            -((absorb 0 (Nat.toDigits 10 place)).1 : Int) else (absorb 0 (Nat.toDigits 10 place)).1)
        else pure (withSign positive 0)) rest (.real value) rest)
      (hlarge : ¬ (absorb 0 (Nat.toDigits 10 place)).1 ≤ greatestExponent → sign = '-') :
      Reads (exponentPart positive significand start)
        ('e' :: sign :: (Nat.toDigits 10 place ++ rest)) (.real value) rest := by
    unfold exponentPart
    refine (reads_skip _ _).bind ((reads_peek _).bind ?_)
    refine Reads.of_if hmark ?_
    refine (reads_skip _ _).bind ((reads_peek _).bind ?_)
    have hfirst : (Nat.toDigits 10 place ++ rest).head? = some head := by rw [htext]; rfl
    simp only [hfirst, hhead, not_true_eq_false, if_false]
    refine Reads.get_bind fun offset => hdigits.bind ?_
    split
    · rename_i hfits
      rwa [if_pos hfits] at hvalue
    · rename_i hfits
      rw [if_neg hfits] at hvalue
      rw [if_neg (fun hne => hne.2 (congrArg some (hlarge hfits)))]
      exact hvalue
  by_cases hfits : (absorb 0 (Nat.toDigits 10 place)).1 ≤ greatestExponent
  · obtain ⟨value, hvalue⟩ := h (if some sign = some '-' then
      -((absorb 0 (Nat.toDigits 10 place)).1 : Int) else (absorb 0 (Nat.toDigits 10 place)).1) (by
        rcases hsign with ⟨rfl, hplace⟩ | rfl
        · left
          rw [if_neg (by decide), absorb_of_le, Nat.ofDigitChars_ten_toDigits]
          · exact ⟨rfl, rfl⟩
          · rw [Nat.ofDigitChars_ten_toDigits]
            exact hplace.trans (by decide)
        · right
          rw [if_pos rfl]
          exact ⟨rfl, Int.neg_nonpos_of_nonneg (Int.natCast_nonneg _)⟩)
    refine ⟨if positive then value else -value, hparts ?_ (absurd hfits)⟩
    rw [if_pos hfits]
    exact reads_finish hvalue rest
  · refine ⟨if positive then 0 else -0, hparts ?_ fun _ => ?_⟩
    · rw [if_neg hfits]
      exact reads_pure _ rest
    · rcases hsign with ⟨rfl, hplace⟩ | rfl
      · rw [absorb_of_le, Nat.ofDigitChars_ten_toDigits] at hfits
        · exact absurd hplace hfits
        · rw [Nat.ofDigitChars_ten_toDigits]
          exact hplace.trans (by decide)
      · rfl

end JsonReader

end ScriptEngine
