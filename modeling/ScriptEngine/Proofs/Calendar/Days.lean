import Mathlib.Order.Monotone.Basic
import ScriptEngine.Calendar.Date

/-!
# Dates and day numbers

Every whole number is the number of exactly one day of the calendar. A day number is taken apart
into a year and a place in it, and the place into a month and a day. Both steps have just one
result, since the days before a year and before a month grow with it.
-/

namespace ScriptEngine

namespace Date

/-! ### Months in a year -/

/-- There is such a day in the calendar, whatever the year. -/
structure IsProper (date : Date) : Prop where
  month_pos : 1 ≤ date.month
  month_le : date.month ≤ 12
  day_pos : 1 ≤ date.day
  day_le : date.day ≤ daysInMonth date.year date.month

theorem isValid_iff {date : Date} : date.isValid ↔
    (leastYear ≤ date.year ∧ date.year ≤ greatestYear) ∧ date.IsProper := by
  simp only [isValid, Bool.and_eq_true, decide_eq_true_eq]
  constructor
  · rintro ⟨⟨⟨⟨⟨hleast, hgreatest⟩, hmonth⟩, hmonths⟩, hday⟩, hdays⟩
    exact ⟨⟨hleast, hgreatest⟩, hmonth, hmonths, hday, hdays⟩
  · rintro ⟨⟨hleast, hgreatest⟩, hproper⟩
    exact ⟨⟨⟨⟨⟨hleast, hgreatest⟩, hproper.month_pos⟩, hproper.month_le⟩, hproper.day_pos⟩,
      hproper.day_le⟩

theorem daysInMonth_le (year : Int) (month : Nat) : daysInMonth year month ≤ 31 := by
  unfold daysInMonth
  split <;> first | decide | (split <;> decide)

theorem daysBeforeMonth_succ (year : Int) {month : Nat} (h : 1 ≤ month) :
    daysBeforeMonth year (month + 1) = daysBeforeMonth year month + daysInMonth year month := by
  obtain ⟨before, rfl⟩ := Nat.exists_eq_add_of_le' h
  rw [daysBeforeMonth]

theorem monotone_daysBeforeMonth (year : Int) : Monotone (daysBeforeMonth year) := by
  refine monotone_nat_of_le_succ fun month => ?_
  cases month with
  | zero => exact Nat.le_refl 0
  | succ month =>
      rw [daysBeforeMonth_succ year (Nat.le_add_left 1 month)]
      exact Nat.le_add_right _ _

/-- The days before a thirteenth month are all days of the year. -/
theorem daysBeforeMonth_thirteen (year : Int) :
    daysBeforeMonth year 13 = if isLeapYear year then 366 else 365 := by
  cases hleap : isLeapYear year <;> simp [daysBeforeMonth, daysInMonth, hleap]

theorem IsProper.ordinal_le {date : Date} (h : date.IsProper) :
    date.ordinal ≤ daysBeforeMonth date.year (date.month + 1) := by
  rw [daysBeforeMonth_succ date.year h.month_pos]
  exact Nat.add_le_add_left h.day_le _

/-- Of two days of a year, one in a later month comes later. -/
theorem ordinal_lt_of_month_lt {year : Int} {month day later other : Nat}
    (h : IsProper ⟨year, month, day⟩) (hother : 1 ≤ other) (hlater : month < later) :
    ordinal ⟨year, month, day⟩ < ordinal ⟨year, later, other⟩ :=
  calc ordinal ⟨year, month, day⟩
    _ ≤ daysBeforeMonth year (month + 1) := h.ordinal_le
    _ ≤ daysBeforeMonth year later := monotone_daysBeforeMonth year hlater
    _ < daysBeforeMonth year later + other := Nat.lt_add_of_pos_right hother

theorem eq_of_ordinal_eq {year : Int} {month day otherMonth otherDay : Nat}
    (h : IsProper ⟨year, month, day⟩) (hother : IsProper ⟨year, otherMonth, otherDay⟩)
    (heq : ordinal ⟨year, month, day⟩ = ordinal ⟨year, otherMonth, otherDay⟩) :
    month = otherMonth ∧ day = otherDay := by
  rcases Nat.lt_trichotomy month otherMonth with hless | rfl | hless
  · exact absurd heq (ordinal_lt_of_month_lt h hother.day_pos hless).ne
  · exact ⟨rfl, Nat.add_left_cancel heq⟩
  · exact absurd heq (ordinal_lt_of_month_lt hother h.day_pos hless).ne'

/-- The month that is found for a place of a year has that place. The induction is on the months
that are left to try. -/
theorem ordinal_ofOrdinal (year : Int) {later month day : Nat} (hmonths : month + later = 12)
    (hmonth : 1 ≤ month) (hday : 1 ≤ day)
    (hplace : daysBeforeMonth year month + day ≤ daysBeforeMonth year 13) :
    let found : Date :=
      ⟨year, (ofOrdinal year later month day).1, (ofOrdinal year later month day).2⟩
    found.IsProper ∧ found.ordinal = daysBeforeMonth year month + day := by
  induction later generalizing month day with
  | zero =>
      obtain rfl : month = 12 := hmonths
      rw [daysBeforeMonth_succ year hmonth] at hplace
      exact ⟨⟨hmonth, Nat.le_refl 12, hday, Nat.le_of_add_le_add_left hplace⟩, rfl⟩
  | succ later ih =>
      by_cases hfits : day ≤ daysInMonth year month
      · rw [ofOrdinal, if_pos hfits]
        have hmonthLe : month ≤ 12 := by omega
        exact ⟨⟨hmonth, hmonthLe, hday, hfits⟩, rfl⟩
      · have hsucc := daysBeforeMonth_succ year hmonth
        have hrest : daysBeforeMonth year (month + 1) + (day - daysInMonth year month) =
            daysBeforeMonth year month + day := by omega
        rw [ofOrdinal, if_neg hfits, ← hrest]
        exact ih (by omega) (by omega) (by omega) (by omega)

/-! ### Years -/

theorem daysBeforeYear_succ (year : Int) :
    daysBeforeYear (year + 1) = daysBeforeYear year + daysBeforeMonth year 13 := by
  rw [daysBeforeMonth_thirteen]
  simp only [daysBeforeYear, isLeapYear, Bool.and_eq_true, Bool.or_eq_true, beq_iff_eq, bne_iff_ne]
  split <;> omega

theorem daysBeforeYear_le {year later : Int} (h : year ≤ later) :
    daysBeforeYear year ≤ daysBeforeYear later := by
  simp only [daysBeforeYear]
  omega

/-- What remains of four parts after the whole ones among the first three. Only the fourth part may
be one longer than the others. -/
theorem exists_of_min_div {whole length : Nat} (hpos : 0 < length) (h : whole ≤ 4 * length) :
    ∃ rest, whole = min 3 (whole / length) * length + rest ∧ rest ≤ length ∧
      (rest = length → min 3 (whole / length) = 3) := by
  have hwhole := Nat.div_add_mod' whole length
  have hrest := Nat.mod_lt whole hpos
  rcases Nat.lt_or_ge (whole / length) 4 with hfew | hmany
  · rw [Nat.min_eq_right (Nat.le_of_lt_succ hfew)]
    exact ⟨whole % length, hwhole.symm, hrest.le, fun hfull => absurd hfull hrest.ne⟩
  · rw [Nat.min_eq_left (Nat.le_of_succ_le hmany)]
    have hleast := Nat.mul_le_of_le_div length 4 whole hmany
    exact ⟨length, by omega, Nat.le_refl length, fun _ => rfl⟩

/-- The parts of a day number. The last year of four, and the last century of four, may be a day
longer than the others. -/
theorem exists_yearOfDay (day : Int) :
    ∃ (cycle : Int) (century quadrennium year place : Nat),
      yearOfDay day = (400 * cycle + 100 * century + 4 * quadrennium + year + 1, place) ∧
      day = 146097 * cycle + 36524 * century + 1461 * quadrennium + 365 * year + place ∧
      century ≤ 3 ∧ quadrennium ≤ 24 ∧ year ≤ 3 ∧ place ≤ 365 ∧
      (place = 365 → year = 3 ∧ (quadrennium = 24 → century = 3)) := by
  have hcycle : (day % 146097).toNat ≤ 4 * 36524 := by omega
  obtain ⟨inCentury, hcentury, hcenturyLe, hlastCentury⟩ :=
    exists_of_min_div (by decide) hcycle
  have hquadrennium : inCentury % 1461 ≤ 4 * 365 := by omega
  obtain ⟨place, hyear, hplace, hlastYear⟩ := exists_of_min_div (by decide) hquadrennium
  have hinCentury : (day % 146097).toNat - min 3 ((day % 146097).toNat / 36524) * 36524 =
      inCentury := by omega
  have hinYear : inCentury % 1461 - min 3 (inCentury % 1461 / 365) * 365 = place := by omega
  refine ⟨day / 146097, min 3 ((day % 146097).toNat / 36524), inCentury / 1461,
    min 3 (inCentury % 1461 / 365), place, ?_, ?_, Nat.min_le_left _ _, by omega,
    Nat.min_le_left _ _, hplace, fun hlong => ⟨hlastYear hlong, fun hlast => hlastCentury ?_⟩⟩
  · simp only [yearOfDay, hinCentury, hinYear]
  · omega
  · have hfull := hlastYear hlong
    omega

/-- A day number is made up of the days before its year and its place in the year. -/
theorem daysBeforeYear_yearOfDay (day : Int) :
    daysBeforeYear (yearOfDay day).1 + (yearOfDay day).2 = day ∧
      (yearOfDay day).2 < daysBeforeMonth (yearOfDay day).1 13 := by
  obtain ⟨cycle, century, quadrennium, year, place, hparts, hday, hcentury, hquadrennium, hyear,
    hplace, hlong⟩ := exists_yearOfDay day
  rw [hparts, daysBeforeMonth_thirteen]
  constructor
  · simp only [daysBeforeYear]
    omega
  · simp only [isLeapYear, Bool.and_eq_true, Bool.or_eq_true, beq_iff_eq, bne_iff_ne]
    split <;> omega

/-- Two days with one number are in one year. -/
theorem year_eq_of_daysBeforeYear_add {year other : Int} {place otherPlace : Nat}
    (hplace : place < daysBeforeMonth year 13) (hother : otherPlace < daysBeforeMonth other 13)
    (h : daysBeforeYear year + place = daysBeforeYear other + otherPlace) : year = other := by
  have hyear := daysBeforeYear_succ year
  have hsucc := daysBeforeYear_succ other
  rcases lt_trichotomy year other with hless | heq | hless
  · have hmonotone := daysBeforeYear_le (Int.add_one_le_of_lt hless)
    omega
  · exact heq
  · have hmonotone := daysBeforeYear_le (Int.add_one_le_of_lt hless)
    omega

/-! ### Day numbers -/

theorem ofDayNumber_spec (number : Int) :
    (ofDayNumber number).IsProper ∧ (ofDayNumber number).year = (yearOfDay (number + epoch)).1 ∧
      (ofDayNumber number).ordinal = (yearOfDay (number + epoch)).2 + 1 := by
  obtain ⟨-, hplace⟩ := daysBeforeYear_yearOfDay (number + epoch)
  have hfound := ordinal_ofOrdinal (yearOfDay (number + epoch)).1 (Nat.add_comm 1 11)
    (Nat.le_refl 1) (Nat.le_add_left 1 (yearOfDay (number + epoch)).2)
    (by rw [daysBeforeMonth, Nat.zero_add]; exact hplace)
  rw [daysBeforeMonth, Nat.zero_add] at hfound
  exact ⟨hfound.1, rfl, hfound.2⟩

theorem isProper_ofDayNumber (number : Int) : (ofDayNumber number).IsProper :=
  (ofDayNumber_spec number).1

/-- The days from the first day of a year on are in that year or a later one. -/
theorem le_year_ofDayNumber_iff {year number : Int} :
    year ≤ (ofDayNumber number).year ↔ daysBeforeYear year ≤ number + epoch := by
  obtain ⟨-, hyear, -⟩ := ofDayNumber_spec number
  obtain ⟨hday, hplace⟩ := daysBeforeYear_yearOfDay (number + epoch)
  rw [hyear]
  constructor
  · intro hle
    have hbefore := daysBeforeYear_le hle
    omega
  · intro hdays
    by_contra hlater
    have hsucc := daysBeforeYear_succ (yearOfDay (number + epoch)).1
    have hbefore := daysBeforeYear_le (Int.add_one_le_of_lt (not_le.mp hlater))
    omega

/-- The day that has a number has it. -/
theorem dayNumber_ofDayNumber (number : Int) : (ofDayNumber number).dayNumber = number := by
  obtain ⟨-, hyear, hordinal⟩ := ofDayNumber_spec number
  obtain ⟨hday, -⟩ := daysBeforeYear_yearOfDay (number + epoch)
  rw [dayNumber, hyear, hordinal]
  omega

theorem IsProper.ordinal_pos {date : Date} (h : date.IsProper) : 1 ≤ date.ordinal :=
  Nat.le_add_left_of_le h.day_pos

theorem IsProper.ordinal_le_year {date : Date} (h : date.IsProper) :
    date.ordinal ≤ daysBeforeMonth date.year 13 :=
  h.ordinal_le.trans (monotone_daysBeforeMonth date.year (Nat.succ_le_succ h.month_le))

theorem eq_of_dayNumber_eq {date other : Date} (h : date.IsProper) (hother : other.IsProper)
    (heq : date.dayNumber = other.dayNumber) : date = other := by
  obtain ⟨year, month, day⟩ := date
  obtain ⟨otherYear, otherMonth, otherDay⟩ := other
  have hpos := h.ordinal_pos
  have hotherPos := hother.ordinal_pos
  have hle := h.ordinal_le_year
  have hotherLe := hother.ordinal_le_year
  unfold dayNumber at heq
  dsimp only at heq hle hotherLe
  have hplace : ordinal ⟨year, month, day⟩ - 1 < daysBeforeMonth year 13 := by omega
  have hotherPlace : ordinal ⟨otherYear, otherMonth, otherDay⟩ - 1 < daysBeforeMonth otherYear 13 :=
    by omega
  obtain rfl : year = otherYear :=
    year_eq_of_daysBeforeYear_add hplace hotherPlace (by omega)
  obtain ⟨rfl, rfl⟩ := eq_of_ordinal_eq h hother (by omega)
  rfl

/-- The number of a day leads back to it. -/
theorem ofDayNumber_dayNumber {date : Date} (h : date.IsProper) :
    ofDayNumber date.dayNumber = date :=
  eq_of_dayNumber_eq (isProper_ofDayNumber _) h (dayNumber_ofDayNumber _)

end Date

end ScriptEngine
