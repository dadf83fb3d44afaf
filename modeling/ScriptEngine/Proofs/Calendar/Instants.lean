import ScriptEngine.Calendar.Moment
import ScriptEngine.Proofs.Calendar.Days

/-!
# Instants and their fields

The seven fields of an instant name it, and no other instant. Seven numbers name an instant only if
they are its fields.
-/

namespace ScriptEngine

namespace Moment

/-- An instant of a day of the calendar. Only the last second of a minute may go on into a leap
second. -/
structure IsInCalendar (moment : Moment) : Prop where
  leastYear_le : Date.leastYear ≤ moment.date.year
  le_greatestYear : moment.date.year ≤ Date.greatestYear
  second_lt : moment.second < 86400
  nanosecond_lt : moment.nanosecond < 2 * billion
  leap : moment.nanosecond < billion ∨ moment.second % 60 = 59

theorem isValidTime_iff {fields : Fields} : isValidTime fields ↔
    fields.hour < 24 ∧ fields.minute < 60 ∧ fields.second < 60 ∧
      fields.nanosecond < 2 * billion ∧ (fields.nanosecond < billion ∨ fields.second = 59) := by
  simp only [isValidTime, Bool.and_eq_true, Bool.or_eq_true, decide_eq_true_eq, beq_iff_eq,
    and_assoc]

theorem isValid_date {moment : Moment} (h : moment.IsInCalendar) : moment.date.isValid :=
  Date.isValid_iff.mpr
    ⟨⟨h.leastYear_le, h.le_greatestYear⟩, Date.isProper_ofDayNumber moment.day⟩

theorem isValidTime_fields {moment : Moment} (h : moment.IsInCalendar) :
    isValidTime moment.fields := by
  have hsecond := h.second_lt
  refine isValidTime_iff.mpr ⟨?_, ?_, ?_, h.nanosecond_lt, h.leap⟩ <;>
    simp only [fields, hour, minute] <;> omega

/-- An instant is named by its fields. -/
theorem ofFields?_fields {moment : Moment} (h : moment.IsInCalendar) :
    ofFields? moment.fields = some moment := by
  have hvalid : moment.date.isValid && isValidTime moment.fields :=
    Bool.and_eq_true_iff.mpr ⟨isValid_date h, isValidTime_fields h⟩
  have hday : moment.date.dayNumber = moment.day := Date.dayNumber_ofDayNumber moment.day
  have hsecond : 3600 * moment.hour + 60 * moment.minute + moment.second % 60 = moment.second := by
    simp only [hour, minute]
    omega
  change (if moment.date.isValid && isValidTime moment.fields then
    some (Moment.mk moment.date.dayNumber
      (3600 * moment.hour + 60 * moment.minute + moment.second % 60) moment.nanosecond)
    else none) = _
  rw [if_pos hvalid, hday, hsecond]

/-- What seven numbers name is an instant of the calendar, and they are its fields. -/
theorem fields_of_ofFields? {fields : Fields} {moment : Moment}
    (h : ofFields? fields = some moment) : moment.IsInCalendar ∧ moment.fields = fields := by
  obtain ⟨year, month, day, hour, minute, second, nanosecond⟩ := fields
  obtain ⟨hvalid, hmoment⟩ := Option.ite_none_right_eq_some.mp h
  obtain ⟨hdate, htime⟩ := Bool.and_eq_true_iff.mp hvalid
  obtain ⟨⟨hleast, hgreatest⟩, hproper⟩ := Date.isValid_iff.mp hdate
  obtain ⟨hhour, hminute, hsecond, hnanosecond, hleap⟩ := isValidTime_iff.mp htime
  obtain rfl := Option.some.inj hmoment
  dsimp only at hleast hgreatest hproper hhour hminute hsecond hnanosecond hleap ⊢
  have hdate : Date.ofDayNumber (Date.dayNumber ⟨year, month, day⟩) = ⟨year, month, day⟩ :=
    Date.ofDayNumber_dayNumber hproper
  have hmod : (3600 * hour + 60 * minute + second) % 60 = second := by omega
  have hhours : (3600 * hour + 60 * minute + second) / 3600 = hour := by omega
  have hminutes : (3600 * hour + 60 * minute + second) / 60 % 60 = minute := by omega
  have hday : 3600 * hour + 60 * minute + second < 86400 := by omega
  refine ⟨⟨?_, ?_, hday, hnanosecond, by rwa [hmod]⟩, ?_⟩
  · rwa [date, hdate]
  · rwa [date, hdate]
  · simp only [Moment.fields, date, hdate, Moment.hour, Moment.minute, hhours, hminutes, hmod]

/-- **Fields name instants.** Seven numbers name an instant exactly if it is in the calendar and
they are its fields. -/
theorem ofFields?_eq_some_iff {fields : Fields} {moment : Moment} :
    ofFields? fields = some moment ↔ moment.IsInCalendar ∧ moment.fields = fields := by
  refine ⟨fields_of_ofFields?, ?_⟩
  rintro ⟨hmoment, rfl⟩
  exact ofFields?_fields hmoment

theorem exists_ofFields? {fields : Fields}
    (hdate : (Date.mk fields.year fields.month fields.day).isValid) (htime : isValidTime fields) :
    ∃ moment, ofFields? fields = some moment :=
  ⟨_, if_pos (Bool.and_eq_true_iff.mpr ⟨hdate, htime⟩)⟩

/-- The instant a number of seconds after the start of 1970 is in the calendar, and it is so many
seconds after it. -/
theorem isInCalendar_of_ofSeconds? {seconds : Int} {moment : Moment}
    (h : ofSeconds? seconds = some moment) :
    moment.IsInCalendar ∧ moment.timestamp = seconds := by
  obtain ⟨⟨hleast, hgreatest⟩, hmoment⟩ := Option.ite_none_right_eq_some.mp h
  obtain rfl := Option.some.inj hmoment
  have hsecond : (seconds % 86400).toNat < 86400 := by omega
  have hbillion : 0 < billion := by decide
  refine ⟨⟨hleast, hgreatest, hsecond, Nat.mul_pos Nat.two_pos hbillion, .inl hbillion⟩, ?_⟩
  simp only [timestamp]
  omega

/-- The calendar goes from the first second of its least year to the last one of its greatest. -/
theorem isSome_ofSeconds?_iff {seconds : Int} :
    (ofSeconds? seconds).isSome ↔ -8334601228800 ≤ seconds ∧ seconds ≤ 8210266876799 := by
  have hfirst : Date.daysBeforeYear Date.leastYear - Date.epoch = -96465292 := by decide
  have hend : Date.daysBeforeYear (Date.greatestYear + 1) - Date.epoch = 95026237 := by decide
  have hleast : Date.leastYear ≤ (Date.ofDayNumber (seconds / 86400)).year ↔
      -8334601228800 ≤ seconds := by
    rw [Date.le_year_ofDayNumber_iff]
    omega
  have hgreatest : (Date.ofDayNumber (seconds / 86400)).year ≤ Date.greatestYear ↔
      seconds ≤ 8210266876799 := by
    rw [← Int.lt_add_one_iff, ← not_le, Date.le_year_ofDayNumber_iff]
    omega
  rw [← hleast, ← hgreatest, Option.isSome_iff_exists]
  constructor
  · rintro ⟨moment, hmoment⟩
    exact (Option.ite_none_right_eq_some.mp hmoment).1
  · intro hyears
    exact ⟨_, if_pos hyears⟩

end Moment

end ScriptEngine
