namespace ScriptEngine

/-- A day of the Gregorian calendar, which is taken to reach back and ahead without end. -/
structure Date where
  year : Int
  month : Nat
  day : Nat
deriving DecidableEq, Repr

namespace Date

def isLeapYear (year : Int) : Bool :=
  year % 4 == 0 && (year % 100 != 0 || year % 400 == 0)

def daysInMonth (year : Int) (month : Nat) : Nat :=
  match month with
  | 2 => if isLeapYear year then 29 else 28
  | 4 => 30
  | 6 => 30
  | 9 => 30
  | 11 => 30
  | _ => 31

def leastYear : Int := -262143

def greatestYear : Int := 262142

def isValid (date : Date) : Bool :=
  leastYear ≤ date.year && date.year ≤ greatestYear && 1 ≤ date.month && date.month ≤ 12 &&
    1 ≤ date.day && date.day ≤ daysInMonth date.year date.month

/-- The days of a year before a month. -/
def daysBeforeMonth (year : Int) : Nat → Nat
  | 0 => 0
  | 1 => 0
  | month + 2 => daysBeforeMonth year (month + 1) + daysInMonth year (month + 1)

/-- The days between the first day of year one and the first day of a year. -/
def daysBeforeYear (year : Int) : Int :=
  365 * (year - 1) + (year - 1) / 4 - (year - 1) / 100 + (year - 1) / 400

/-- The place of a day in its year, from one on. -/
def ordinal (date : Date) : Nat :=
  daysBeforeMonth date.year date.month + date.day

/-- The number of the first day of 1970, counted from the first day of year one. -/
def epoch : Int := 719162

/-- The days since the first day of 1970. -/
def dayNumber (date : Date) : Int :=
  daysBeforeYear date.year + date.ordinal - 1 - epoch

/-- The month that holds a day of a year, and the day of the month, tried from `month` on. -/
def ofOrdinal (year : Int) : Nat → Nat → Nat → Nat × Nat
  | 0, month, day => (month, day)
  | later + 1, month, day =>
    if day ≤ daysInMonth year month then
      (month, day)
    else
      ofOrdinal year later (month + 1) (day - daysInMonth year month)

/-- The year that holds a day counted from the first day of year one, and the place of the day in
it, from zero on. Four hundred years have 146097 days; only the last year of four and the last
century of four are longer than the others. -/
def yearOfDay (day : Int) : Int × Nat :=
  let cycle := day / 146097
  let inCycle := (day % 146097).toNat
  let century := min 3 (inCycle / 36524)
  let inCentury := inCycle - century * 36524
  let quadrennium := inCentury / 1461
  let inQuadrennium := inCentury % 1461
  let year := min 3 (inQuadrennium / 365)
  (400 * cycle + 100 * century + 4 * quadrennium + year + 1, inQuadrennium - year * 365)

/-- The date that is a number of days after the first day of 1970. -/
def ofDayNumber (number : Int) : Date :=
  let (year, place) := yearOfDay (number + epoch)
  let (month, day) := ofOrdinal year 11 1 (place + 1)
  ⟨year, month, day⟩

/-- Days since the last Monday. -/
def weekday (date : Date) : Nat :=
  ((date.dayNumber + 3) % 7).toNat

/-- The week of the year, where the first week starts with the first day that is `start` days after
a Monday. -/
def weekFrom (date : Date) (start : Nat) : Nat :=
  (date.ordinal + 6 - (date.weekday + 7 - start) % 7) / 7

/-- The week that holds a date, weeks starting on Monday, with the year that holds the Thursday of
that week. -/
def weekAndYear (date : Date) : Nat × Int :=
  let thursday := ofDayNumber (date.dayNumber - date.weekday + 3)
  ((thursday.ordinal - 1) / 7 + 1, thursday.year)

end Date

end ScriptEngine
