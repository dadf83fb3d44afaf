import ScriptEngine.Calendar.Date

namespace ScriptEngine

/-- An instant in universal time: the days since the first day of 1970, the second of the day, and
the nanosecond. A nanosecond above 999999999 belongs to a leap second after the last second of a
minute. -/
structure Moment where
  day : Int
  second : Nat
  nanosecond : Nat
deriving DecidableEq, Repr

namespace Moment

/-- The seven numbers that name an instant. -/
structure Fields where
  year : Int
  month : Nat
  day : Nat
  hour : Nat
  minute : Nat
  second : Nat
  nanosecond : Nat
deriving DecidableEq, Repr

def billion : Nat := 1000000000

def date (moment : Moment) : Date :=
  .ofDayNumber moment.day

def hour (moment : Moment) : Nat :=
  moment.second / 3600

def minute (moment : Moment) : Nat :=
  moment.second / 60 % 60

def fields (moment : Moment) : Fields :=
  let date := moment.date
  ⟨date.year, date.month, date.day, moment.hour, moment.minute, moment.second % 60,
    moment.nanosecond⟩

def isValidTime (fields : Fields) : Bool :=
  fields.hour < 24 && fields.minute < 60 && fields.second < 60 &&
    fields.nanosecond < 2 * billion && (fields.nanosecond < billion || fields.second == 59)

/-- The instant that seven numbers name, if they name one. -/
def ofFields? (fields : Fields) : Option Moment :=
  let date : Date := ⟨fields.year, fields.month, fields.day⟩
  if date.isValid && isValidTime fields then
    some ⟨date.dayNumber, 3600 * fields.hour + 60 * fields.minute + fields.second,
      fields.nanosecond⟩
  else
    none

/-- The instant a number of seconds after the start of 1970, within the years of the calendar. -/
def ofSeconds? (seconds : Int) : Option Moment :=
  let moment : Moment := ⟨seconds / 86400, (seconds % 86400).toNat, 0⟩
  if Date.leastYear ≤ moment.date.year ∧ moment.date.year ≤ Date.greatestYear then
    some moment
  else
    none

/-- The instant a number of nanoseconds after the start of 1970. -/
def ofNanoseconds (nanoseconds : Int) : Moment :=
  let seconds := nanoseconds / billion
  ⟨seconds / 86400, (seconds % 86400).toNat, (nanoseconds % billion).toNat⟩

def timestamp (moment : Moment) : Int :=
  86400 * moment.day + moment.second

/-- The nanoseconds from one instant to another. A leap second that lies between them counts. -/
def nanosecondsBetween (start stop : Moment) : Int :=
  let leap : Int :=
    if start.second < stop.second ∧ billion ≤ start.nanosecond then 1
    else if stop.second < start.second ∧ billion ≤ stop.nanosecond then -1
    else 0
  let seconds := stop.timestamp - start.timestamp + leap
  seconds * billion + (stop.nanosecond - start.nanosecond)

end Moment

end ScriptEngine
