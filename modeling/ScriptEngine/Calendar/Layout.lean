import ScriptEngine.Calendar.Moment

namespace ScriptEngine

namespace Calendar

/-- How a number is filled up to its least width. -/
inductive Padding
  | none
  | zero
  | space
deriving DecidableEq, Repr

def monthNames : List String :=
  ["January", "February", "March", "April", "May", "June", "July", "August", "September", "October",
    "November", "December"]

def weekdayNames : List String :=
  ["Monday", "Tuesday", "Wednesday", "Thursday", "Friday", "Saturday", "Sunday"]

def monthName (date : Date) : String :=
  monthNames[date.month - 1]?.getD ""

def weekdayName (date : Date) : String :=
  weekdayNames[date.weekday]?.getD ""

def abbreviated (name : String) : String :=
  String.ofList (name.toList.take 3)

def filled (character : Char) (width : Nat) (text : String) : String :=
  String.ofList (List.replicate (width - text.length) character) ++ text

/-- A number up to 99 in two places. -/
def twoDigits (padding : Padding) (number : Nat) : String :=
  match padding with
  | .none => toString number
  | .zero => filled '0' 2 (toString number)
  | .space => filled ' ' 2 (toString number)

/-- A number in at least `width` places. The sign comes before the zeros but after the blanks. -/
def padded (padding : Padding) (width : Nat) (number : Int) (signed : Bool) : String :=
  let sign := if number < 0 then "-" else if signed then "+" else ""
  let digits := toString number.natAbs
  let width := if signed then width + 1 else width
  match padding with
  | .none => sign ++ digits
  | .zero => sign ++ filled '0' (width - sign.length) digits
  | .space => filled ' ' width (sign ++ digits)

/-- A year in at least four places, with a sign if it is negative or has more than four digits. -/
def yearText (padding : Padding) (year : Int) : String :=
  padded padding 4 year (year < 0 || 9999 < year)

/-- A part of a layout with a number in it, and the padding that it has of its own. -/
inductive NumericPart
  | year
  | century
  | yearOfCentury
  | weekYear
  | weekYearOfCentury
  | quarter
  | month
  | day
  | weekFromSunday
  | weekFromMonday
  | week
  | weekdayFromSunday
  | weekdayFromMonday
  | dayOfYear
  | hour
  | halfDayHour
  | minute
  | second
  | nanosecond
  | timestamp
deriving DecidableEq, Repr

/-- One piece of a layout. -/
inductive Part
  | literal (text : String)
  | numeric (part : NumericPart) (padding : Padding)
  | longMonth
  | shortMonth
  | longWeekday
  | shortWeekday
  | lowerHalfDay
  | upperHalfDay
  | fraction
  | fixedFraction (places : Nat) (pointed : Bool)
  | zoneName
  | zoneOffset (text : String)
  | timestampText
deriving DecidableEq, Repr

def hourOfHalfDay (hour : Nat) : Nat :=
  if hour % 12 = 0 then 12 else hour % 12

/-- The century as the two characters that a single byte gives it. -/
def centuryText (padding : Padding) (year : Int) : String :=
  let byte := (year / 100 % 256).toNat
  let tens := match byte / 10, padding with
    | 0, .none => ""
    | 0, .space => " "
    | tens, _ => (Char.ofNat ('0'.toNat + tens)).toString
  tens ++ toString (byte % 10)

def renderNumeric (moment : Moment) (padding : Padding) : NumericPart → String
  | .year => yearText padding moment.date.year
  | .century => centuryText padding moment.date.year
  | .yearOfCentury => twoDigits padding (moment.date.year % 100).toNat
  | .weekYear => yearText padding moment.date.weekAndYear.2
  | .weekYearOfCentury => twoDigits padding (moment.date.weekAndYear.2 % 100).toNat
  | .quarter => toString ((moment.date.month - 1) / 3 + 1)
  | .month => twoDigits padding moment.date.month
  | .day => twoDigits padding moment.date.day
  | .weekFromSunday => twoDigits padding (moment.date.weekFrom 6)
  | .weekFromMonday => twoDigits padding (moment.date.weekFrom 0)
  | .week => twoDigits padding moment.date.weekAndYear.1
  | .weekdayFromSunday => toString ((moment.date.weekday + 1) % 7)
  | .weekdayFromMonday => toString (moment.date.weekday + 1)
  | .dayOfYear => padded padding 3 moment.date.ordinal false
  | .hour => twoDigits padding moment.hour
  | .halfDayHour => twoDigits padding (hourOfHalfDay moment.hour)
  | .minute => twoDigits padding moment.minute
  | .second => twoDigits padding (moment.second % 60 + moment.nanosecond / Moment.billion)
  | .nanosecond => padded padding 9 (moment.nanosecond % Moment.billion : Nat) false
  | .timestamp => padded padding 9 moment.timestamp false

/-- The fraction of the second in three, six or nine places, whichever are enough, or nothing if
there is none. -/
def fractionText (moment : Moment) : String :=
  let nanosecond := moment.nanosecond % Moment.billion
  if nanosecond = 0 then ""
  else if nanosecond % 1000000 = 0 then "." ++ filled '0' 3 (toString (nanosecond / 1000000))
  else if nanosecond % 1000 = 0 then "." ++ filled '0' 6 (toString (nanosecond / 1000))
  else "." ++ filled '0' 9 (toString nanosecond)

def fixedFractionText (moment : Moment) (places : Nat) : String :=
  filled '0' places
    (toString (moment.nanosecond % Moment.billion / Nat.pow 10 (9 - places)))

/-- The instant with a `T` between date and time, and the offset at the end. -/
def timestampText (moment : Moment) : String :=
  let number := renderNumeric moment .zero
  number .year ++ "-" ++ number .month ++ "-" ++ number .day ++ "T" ++ number .hour ++ ":" ++
    number .minute ++ ":" ++ number .second ++ fractionText moment ++ "+00:00"

def renderPart (moment : Moment) : Part → String
  | .literal text => text
  | .numeric part padding => renderNumeric moment padding part
  | .longMonth => monthName moment.date
  | .shortMonth => abbreviated (monthName moment.date)
  | .longWeekday => weekdayName moment.date
  | .shortWeekday => abbreviated (weekdayName moment.date)
  | .lowerHalfDay => if moment.hour < 12 then "am" else "pm"
  | .upperHalfDay => if moment.hour < 12 then "AM" else "PM"
  | .fraction => fractionText moment
  | .fixedFraction places pointed =>
    (if pointed then "." else "") ++ fixedFractionText moment places
  | .zoneName => "UTC"
  | .zoneOffset text => text
  | .timestampText => timestampText moment

def clockParts : List Part :=
  [.numeric .hour .zero, .literal ":", .numeric .minute .zero, .literal ":", .numeric .second .zero]

def shortDateParts : List Part :=
  [.numeric .month .zero, .literal "/", .numeric .day .zero, .literal "/",
    .numeric .yearOfCentury .zero]

/-- What a letter after the percent sign stands for. -/
def partsOf : Char → Option (List Part)
  | 'A' => some [.longWeekday]
  | 'B' => some [.longMonth]
  | 'C' => some [.numeric .century .zero]
  | 'D' => some shortDateParts
  | 'F' => some [.numeric .year .zero, .literal "-", .numeric .month .zero, .literal "-",
      .numeric .day .zero]
  | 'G' => some [.numeric .weekYear .zero]
  | 'H' => some [.numeric .hour .zero]
  | 'I' => some [.numeric .halfDayHour .zero]
  | 'M' => some [.numeric .minute .zero]
  | 'P' => some [.lowerHalfDay]
  | 'R' => some [.numeric .hour .zero, .literal ":", .numeric .minute .zero]
  | 'S' => some [.numeric .second .zero]
  | 'T' => some clockParts
  | 'U' => some [.numeric .weekFromSunday .zero]
  | 'V' => some [.numeric .week .zero]
  | 'W' => some [.numeric .weekFromMonday .zero]
  | 'X' => some clockParts
  | 'Y' => some [.numeric .year .zero]
  | 'Z' => some [.zoneName]
  | 'a' => some [.shortWeekday]
  | 'b' => some [.shortMonth]
  | 'c' => some ([.shortWeekday, .literal " ", .shortMonth, .literal " ", .numeric .day .space,
      .literal " "] ++ clockParts ++ [.literal " ", .numeric .year .zero])
  | 'd' => some [.numeric .day .zero]
  | 'e' => some [.numeric .day .space]
  | 'f' => some [.numeric .nanosecond .zero]
  | 'g' => some [.numeric .weekYearOfCentury .zero]
  | 'h' => some [.shortMonth]
  | 'j' => some [.numeric .dayOfYear .zero]
  | 'k' => some [.numeric .hour .space]
  | 'l' => some [.numeric .halfDayHour .space]
  | 'm' => some [.numeric .month .zero]
  | 'n' => some [.literal "\n"]
  | 'p' => some [.upperHalfDay]
  | 'q' => some [.numeric .quarter .none]
  | 'r' => some [.numeric .halfDayHour .zero, .literal ":", .numeric .minute .zero, .literal ":",
      .numeric .second .zero, .literal " ", .upperHalfDay]
  | 's' => some [.numeric .timestamp .none]
  | 't' => some [.literal "\t"]
  | 'u' => some [.numeric .weekdayFromMonday .none]
  | 'v' => some [.numeric .day .space, .literal "-", .shortMonth, .literal "-",
      .numeric .year .zero]
  | 'w' => some [.numeric .weekdayFromSunday .none]
  | 'x' => some shortDateParts
  | 'y' => some [.numeric .yearOfCentury .zero]
  | 'z' => some [.zoneOffset "+0000"]
  | '+' => some [.timestampText]
  | '%' => some [.literal "%"]
  | _ => none

def paddingOf : Char → Option Padding
  | '-' => some .none
  | '_' => some .space
  | '0' => some .zero
  | _ => none

/-- The parts of a directive after its percent sign, and what follows the directive. A padding may
stand before a letter for a single number only. -/
def directive : List Char → Option (List Part × List Char)
  | ':' :: ':' :: ':' :: 'z' :: rest => some ([.zoneOffset "+00"], rest)
  | ':' :: ':' :: 'z' :: rest => some ([.zoneOffset "+00:00:00"], rest)
  | ':' :: 'z' :: rest => some ([.zoneOffset "+00:00"], rest)
  | '.' :: 'f' :: rest => some ([.fraction], rest)
  | '.' :: '3' :: 'f' :: rest => some ([.fixedFraction 3 true], rest)
  | '.' :: '6' :: 'f' :: rest => some ([.fixedFraction 6 true], rest)
  | '.' :: '9' :: 'f' :: rest => some ([.fixedFraction 9 true], rest)
  | '3' :: 'f' :: rest => some ([.fixedFraction 3 false], rest)
  | '6' :: 'f' :: rest => some ([.fixedFraction 6 false], rest)
  | '9' :: 'f' :: rest => some ([.fixedFraction 9 false], rest)
  | mark :: rest =>
    match paddingOf mark with
    | none => (partsOf mark).map fun parts => (parts, rest)
    | some padding =>
      match rest with
      | [] => none
      | letter :: rest =>
        match partsOf letter with
        | some [.numeric part _] => some ([.numeric part padding], rest)
        | _ => none
  | [] => none

theorem length_of_directive {text rest : List Char} {parts : List Part}
    (h : directive text = some (parts, rest)) : rest.length < text.length := by
  unfold directive at h
  split at h
  case h_11 mark tail _ _ _ _ _ _ _ _ _ _ =>
    split at h
    · obtain ⟨_, _, heq⟩ := Option.map_eq_some_iff.mp h
      simp_all
    · cases tail with
      | nil => simp at h
      | cons letter tail =>
        simp only at h
        split at h
        · simp only [Option.some.injEq, Prod.mk.injEq] at h
          simp only [← h.2, List.length_cons]
          omega
        · simp at h
  all_goals
    simp only [Option.some.injEq, Prod.mk.injEq, reduceCtorEq] at h
  all_goals
    simp only [← h.2, List.length_cons]
    omega

/-- The parts of a whole layout, unless it holds a directive that does not exist. -/
def layoutParts : List Char → Option (List Part)
  | [] => some []
  | character :: rest =>
    if character = '%' then
      match _hdirective : directive rest with
      | none => none
      | some (parts, after) => (layoutParts after).map fun following => parts ++ following
    else
      (layoutParts rest).map fun following => .literal character.toString :: following
termination_by text => text.length
decreasing_by
  · have := length_of_directive _hdirective
    simp only [List.length_cons]
    omega
  · simp

/-- An instant in a layout. -/
def format? (layout : String) (moment : Moment) : Option String :=
  (layoutParts layout.toList).map fun parts => String.join (parts.map (renderPart moment))

end Calendar

end ScriptEngine
