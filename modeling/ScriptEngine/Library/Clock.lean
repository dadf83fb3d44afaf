import ScriptEngine.Calendar.Layout
import ScriptEngine.Execution.Arguments
import ScriptEngine.Library.Result
import ScriptEngine.Number.Arithmetic
import ScriptEngine.Text.Quoted

namespace ScriptEngine

namespace Clock

/-- The fields of an instant, with the name of the zone that they are given in. -/
def entries (moment : Moment) (zone : String) : List (Key × Value) :=
  let fields := moment.fields
  [(.string "year", .ofInt fields.year), (.string "month", .ofNat fields.month),
    (.string "day", .ofNat fields.day), (.string "hour", .ofNat fields.hour),
    (.string "minute", .ofNat fields.minute), (.string "second", .ofNat fields.second),
    (.string "nsec", .ofNat fields.nanosecond), (.string "location", .string zone)]

/-- The seven numbers that name an instant, before any of them is checked. -/
structure Parts where
  year : Int
  month : Int
  day : Int
  hour : Int
  minute : Int
  second : Int
  nanosecond : Int
deriving DecidableEq, Repr

/-- A number in at least `width` places, the sign before the zeros. -/
def zeroFilled (width : Nat) (number : Int) : String :=
  Calendar.padded .zero width number false

def invalidDate (parts : Parts) : RuntimeError :=
  let pair := zeroFilled 2
  let date := s!"{zeroFilled 4 parts.year}-{pair parts.month}-{pair parts.day}"
  let time := s!"{pair parts.hour}:{pair parts.minute}:{pair parts.second}"
  .host s!"time: {date} {time} is not a valid date"

def outOfRange (field : String) (number : Int) : RuntimeError :=
  .host s!"time: {field} {number} is out of range"

/-- A field of an instant as an unsigned 32-bit number. -/
def narrowed (field : String) (number : Int) : Except RuntimeError Nat :=
  if 0 ≤ number ∧ number < 4294967296 then .ok number.toNat else .error (outOfRange field number)

/-- The instant that seven numbers name. The date is checked before the time is looked at. -/
def build (parts : Parts) : Except RuntimeError Moment := do
  if parts.year < -2147483648 ∨ 2147483647 < parts.year then
    throw (outOfRange "year" parts.year)
  let month ← narrowed "month" parts.month
  let day ← narrowed "day" parts.day
  if ¬ (Date.mk parts.year month day).isValid then
    throw (invalidDate parts)
  let hour ← narrowed "hour" parts.hour
  let minute ← narrowed "minute" parts.minute
  let second ← narrowed "second" parts.second
  let nanosecond ← narrowed "nsec" parts.nanosecond
  match Moment.ofFields? ⟨parts.year, month, day, hour, minute, second, nanosecond⟩ with
  | some moment => return moment
  | none => throw (invalidDate parts)

/-- A field of an instant that is given as a hash. A missing one has a default. -/
def field (heap : Heap) (table : Table) (name : String) (default : Int) :
    Except RuntimeError Int :=
  let refused (value : Value) : Except RuntimeError Int :=
    .error (.typeError s!"time: field {name} must be an integer, found {heap.print value}")
  match table.find? (.string name) with
  | none => .ok default
  | some .nil => .ok default
  | some (.number number) =>
    match integerOf? number with
    | some integer => .ok integer
    | none => refused (.number number)
  | some other => refused other

/-- The instant that a hash describes. -/
def ofTable (heap : Heap) (table : Table) : Except RuntimeError Moment := do
  let year ← field heap table "year" 0
  let month ← field heap table "month" 1
  let day ← field heap table "day" 1
  let hour ← field heap table "hour" 0
  let minute ← field heap table "minute" 0
  let second ← field heap table "second" 0
  let nanosecond ← field heap table "nsec" 0
  build ⟨year, month, day, hour, minute, second, nanosecond⟩

def momentArgument (heap : Heap) (function : String) (arguments : List Value) (index : Nat) :
    Except RuntimeError Moment := do
  let ref ← argument Value.toHash function arguments index
  ofTable heap (heap.table ref)

/-- The instant that one, two, three, six or seven arguments name. -/
def ofArguments (arguments : List Value) : Except RuntimeError Moment := do
  let count := arguments.length
  if count = 4 ∨ count = 5 then
    throw (.arityMismatch "time.from: expected 1, 2, 3, 6 or 7 arguments")
  let part (index : Nat) (default : Int) : Except RuntimeError Int :=
    if index < count then argument Value.toInteger "time.from" arguments index else .ok default
  let year ← part 0 0
  let month ← part 1 1
  let day ← part 2 1
  let hour ← part 3 0
  let minute ← part 4 0
  let second ← part 5 0
  let nanosecond ← part 6 0
  build ⟨year, month, day, hour, minute, second, nanosecond⟩

/-- The time between two instants in several units. Nanoseconds that do not fit 64 bits are counted
in whole milliseconds. -/
def elapsedEntries (start stop : Moment) : List (Key × Value) :=
  let nanoseconds := Moment.nanosecondsBetween start stop
  let milliseconds := Float.ofInt (Int.tdiv nanoseconds 1000000)
  let fits := ExactNumber.smallestInt64 ≤ nanoseconds ∧ nanoseconds ≤ ExactNumber.largestInt64
  let exact := if fits then Float.ofInt nanoseconds else milliseconds * 1000000
  let whole (unit : Float) : Value := .number (.ofFloat (Arithmetic.truncated (exact / unit)))
  [(.string "hours", whole 3600000000000), (.string "minutes", whole 60000000000),
    (.string "seconds", whole 1000000000), (.string "mills", .number (.ofFloat milliseconds)),
    (.string "nsec", .number (.ofFloat exact))]

/-- The layout that `time.str` writes. -/
def fixedLayout : String := "%Y-%m-%d %H:%M:%S%.f %z"

def formatted (layout : String) (moment : Moment) : Except RuntimeError LibraryResult :=
  match Calendar.format? layout moment with
  | some text => .ok (.value (.string text))
  | none => .error (.host s!"time.format: invalid layout {quoted layout}")

end Clock

/-- Applies a time function at the instant `now`, in nanoseconds since 1970. -/
def TimeOperation.apply (operation : TimeOperation) (arguments : List Value) (now : Int)
    (heap : Heap) : Except RuntimeError LibraryResult :=
  match operation with
  | TimeOperation.now => return .hash (Clock.entries (.ofNanoseconds now) "Local") []
  | unix => return .value (.ofInt (Moment.ofNanoseconds now).timestamp)
  | fromUnix => do
    let seconds ← argument Value.toInteger "time.from_unix" arguments 0
    match Moment.ofSeconds? seconds with
    | some moment => return .hash (Clock.entries moment "UTC") []
    | none => throw (.host s!"time.from_unix: {seconds} is out of range")
  | build => do
    return .hash (Clock.entries (← Clock.ofArguments arguments) "UTC") []
  | diff => do
    let start ← Clock.momentArgument heap "time.diff" arguments 0
    let stop ← Clock.momentArgument heap "time.diff" arguments 1
    return .hash (Clock.elapsedEntries start stop) []
  | format => do
    let layout ← argument Value.toText "time.format" arguments 0
    let moment ← Clock.momentArgument heap "time.format" arguments 1
    Clock.formatted layout moment
  | str => do
    let moment ← Clock.momentArgument heap "time.str" arguments 0
    Clock.formatted Clock.fixedLayout moment
  | sleep => do
    let _ ← argument Value.toInteger "time.sleep" arguments 0
    return .value .nil

namespace Clock

/-- How many nanoseconds a time function takes. Only a pause of a positive length takes any. -/
def duration (operation : TimeOperation) (arguments : List Value) : Int :=
  match operation, argument Value.toInteger "time.sleep" arguments 0 with
  | .sleep, .ok milliseconds => 1000000 * max 0 milliseconds
  | _, _ => 0

end Clock

end ScriptEngine
