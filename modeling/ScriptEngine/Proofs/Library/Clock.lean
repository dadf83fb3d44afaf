import ScriptEngine.Library.Clock
import ScriptEngine.Proofs.Calendar.Instants
import ScriptEngine.Proofs.Library.Results
import ScriptEngine.Proofs.Number.Integers
import ScriptEngine.Proofs.Value.Contents
import ScriptEngine.Proofs.Value.Entries

/-!
# Instants as hashes

The hash that a time function makes of an instant holds the seven numbers that name it, so that it
is read back as the same instant, and the same hash is made of the numbers again. All of it comes
down to which seven integers `Clock.build` takes: the fields of the instants in the calendar.
-/

namespace ScriptEngine

namespace Clock

/-! ### Seven integers -/

namespace Parts

/-- The fields of an instant as integers. -/
def ofMoment (moment : Moment) : Parts :=
  ⟨moment.date.year, moment.date.month, moment.date.day, moment.hour, moment.minute,
    (moment.second % 60 : Nat), moment.nanosecond⟩

def toList (parts : Parts) : List Int :=
  [parts.year, parts.month, parts.day, parts.hour, parts.minute, parts.second, parts.nanosecond]

theorem toList_injective {parts other : Parts} (h : parts.toList = other.toList) :
    parts = other := by
  obtain ⟨year, month, day, hour, minute, second, nanosecond⟩ := parts
  simp only [toList, List.cons.injEq, and_true] at h
  obtain ⟨rfl, rfl, rfl, rfl, rfl, rfl, rfl⟩ := h
  rfl

end Parts

theorem narrowed_eq_ok_iff {name : String} {number : Int} {count : Nat} :
    narrowed name number = .ok count ↔ number = count ∧ count < 4294967296 := by
  unfold narrowed
  split
  · rw [Except.ok.injEq]
    omega
  · simp only [reduceCtorEq, false_iff]
    omega

/-- What is built out of seven integers is an instant of the calendar, and they are its fields. -/
theorem parts_of_build {parts : Parts} {moment : Moment} (h : build parts = .ok moment) :
    moment.IsInCalendar ∧ parts = .ofMoment moment := by
  obtain ⟨year, month, day, hour, minute, second, nanosecond⟩ := parts
  unfold build at h
  dsimp only at h
  split at h
  · cases h
  obtain ⟨months, hmonth, h⟩ := exists_of_bind_eq_ok h
  obtain ⟨days, hday, h⟩ := exists_of_bind_eq_ok h
  split at h
  · cases h
  obtain ⟨hours, hhour, h⟩ := exists_of_bind_eq_ok h
  obtain ⟨minutes, hminute, h⟩ := exists_of_bind_eq_ok h
  obtain ⟨seconds, hsecond, h⟩ := exists_of_bind_eq_ok h
  obtain ⟨nanoseconds, hnanosecond, h⟩ := exists_of_bind_eq_ok h
  rw [narrowed_eq_ok_iff] at hmonth hday hhour hminute hsecond hnanosecond
  split at h
  · rename_i found hfound
    obtain rfl := Except.ok.inj h
    obtain ⟨hmoment, hfields⟩ := Moment.ofFields?_eq_some_iff.mp hfound
    refine ⟨hmoment, ?_⟩
    simp only [Moment.fields, Moment.Fields.mk.injEq] at hfields
    obtain ⟨rfl, rfl, rfl, rfl, rfl, rfl, rfl⟩ := hfields
    rw [hmonth.1, hday.1, hhour.1, hminute.1, hsecond.1, hnanosecond.1]
    rfl
  · cases h

/-- The fields of an instant are far from the limits of the numbers. -/
theorem bounds_ofMoment {moment : Moment} (h : moment.IsInCalendar) :
    -262143 ≤ moment.date.year ∧ moment.date.year ≤ 262142 ∧ moment.date.month ≤ 12 ∧
      moment.date.day ≤ 31 ∧ moment.hour < 24 ∧ moment.minute < 60 ∧ moment.second % 60 < 60 ∧
      moment.nanosecond < 2000000000 := by
  have hproper : moment.date.IsProper := Date.isProper_ofDayNumber moment.day
  obtain ⟨hhour, hminute, hsecond, hnanosecond, -⟩ :=
    Moment.isValidTime_iff.mp (Moment.isValidTime_fields h)
  exact ⟨h.leastYear_le, h.le_greatestYear, hproper.month_le,
    hproper.day_le.trans (Date.daysInMonth_le _ _), hhour, hminute, hsecond, hnanosecond⟩

theorem build_ofMoment {moment : Moment} (h : moment.IsInCalendar) :
    build (.ofMoment moment) = .ok moment := by
  obtain ⟨hleast, hgreatest, hmonth, hday, hhour, hminute, hsecond, hnanosecond⟩ :=
    bounds_ofMoment h
  have hyear : ¬ (moment.date.year < -2147483648 ∨ 2147483647 < moment.date.year) := by omega
  have hnarrowed (name : String) {count : Nat} (hcount : count < 4294967296) :
      narrowed name count = .ok count := narrowed_eq_ok_iff.mpr ⟨rfl, hcount⟩
  have hdate : (Date.mk moment.date.year moment.date.month moment.date.day).isValid :=
    Moment.isValid_date h
  unfold build Parts.ofMoment
  dsimp only
  rw [if_neg hyear, hnarrowed "month" (by omega), hnarrowed "day" (by omega), ok_bind, ok_bind,
    if_neg (not_not_intro hdate), hnarrowed "hour" (by omega), hnarrowed "minute" (by omega),
    hnarrowed "second" (by omega), hnarrowed "nsec" (by omega), ok_bind, ok_bind, ok_bind, ok_bind]
  have hfields := Moment.ofFields?_fields h
  unfold Moment.fields at hfields
  rw [hfields]
  rfl

/-- The seven integers that are taken are the fields of the instants in the calendar. -/
theorem build_eq_ok_iff {parts : Parts} {moment : Moment} :
    build parts = .ok moment ↔ moment.IsInCalendar ∧ parts = .ofMoment moment := by
  refine ⟨parts_of_build, ?_⟩
  rintro ⟨hmoment, rfl⟩
  exact build_ofMoment hmoment

/-- A day of the calendar and a time of the day. Only the last second of a minute may go on into a
leap second. -/
structure Parts.IsProper (parts : Parts) : Prop where
  year : Date.leastYear ≤ parts.year ∧ parts.year ≤ Date.greatestYear
  month : 1 ≤ parts.month ∧ parts.month ≤ 12
  day : 1 ≤ parts.day ∧ parts.day ≤ Date.daysInMonth parts.year parts.month.toNat
  hour : 0 ≤ parts.hour ∧ parts.hour < 24
  minute : 0 ≤ parts.minute ∧ parts.minute < 60
  second : 0 ≤ parts.second ∧ parts.second < 60
  nanosecond : 0 ≤ parts.nanosecond ∧ parts.nanosecond < 2000000000
  leap : parts.nanosecond < 1000000000 ∨ parts.second = 59

theorem isProper_ofMoment {moment : Moment} (h : moment.IsInCalendar) :
    (Parts.ofMoment moment).IsProper := by
  have hdate : moment.date.IsProper := Date.isProper_ofDayNumber moment.day
  obtain ⟨hhour, hminute, hsecond, hnanosecond, hleap⟩ :=
    Moment.isValidTime_iff.mp (Moment.isValidTime_fields h)
  simp only [Moment.fields, Moment.billion] at hhour hminute hsecond hnanosecond hleap
  refine ⟨⟨h.leastYear_le, h.le_greatestYear⟩, ?_, ?_, ?_, ?_, ?_, ?_, ?_⟩
  · exact ⟨Int.ofNat_le.mpr hdate.month_pos, Int.ofNat_le.mpr hdate.month_le⟩
  · exact ⟨Int.ofNat_le.mpr hdate.day_pos, Int.ofNat_le.mpr hdate.day_le⟩
  all_goals
    simp only [Parts.ofMoment]
    omega

/-- Exactly the days and times that there are can be built. -/
theorem exists_build_iff {parts : Parts} :
    (∃ moment, build parts = .ok moment) ↔ parts.IsProper := by
  constructor
  · rintro ⟨moment, hmoment⟩
    obtain ⟨hcalendar, rfl⟩ := parts_of_build hmoment
    exact isProper_ofMoment hcalendar
  · intro h
    obtain ⟨year, month, day, hour, minute, second, nanosecond⟩ := parts
    obtain ⟨hyear, hmonth, hday, hhour, hminute, hsecond, hnanosecond, hleap⟩ := h
    dsimp only at hyear hmonth hday hhour hminute hsecond hnanosecond hleap
    lift month to Nat using by omega
    lift day to Nat using by omega
    lift hour to Nat using hhour.1
    lift minute to Nat using hminute.1
    lift second to Nat using hsecond.1
    lift nanosecond to Nat using hnanosecond.1
    rw [Int.toNat_natCast] at hday
    have hproper : Date.IsProper ⟨year, month, day⟩ := by constructor <;> dsimp only <;> omega
    have hdate : Date.isValid ⟨year, month, day⟩ := Date.isValid_iff.mpr ⟨hyear, hproper⟩
    have htime : Moment.isValidTime ⟨year, month, day, hour, minute, second, nanosecond⟩ := by
      simp only [Moment.isValidTime_iff, Moment.billion]
      omega
    obtain ⟨moment, hmoment⟩ := Moment.exists_ofFields? hdate htime
    obtain ⟨hcalendar, hfields⟩ := Moment.ofFields?_eq_some_iff.mp hmoment
    refine ⟨moment, build_eq_ok_iff.mpr ⟨hcalendar, ?_⟩⟩
    simp only [Moment.fields, Moment.Fields.mk.injEq] at hfields
    obtain ⟨rfl, rfl, rfl, rfl, rfl, rfl, rfl⟩ := hfields
    rfl

/-! ### Numbers that stand for integers -/

/-- The values stand for the integers, one by one. -/
def Stand (values : List Value) (integers : List Int) : Prop :=
  List.Forall₂ (fun value integer => value.toInteger = .ok integer) values integers

/-- The values are equal, one by one, as scripts see it. -/
def EqualValues (values others : List Value) : Prop :=
  List.Forall₂ (fun value other => value.equals other) values others

/-- The values that an instant has in a hash. -/
def valuesOf (moment : Moment) : List Value :=
  (Parts.ofMoment moment).toList.map Value.ofInt

theorem toInteger_ofInt {integer : Int} (h : integer.natAbs ≤ 2 ^ 53) :
    (Value.ofInt integer).toInteger = .ok integer := by
  rw [Value.ofInt, Value.toInteger, integerOf?_ofInt h]

theorem exists_number_of_toInteger {value : Value} {integer : Int}
    (h : value.toInteger = .ok integer) :
    ∃ number, value = .number number ∧ integerOf? number = some integer := by
  cases value with
  | number number =>
      rw [Value.toInteger] at h
      split at h
      · rename_i found hfound
        exact ⟨number, rfl, hfound.trans (congrArg some (Except.ok.inj h))⟩
      · cases h
  | _ => cases h

/-- All values that stand for a small integer are equal. -/
theorem equals_ofInt {value : Value} {integer : Int} (h : value.toInteger = .ok integer)
    (hsmall : integer.natAbs ≤ 2 ^ 53) : value.equals (.ofInt integer) := by
  obtain ⟨number, rfl, hnumber⟩ := exists_number_of_toInteger h
  exact Rounding.beq_ofInt hnumber hsmall

/-- Equal values stand for the same integer. -/
theorem toInteger_of_equals {value other : Value} {integer : Int} (h : value.equals other)
    (hvalue : value.toInteger = .ok integer) : other.toInteger = .ok integer := by
  obtain ⟨number, rfl, hnumber⟩ := exists_number_of_toInteger hvalue
  cases other with
  | number other =>
      rw [Value.toInteger, ← integerOf?_eq_of_beq h, hnumber]
  | _ => cases h

theorem natAbs_le_of_mem {moment : Moment} (h : moment.IsInCalendar) {integer : Int}
    (hinteger : integer ∈ (Parts.ofMoment moment).toList) : integer.natAbs ≤ 2 ^ 53 := by
  obtain ⟨hleast, hgreatest, hmonth, hday, hhour, hminute, hsecond, hnanosecond⟩ :=
    bounds_ofMoment h
  simp only [Parts.ofMoment, Parts.toList, List.mem_cons, List.not_mem_nil, or_false] at hinteger
  omega

theorem stand_valuesOf {moment : Moment} (h : moment.IsInCalendar) :
    Stand (valuesOf moment) (Parts.ofMoment moment).toList := by
  rw [Stand, valuesOf, List.forall₂_map_left_iff, List.forall₂_same]
  exact fun integer hinteger => toInteger_ofInt (natAbs_le_of_mem h hinteger)

theorem equals_ofInts {values : List Value} {integers : List Int} (h : Stand values integers)
    (hsmall : ∀ integer ∈ integers, integer.natAbs ≤ 2 ^ 53) :
    EqualValues values (integers.map Value.ofInt) := by
  induction h with
  | nil => exact .nil
  | cons hvalue _ ih =>
      obtain ⟨hinteger, hrest⟩ := List.forall_mem_cons.mp hsmall
      exact .cons (equals_ofInt hvalue hinteger) (ih hrest)

/-- Equal values stand for the same integers. -/
theorem eq_of_forall₂_equals {values others : List Value} {integers otherIntegers : List Int}
    (h : Stand values integers) (hothers : Stand others otherIntegers)
    (hequal : EqualValues values others) : integers = otherIntegers := by
  induction hequal generalizing integers otherIntegers with
  | nil =>
      cases h
      cases hothers
      rfl
  | cons hhead _ ih =>
      cases h with
      | cons hvalue hvalues =>
          cases hothers with
          | cons hother hothers =>
              rw [toInteger_of_equals hhead hvalue] at hother
              rw [Except.ok.inj hother, ih hvalues hothers]

/-- Instants of the calendar with equal values are the same. -/
theorem eq_of_equal_valuesOf {moment other : Moment} (h : moment.IsInCalendar)
    (hother : other.IsInCalendar) (hequal : EqualValues (valuesOf moment) (valuesOf other)) :
    moment = other := by
  have hparts : Parts.ofMoment moment = .ofMoment other :=
    Parts.toList_injective (eq_of_forall₂_equals (stand_valuesOf h) (stand_valuesOf hother) hequal)
  have hbuild := build_ofMoment h
  rw [hparts, build_ofMoment hother] at hbuild
  exact (Except.ok.inj hbuild).symm

/-! ### Instants from tables -/

/-- The names of the seven numbers in a hash. -/
def fieldNames : List String :=
  ["year", "month", "day", "hour", "minute", "second", "nsec"]

/-- A table has the values under the names of the seven numbers. -/
def HasFields (table : Table) (values : List Value) : Prop :=
  List.Forall₂ (fun name value => table.find? (.string name) = some value) fieldNames values

theorem field_eq_ok {table : Table} {name : String} {value : Value} {integer : Int}
    (h : table.find? (.string name) = some value) (hvalue : value.toInteger = .ok integer)
    (heap : Heap) (default : Int) : field heap table name default = .ok integer := by
  obtain ⟨number, rfl, hnumber⟩ := exists_number_of_toInteger hvalue
  unfold field
  rw [h]
  dsimp only
  rw [hnumber]

/-- A table with seven numbers describes what is built out of them. -/
theorem ofTable_of_hasFields {table : Table} {values : List Value} {parts : Parts}
    (h : HasFields table values) (hvalues : Stand values parts.toList) (heap : Heap) :
    ofTable heap table = build parts := by
  obtain _ | ⟨hyear, _ | ⟨hmonth, _ | ⟨hday, _ | ⟨hhour, _ | ⟨hminute, _ | ⟨hsecond,
    _ | ⟨hnanosecond, _⟩⟩⟩⟩⟩⟩⟩ := h
  obtain _ | ⟨hyears, _ | ⟨hmonths, _ | ⟨hdays, _ | ⟨hhours, _ | ⟨hminutes, _ | ⟨hseconds,
    _ | ⟨hnanoseconds, _⟩⟩⟩⟩⟩⟩⟩ := hvalues
  rw [ofTable, field_eq_ok hyear hyears, ok_bind, field_eq_ok hmonth hmonths, ok_bind,
    field_eq_ok hday hdays, ok_bind, field_eq_ok hhour hhours, ok_bind,
    field_eq_ok hminute hminutes, ok_bind, field_eq_ok hsecond hseconds, ok_bind,
    field_eq_ok hnanosecond hnanoseconds, ok_bind]

theorem hasFields_entries (moment : Moment) (zone : String) :
    HasFields (.ofList (entries moment zone)) (valuesOf moment) := by
  unfold HasFields fieldNames valuesOf Parts.toList
  simp only [List.map_cons, List.map_nil, List.forall₂_cons, List.forall₂_nil_left_iff, and_true,
    Table.find?_ofList]
  exact ⟨rfl, rfl, rfl, rfl, rfl, rfl, rfl⟩

/-! ### Instants from arguments -/

/-- The integer at one place of the arguments, or a default if there are not so many. -/
def part (arguments : List Value) (index : Nat) (default : Int) : Except RuntimeError Int :=
  if index < arguments.length then argument Value.toInteger "time.from" arguments index
  else .ok default

theorem ofArguments_eq {arguments : List Value}
    (h : ¬ (arguments.length = 4 ∨ arguments.length = 5)) :
    ofArguments arguments = (do
      let year ← part arguments 0 0
      let month ← part arguments 1 1
      let day ← part arguments 2 1
      let hour ← part arguments 3 0
      let minute ← part arguments 4 0
      let second ← part arguments 5 0
      let nanosecond ← part arguments 6 0
      build ⟨year, month, day, hour, minute, second, nanosecond⟩) := by
  unfold ofArguments
  exact if_neg h

/-- What stands for the arguments that are not given: the first month and day, and zeros. -/
def defaults : List Value :=
  [0, 1, 1, 0, 0, 0, 0].map Value.ofInt

/-- Arguments with defaults after them. -/
def padded (arguments : List Value) : List Value :=
  arguments ++ defaults.drop arguments.length

variable {arguments : List Value}

theorem length_padded (h : arguments.length ≤ 7) : (padded arguments).length = 7 := by
  have hdefaults : defaults.length = 7 := rfl
  rw [padded, List.length_append, List.length_drop, hdefaults]
  omega

theorem part_padded (h : arguments.length ≤ 7) {index : Nat} {default : Int} (hindex : index < 7)
    (hdefault : defaults[index]? = some (.ofInt default)) (hsmall : default.natAbs ≤ 2 ^ 53) :
    part (padded arguments) index default = part arguments index default := by
  unfold part
  rw [length_padded h, if_pos hindex]
  by_cases hgiven : index < arguments.length
  · rw [if_pos hgiven, argument, argument, padded, List.getElem?_append_left hgiven]
  · rw [if_neg hgiven, argument_eq_ok_iff]
    refine ⟨.ofInt default, ?_, toInteger_ofInt hsmall⟩
    rw [padded, List.getElem?_append_right (Nat.le_of_not_lt hgiven), List.getElem?_drop,
      Nat.add_sub_cancel' (Nat.le_of_not_lt hgiven), hdefault]

/-- Defaults may be given as well as left out. -/
theorem ofArguments_padded (h : arguments.length ≤ 7)
    (hcount : ¬ (arguments.length = 4 ∨ arguments.length = 5)) :
    ofArguments (padded arguments) = ofArguments arguments := by
  have hpadded := length_padded h
  rw [ofArguments_eq hcount, ofArguments_eq (by omega), part_padded h (by decide) rfl (by decide),
    part_padded h (by decide) rfl (by decide), part_padded h (by decide) rfl (by decide),
    part_padded h (by decide) rfl (by decide), part_padded h (by decide) rfl (by decide),
    part_padded h (by decide) rfl (by decide), part_padded h (by decide) rfl (by decide)]

theorem count_of_ofArguments {moment : Moment} (h : ofArguments arguments = .ok moment) :
    ¬ (arguments.length = 4 ∨ arguments.length = 5) := by
  intro hcount
  unfold ofArguments at h
  rw [if_pos hcount] at h
  cases h

theorem part_eq_toInteger {index : Nat} {value : Value} (h : arguments[index]? = some value)
    {default integer : Int} :
    part arguments index default = .ok integer ↔ value.toInteger = .ok integer := by
  obtain ⟨hindex, -⟩ := List.getElem?_eq_some_iff.mp h
  rw [part, if_pos hindex, argument_eq_ok_iff, h]
  simp

/-- Seven arguments name what is built out of the integers that they stand for. -/
theorem ofArguments_of_stand {parts : Parts} (h : Stand arguments parts.toList) :
    ofArguments arguments = build parts := by
  have hlength : arguments.length = 7 := h.length_eq
  have hcount : ¬ (arguments.length = 4 ∨ arguments.length = 5) := by omega
  obtain _ | ⟨hyear, _ | ⟨hmonth, _ | ⟨hday, _ | ⟨hhour, _ | ⟨hminute, _ | ⟨hsecond,
    _ | ⟨hnanosecond, _ | _⟩⟩⟩⟩⟩⟩⟩ := h
  rw [ofArguments_eq hcount, (part_eq_toInteger rfl).mpr hyear, ok_bind,
    (part_eq_toInteger rfl).mpr hmonth, ok_bind, (part_eq_toInteger rfl).mpr hday, ok_bind,
    (part_eq_toInteger rfl).mpr hhour, ok_bind, (part_eq_toInteger rfl).mpr hminute, ok_bind,
    (part_eq_toInteger rfl).mpr hsecond, ok_bind, (part_eq_toInteger rfl).mpr hnanosecond, ok_bind]

/-- Seven arguments that name something stand for integers. -/
theorem exists_stand_of_ofArguments {moment : Moment} (hlength : arguments.length = 7)
    (h : ofArguments arguments = .ok moment) :
    ∃ parts : Parts, Stand arguments parts.toList ∧ build parts = .ok moment := by
  rw [ofArguments_eq (count_of_ofArguments h)] at h
  obtain ⟨year, hyear, h⟩ := exists_of_bind_eq_ok h
  obtain ⟨month, hmonth, h⟩ := exists_of_bind_eq_ok h
  obtain ⟨day, hday, h⟩ := exists_of_bind_eq_ok h
  obtain ⟨hour, hhour, h⟩ := exists_of_bind_eq_ok h
  obtain ⟨minute, hminute, h⟩ := exists_of_bind_eq_ok h
  obtain ⟨second, hsecond, h⟩ := exists_of_bind_eq_ok h
  obtain ⟨nanosecond, hnanosecond, h⟩ := exists_of_bind_eq_ok h
  refine ⟨⟨year, month, day, hour, minute, second, nanosecond⟩, ?_, h⟩
  match arguments, hlength with
  | [_, _, _, _, _, _, _], _ =>
      exact .cons ((part_eq_toInteger rfl).mp hyear) <| .cons ((part_eq_toInteger rfl).mp hmonth) <|
        .cons ((part_eq_toInteger rfl).mp hday) <| .cons ((part_eq_toInteger rfl).mp hhour) <|
        .cons ((part_eq_toInteger rfl).mp hminute) <|
        .cons ((part_eq_toInteger rfl).mp hsecond) <|
        .cons ((part_eq_toInteger rfl).mp hnanosecond) .nil

end Clock

/-! ### What the time functions give -/

/-- What a time function gives, and the heap with its containers made. -/
def TimeOperation.applied (operation : TimeOperation) (arguments : List Value) (now : Int)
    (heap : Heap) : Except RuntimeError (Value × Heap) :=
  (operation.apply arguments now heap).map heap.realize

namespace Heap

open Clock

/-- A hash that has the values under the names of the seven numbers, and besides them the name of
the zone. -/
def IsTimeHash (heap : Heap) (value : Value) (values : List Value) : Prop :=
  ∃ ref : HashRef, value = .hash ref ∧ HasFields (heap.table ref) values ∧
    (heap.table ref).find? (.string "location") = some (.string "UTC") ∧
    ∀ key, (heap.table ref).contains key →
      key = .string "location" ∨ ∃ name ∈ fieldNames, key = .string name

/-- The functions that take a hash of an instant take this one for the instant. -/
structure ReadsAs (heap : Heap) (value : Value) (moment : Moment) : Prop where
  str (now : Int) : TimeOperation.str.apply [value] now heap = formatted fixedLayout moment
  format (layout : String) (now : Int) :
    TimeOperation.format.apply [.string layout, value] now heap = formatted layout moment
  diffFrom {other : Value} {stop : Moment} (now : Int)
    (hother : momentArgument heap "time.diff" [value, other] 1 = .ok stop) :
    TimeOperation.diff.apply [value, other] now heap = .ok (.hash (elapsedEntries moment stop) [])
  diffTo {other : Value} {start : Moment} (now : Int)
    (hother : momentArgument heap "time.diff" [other, value] 0 = .ok start) :
    TimeOperation.diff.apply [other, value] now heap = .ok (.hash (elapsedEntries start moment) [])

variable {heap : Heap} {value : Value} {values others : List Value} {moment : Moment}

/-- The values of a hash are determined by it. -/
theorem IsTimeHash.unique (h : heap.IsTimeHash value values)
    (hother : heap.IsTimeHash value others) : values = others := by
  obtain ⟨ref, rfl, hvalues, -⟩ := h
  obtain ⟨other, heq, hothers, -⟩ := hother
  cases heq
  refine List.right_unique_forall₂' (fun name value other hvalue hother => ?_) hvalues hothers
  exact Option.some.inj (hvalue.symm.trans hother)

theorem table_realize_hash (heap : Heap) (entries : List (Key × Value)) :
    (heap.realize (.hash entries [])).2.table ⟨heap.hashes.size⟩ = .ofList entries := by
  change (heap.newHash (.ofList (entries ++ []))).2.table ⟨heap.hashes.size⟩ = .ofList entries
  rw [List.append_nil, heap.table_newHash, if_pos rfl]

/-- The hash that is made of an instant. -/
theorem isTimeHash_realize (heap : Heap) (moment : Moment) :
    (heap.realize (.hash (entries moment "UTC") [])).2.IsTimeHash
      (heap.realize (.hash (entries moment "UTC") [])).1 (valuesOf moment) := by
  refine ⟨⟨heap.hashes.size⟩, rfl, ?_⟩
  rw [table_realize_hash]
  refine ⟨hasFields_entries moment "UTC", ?_, fun key hkey => ?_⟩
  · rw [Table.find?_ofList]
    rfl
  · obtain ⟨found, hfound⟩ := Option.isSome_iff_exists.mp hkey
    rw [Table.find?_ofList] at hfound
    have hkeys : (entries moment "UTC").map Prod.fst =
        (fieldNames ++ ["location"]).map Key.string := rfl
    have hkey : key ∈ (entries moment "UTC").map Prod.fst :=
      List.mem_map.mpr ⟨_, Table.mem_of_lastInserted hfound, rfl⟩
    rw [hkeys] at hkey
    obtain ⟨name, hname, rfl⟩ := List.mem_map.mp hkey
    rcases List.mem_append.mp hname with hfield | hlocation
    · exact .inr ⟨name, hfield, rfl⟩
    · exact .inl (congrArg Key.string (List.mem_singleton.mp hlocation))

theorem momentArgument_of_isTimeHash (h : heap.IsTimeHash value (valuesOf moment))
    (hmoment : moment.IsInCalendar) (function : String) {arguments : List Value} {index : Nat}
    (hvalue : arguments[index]? = some value) :
    momentArgument heap function arguments index = .ok moment := by
  obtain ⟨ref, rfl, hvalues, -⟩ := h
  have hargument : argument Value.toHash function arguments index = .ok ref :=
    argument_eq_ok_iff.mpr ⟨.hash ref, hvalue, rfl⟩
  rw [momentArgument, hargument, ok_bind, ofTable_of_hasFields hvalues (stand_valuesOf hmoment),
    build_ofMoment hmoment]

/-- A hash with the fields of an instant is read back as it. -/
theorem readsAs_of_isTimeHash (h : heap.IsTimeHash value (valuesOf moment))
    (hmoment : moment.IsInCalendar) : heap.ReadsAs value moment where
  str now := by
    rw [TimeOperation.apply, momentArgument_of_isTimeHash h hmoment "time.str" rfl, ok_bind]
  format layout now := by
    have hlayout : argument Value.toText "time.format" [.string layout, value] 0 = .ok layout :=
      rfl
    rw [TimeOperation.apply, hlayout, ok_bind,
      momentArgument_of_isTimeHash h hmoment "time.format" rfl, ok_bind]
  diffFrom now hother := by
    rw [TimeOperation.apply, momentArgument_of_isTimeHash h hmoment "time.diff" rfl, ok_bind,
      hother]
    rfl
  diffTo now hother := by
    rw [TimeOperation.apply, hother, ok_bind,
      momentArgument_of_isTimeHash h hmoment "time.diff" rfl]
    rfl

end Heap

namespace TimeOperation

open Clock

variable {now : Int} {heap after : Heap} {value made : Value} {arguments : List Value}

/-- What `time.from_unix` gives is the hash of the instant that is so many seconds after the start
of 1970. -/
theorem exists_of_fromUnix (h : fromUnix.applied [value] now heap = .ok (made, after)) :
    ∃ seconds moment, value.toInteger = .ok seconds ∧ Moment.ofSeconds? seconds = some moment ∧
      heap.realize (.hash (entries moment "UTC") []) = (made, after) := by
  obtain ⟨result, hresult, hrealize⟩ := exists_of_map_eq_ok h
  obtain ⟨seconds, hseconds, hresult⟩ := exists_of_bind_eq_ok hresult
  obtain ⟨_, hvalue, hinteger⟩ := argument_eq_ok_iff.mp hseconds
  obtain rfl := Option.some.inj hvalue
  split at hresult
  · rename_i moment hmoment
    obtain rfl := Except.ok.inj hresult
    exact ⟨seconds, moment, hinteger, hmoment, hrealize⟩
  · cases hresult

theorem applied_fromUnix {seconds : Int} {moment : Moment} (hvalue : value.toInteger = .ok seconds)
    (h : Moment.ofSeconds? seconds = some moment) (now : Int) (heap : Heap) :
    fromUnix.applied [value] now heap = .ok (heap.realize (.hash (entries moment "UTC") [])) := by
  have hseconds : argument Value.toInteger "time.from_unix" [value] 0 = .ok seconds :=
    argument_eq_ok_iff.mpr ⟨value, rfl, hvalue⟩
  rw [applied, TimeOperation.apply, hseconds, ok_bind, h]
  rfl

/-- The seconds that `time.from_unix` takes are those of the years of the calendar. -/
theorem exists_applied_fromUnix_iff {seconds : Int} (hvalue : value.toInteger = .ok seconds)
    (now : Int) (heap : Heap) :
    (∃ made after, fromUnix.applied [value] now heap = .ok (made, after)) ↔
      -8334601228800 ≤ seconds ∧ seconds ≤ 8210266876799 := by
  rw [← Moment.isSome_ofSeconds?_iff, Option.isSome_iff_exists]
  constructor
  · rintro ⟨made, after, hmade⟩
    obtain ⟨found, moment, hfound, hmoment, -⟩ := exists_of_fromUnix hmade
    obtain rfl := Except.ok.inj (hvalue.symm.trans hfound)
    exact ⟨moment, hmoment⟩
  · rintro ⟨moment, hmoment⟩
    exact ⟨_, _, applied_fromUnix hvalue hmoment now heap⟩

theorem exists_of_build (h : build.applied arguments now heap = .ok (made, after)) :
    ∃ moment, ofArguments arguments = .ok moment ∧
      heap.realize (.hash (entries moment "UTC") []) = (made, after) := by
  obtain ⟨result, hresult, hrealize⟩ := exists_of_map_eq_ok h
  obtain ⟨moment, hmoment, hresult⟩ := exists_of_bind_eq_ok hresult
  obtain rfl := Except.ok.inj hresult
  exact ⟨moment, hmoment, hrealize⟩

theorem applied_build {moment : Moment} (h : ofArguments arguments = .ok moment) (now : Int)
    (heap : Heap) :
    build.applied arguments now heap = .ok (heap.realize (.hash (entries moment "UTC") [])) := by
  rw [applied, TimeOperation.apply, h]
  rfl

/-- The seven integers that `time.from` takes are the days and times that there are. -/
theorem exists_applied_build_iff {parts : Parts} (h : Stand arguments parts.toList) (now : Int)
    (heap : Heap) :
    (∃ made after, build.applied arguments now heap = .ok (made, after)) ↔ parts.IsProper := by
  rw [← exists_build_iff, ← ofArguments_of_stand h]
  constructor
  · rintro ⟨made, after, hmade⟩
    obtain ⟨moment, hmoment, -⟩ := exists_of_build hmade
    exact ⟨moment, hmoment⟩
  · rintro ⟨moment, hmoment⟩
    exact ⟨_, _, applied_build hmoment now heap⟩

/-- The values of an instant make its hash again. -/
theorem applied_build_valuesOf {moment : Moment} (h : moment.IsInCalendar) (now : Int)
    (heap : Heap) :
    build.applied (valuesOf moment) now heap =
      .ok (heap.realize (.hash (entries moment "UTC") [])) :=
  applied_build ((ofArguments_of_stand (stand_valuesOf h)).trans (build_ofMoment h)) now heap

end TimeOperation

open Clock TimeOperation in
/-- **Calendar fields come back.** The seconds that `time.from_unix` takes are those of the years of
the calendar. The seven numbers of the hash that it gives make the same hash when they are given to
`time.from`, and different seconds give different numbers. The seven integers that `time.from` takes
are the days and times that there are. The hash that it gives holds just these integers, and the
functions that take it read the instant that they name. Arguments that are left out count as the
first month and day, and as zeros. -/
theorem calendar_fields_return :
    (∀ value now heap (seconds : Int), value.toInteger = .ok seconds →
      ((∃ made after, fromUnix.applied [value] now heap = .ok (made, after)) ↔
        -8334601228800 ≤ seconds ∧ seconds ≤ 8210266876799)) ∧
    (∀ seconds now heap made after,
      fromUnix.applied [seconds] now heap = .ok (made, after) →
        ∃ values, after.IsTimeHash made values ∧ ∀ later other, ∃ copy final,
          build.applied values later other = .ok (copy, final) ∧ final.IsTimeHash copy values) ∧
    (∀ first second now later heap other made copy after final (seconds others : Int) values
      otherValues, first.toInteger = .ok seconds → second.toInteger = .ok others →
      fromUnix.applied [first] now heap = .ok (made, after) → after.IsTimeHash made values →
      fromUnix.applied [second] later other = .ok (copy, final) →
      final.IsTimeHash copy otherValues → seconds ≠ others →
        ¬ EqualValues values otherValues) ∧
    (∀ arguments now heap (parts : Parts), Stand arguments parts.toList →
      ((∃ made after, build.applied arguments now heap = .ok (made, after)) ↔ parts.IsProper)) ∧
    (∀ arguments now heap made after, arguments.length = 7 →
      build.applied arguments now heap = .ok (made, after) →
        ∃ values moment, after.IsTimeHash made values ∧ EqualValues arguments values ∧
          ofArguments arguments = .ok moment ∧ after.ReadsAs made moment) ∧
    ∀ arguments now heap, arguments.length ≤ 7 →
      ¬ (arguments.length = 4 ∨ arguments.length = 5) →
        build.applied arguments now heap = build.applied (padded arguments) now heap := by
  refine ⟨fun value now heap seconds hvalue => exists_applied_fromUnix_iff hvalue now heap,
    fun seconds now heap made after h => ?_, ?_,
    fun arguments now heap parts h => exists_applied_build_iff h now heap, ?_, ?_⟩
  · obtain ⟨_, moment, -, hmoment, hrealize⟩ := exists_of_fromUnix h
    obtain ⟨hcalendar, -⟩ := Moment.isInCalendar_of_ofSeconds? hmoment
    have hmade := heap.isTimeHash_realize moment
    rw [hrealize] at hmade
    exact ⟨valuesOf moment, hmade, fun later other =>
      ⟨_, _, applied_build_valuesOf hcalendar later other, other.isTimeHash_realize moment⟩⟩
  · intro first second now later heap other made copy after final seconds others values otherValues
      hfirst hsecond hmade hvalues hcopy hothers hne hequal
    obtain ⟨_, moment, hseconds, hmoment, hrealize⟩ := exists_of_fromUnix hmade
    obtain ⟨_, instant, hinstants, hinstant, hrealizeCopy⟩ := exists_of_fromUnix hcopy
    obtain rfl := Except.ok.inj (hfirst.symm.trans hseconds)
    obtain rfl := Except.ok.inj (hsecond.symm.trans hinstants)
    obtain ⟨hcalendar, rfl⟩ := Moment.isInCalendar_of_ofSeconds? hmoment
    obtain ⟨hcopyCalendar, rfl⟩ := Moment.isInCalendar_of_ofSeconds? hinstant
    have hmoments := heap.isTimeHash_realize moment
    have hcopies := other.isTimeHash_realize instant
    rw [hrealize] at hmoments
    rw [hrealizeCopy] at hcopies
    rw [hvalues.unique hmoments, hothers.unique hcopies] at hequal
    obtain rfl := eq_of_equal_valuesOf hcalendar hcopyCalendar hequal
    exact hne rfl
  · intro arguments now heap made after hlength h
    obtain ⟨moment, harguments, hrealize⟩ := exists_of_build h
    obtain ⟨parts, hstand, hbuild⟩ := exists_stand_of_ofArguments hlength harguments
    obtain ⟨hmoment, rfl⟩ := build_eq_ok_iff.mp hbuild
    have hmade := heap.isTimeHash_realize moment
    rw [hrealize] at hmade
    exact ⟨valuesOf moment, moment, hmade,
      equals_ofInts hstand fun integer hinteger => natAbs_le_of_mem hmoment hinteger, harguments,
      Heap.readsAs_of_isTimeHash hmade hmoment⟩
  · intro arguments now heap hlength hcount
    rw [applied, applied, TimeOperation.apply, TimeOperation.apply,
      ofArguments_padded hlength hcount]

open Clock TimeOperation in
/-- The last second before 1970, and a leap second after the end of a leap day. -/
theorem calendar_fields_return_leapDay :
    (∃ made after values copy final,
      fromUnix.applied [.ofInt (-1)] 0 .empty = .ok (made, after) ∧
      after.IsTimeHash made values ∧
      build.applied values 0 after = .ok (copy, final) ∧ final.IsTimeHash copy values ∧
      ¬ EqualValues values (valuesOf ⟨0, 0, 0⟩)) ∧
    ∃ made after values moment,
      build.applied ([2024, 2, 29, 23, 59, 59, 1500000000].map Value.ofInt) 0 .empty =
        .ok (made, after) ∧
      after.IsTimeHash made values ∧
      EqualValues ([2024, 2, 29, 23, 59, 59, 1500000000].map Value.ofInt) values ∧
      moment = ⟨19782, 86399, 1500000000⟩ ∧ after.ReadsAs made moment := by
  obtain ⟨-, hreturn, hdiffer, -, hhold, -⟩ := calendar_fields_return
  constructor
  · have hbefore : (Value.ofInt (-1)).toInteger = .ok (-1) := toInteger_ofInt (by decide)
    have hstart : (Value.ofInt 0).toInteger = .ok 0 := toInteger_ofInt (by decide)
    have hlast : Moment.ofSeconds? (-1) = some ⟨-1, 86399, 0⟩ := rfl
    have hfirst : Moment.ofSeconds? 0 = some ⟨0, 0, 0⟩ := rfl
    have hmade := applied_fromUnix hbefore hlast 0 .empty
    have hzero := applied_fromUnix hstart hfirst 0 .empty
    obtain ⟨values, hvalues, hbuild⟩ := hreturn _ _ _ _ _ hmade
    obtain ⟨copy, final, hcopy, hfinal⟩ := hbuild 0 _
    refine ⟨_, _, values, copy, final, hmade, hvalues, hcopy, hfinal, ?_⟩
    exact hdiffer _ _ _ _ _ _ _ _ _ _ _ _ _ _ hbefore hstart hmade hvalues hzero
      (Heap.isTimeHash_realize _ _) (by decide)
  · have hbuild : Clock.build ⟨2024, 2, 29, 23, 59, 59, 1500000000⟩ =
        .ok ⟨19782, 86399, 1500000000⟩ := rfl
    have hstand := stand_valuesOf (parts_of_build hbuild).1
    have hnamed := (ofArguments_of_stand hstand).trans hbuild
    have hmade := applied_build hnamed 0 .empty
    obtain ⟨values, moment, hvalues, hequal, hmoment, hreads⟩ := hhold _ _ _ _ _ rfl hmade
    refine ⟨_, _, values, moment, hmade, hvalues, hequal, ?_, hreads⟩
    exact Except.ok.inj (hmoment.symm.trans hnamed)

end ScriptEngine
