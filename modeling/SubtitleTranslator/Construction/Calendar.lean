import SubtitleTranslator.Construction.Quota

namespace SubtitleTranslator.Quotas

/-- The number of days in the first months of the calendar. -/
@[irreducible] def monthStart (index : Nat) : Nat := ((List.range index).map monthLength).sum

/-- A `date` is a valid day of the years 1 to 9999. -/
structure Date where
  year : Nat
  month : Nat
  day : Nat
  year_range : 1 ≤ year ∧ year ≤ 9999
  month_range : 1 ≤ month ∧ month ≤ 12
  day_range : 1 ≤ day ∧ day ≤ daysInMonth year month
  deriving DecidableEq

/-- Months are counted from January of year 1. -/
def Date.monthIndex (date : Date) : Nat := 12 * (date.year - 1) + (date.month - 1)

/-- This number is `toordinal` less one. -/
def Date.dayNumber (date : Date) : Nat := monthStart date.monthIndex + (date.day - 1)

/-- This function finds the month of a day and the days of that month before it. -/
def findDay : Nat → Nat → Nat → Nat × Nat
  | 0, index, rest => (index, rest)
  | fuel + 1, index, rest =>
      if rest < monthLength index then (index, rest)
      else findDay fuel (index + 1) (rest - monthLength index)

/-- The months of the years 1 to 9999. -/
def monthCount : Nat := 12 * 9999

/-- The date with some days of a month before it; it fails after year 9999. -/
def Date.ofMonth (index rest : Nat) : Option Date :=
  if valid : index < monthCount ∧ rest < monthLength index then
    some
      { year := 1 + index / 12
        month := index % 12 + 1
        day := rest + 1
        year_range := by unfold monthCount at valid; omega
        month_range := by omega
        day_range := ⟨by omega, valid.2⟩ }
  else none

/-- This function is `fromordinal`. -/
def Date.ofDayNumber (number : Nat) : Option Date :=
  let (index, rest) := findDay number 0 number
  ofMonth index rest

/-- The first day of the month of a date. -/
def Date.firstOfMonth (date : Date) : Date :=
  { date with day := 1, day_range := ⟨le_rfl, date.day_range.1.trans date.day_range.2⟩ }

@[irreducible] def microsPerDay : Nat := 86400000000

theorem microsPerDay_pos : 0 < microsPerDay := by
  unfold microsPerDay
  decide

theorem utcRange : -(microsPerDay : Int) < 0 ∧ (0 : Int) < microsPerDay := by
  have := microsPerDay_pos
  omega

/-- An aware `datetime`: the local date, the microseconds of its day and the offset from UTC. -/
structure DateTime where
  date : Date
  time : Nat
  offset : Int
  time_lt : time < microsPerDay
  offset_range : -(microsPerDay : Int) < offset ∧ offset < microsPerDay
  deriving DecidableEq

namespace DateTime

/-- The instant of a `datetime` in microseconds since the first instant of year 1 in UTC. -/
def instant (timestamp : DateTime) : Int :=
  microsPerDay * timestamp.date.dayNumber + timestamp.time - timestamp.offset

/-- Aware values compare by their instants. -/
instance : LE DateTime := ⟨fun first second => first.instant ≤ second.instant⟩

instance : LT DateTime := ⟨fun first second => first.instant < second.instant⟩

/-- The addition of a `timedelta` keeps the offset; it fails outside the years 1 to 9999. -/
def add (timestamp : DateTime) (delta : Int) : Option DateTime :=
  let micros := microsPerDay * timestamp.date.dayNumber + timestamp.time + delta
  if 0 ≤ micros then
    (Date.ofDayNumber (micros.toNat / microsPerDay)).map fun date =>
      { timestamp with
        date := date
        time := micros.toNat % microsPerDay
        time_lt := Nat.mod_lt _ microsPerDay_pos }
  else none

def addDays (timestamp : DateTime) (days : Int) : Option DateTime :=
  timestamp.add (microsPerDay * days)

/-- This function is `astimezone(timezone.utc)`. -/
def astimezone (timestamp : DateTime) : Option DateTime :=
  (timestamp.add (-timestamp.offset)).map fun utc =>
    { utc with offset := 0, offset_range := utcRange }

/-- This function is `replace(hour=0, minute=0, second=0, microsecond=0)`. -/
def midnight (timestamp : DateTime) : DateTime :=
  { timestamp with time := 0, time_lt := microsPerDay_pos }

/-- This function is `replace(day=1)`. -/
def firstOfMonth (timestamp : DateTime) : DateTime :=
  { timestamp with date := timestamp.date.firstOfMonth }

/-- Day 0 is a Monday. -/
def weekday (timestamp : DateTime) : Nat := timestamp.date.dayNumber % 7

/-- This function is `calendar_quota_window`; it fails where a date is not representable. -/
def calendarQuotaWindow (period : Period) (timestamp : DateTime) :
    Option (DateTime × DateTime) := do
  let utc ← timestamp.astimezone
  let start := utc.midnight
  match period with
  | .daily =>
      let reset ← start.addDays 1
      return (start, reset)
  | .weekly =>
      let start ← start.addDays (-start.weekday)
      let reset ← start.addDays 7
      return (start, reset)
  | .monthly =>
      let start := start.firstOfMonth
      let reset ← start.addDays 32
      return (start, reset.firstOfMonth)

end DateTime

end SubtitleTranslator.Quotas
