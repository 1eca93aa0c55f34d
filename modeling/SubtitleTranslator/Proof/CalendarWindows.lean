import SubtitleTranslator.Proof.Calendar

namespace SubtitleTranslator.Quotas

namespace Date

theorem dayNumber_low (date : Date) : monthStart date.monthIndex ≤ date.dayNumber :=
  Nat.le_add_right _ _

theorem dayNumber_high (date : Date) : date.dayNumber < monthStart (date.monthIndex + 1) := by
  have length : monthLength date.monthIndex = daysInMonth date.year date.month := by
    have years := date.year_range
    have months := date.month_range
    unfold monthLength monthIndex
    congr 1 <;> omega
  have days := date.day_range
  rw [monthStart_succ, length, dayNumber]
  omega

theorem monthIndex_lt (date : Date) : date.monthIndex < monthCount := by
  have years := date.year_range
  have months := date.month_range
  unfold monthIndex monthCount
  omega

theorem ofMonth_eq_some {index rest : Nat} {date : Date} :
    ofMonth index rest = some date ↔
      date.monthIndex = index ∧ date.day = rest + 1 ∧ rest < monthLength index := by
  have years := date.year_range
  have months := date.month_range
  have days := date.day_range
  constructor
  · intro made
    unfold ofMonth at made
    split at made
    · rename_i valid
      cases made
      refine ⟨?_, rfl, valid.2⟩
      unfold monthIndex
      dsimp only
      omega
    · cases made
  · rintro ⟨rfl, day, within⟩
    unfold ofMonth
    rw [dif_pos ⟨date.monthIndex_lt, within⟩, Option.some.injEq]
    obtain ⟨year, month, dayOfMonth, _, _, _⟩ := date
    rw [mk.injEq]
    unfold monthIndex
    dsimp only at *
    omega

theorem ofDayNumber_eq_ofMonth (number : Nat) :
    ∃ index rest, ofDayNumber number = ofMonth index rest ∧ rest < monthLength index ∧
      monthStart index + rest = number := by
  obtain ⟨within, total⟩ := findDay_spec number 0 number le_rfl
  rw [monthStart_zero, Nat.zero_add] at total
  exact ⟨_, _, rfl, within, total⟩

/-- The number of a day determines the date. -/
theorem ofDayNumber_eq_some {number : Nat} {date : Date} :
    ofDayNumber number = some date ↔ date.dayNumber = number := by
  obtain ⟨index, rest, made, within, total⟩ := ofDayNumber_eq_ofMonth number
  have days := date.day_range
  rw [made, ofMonth_eq_some]
  constructor
  · rintro ⟨rfl, day, -⟩
    rw [dayNumber, day]
    exact total
  · intro same
    have low := date.dayNumber_low
    have high := date.dayNumber_high
    have month : date.monthIndex = index := by
      apply month_unique low high
      · omega
      · rw [monthStart_succ]
        omega
    refine ⟨month, ?_, within⟩
    rw [dayNumber, month] at same
    omega

theorem exists_ofDayNumber {number : Nat} (early : number < monthStart monthCount) :
    ∃ date, ofDayNumber number = some date := by
  obtain ⟨index, rest, made, within, total⟩ := ofDayNumber_eq_ofMonth number
  have valid : index < monthCount := by
    by_contra late
    have := monthStart_mono (Nat.le_of_not_lt late)
    omega
  rw [made]
  unfold ofMonth
  rw [dif_pos ⟨valid, within⟩]
  exact ⟨_, rfl⟩

theorem ofDayNumber_dayNumber (date : Date) : ofDayNumber date.dayNumber = some date :=
  ofDayNumber_eq_some.mpr rfl

@[simp] theorem firstOfMonth_dayNumber (date : Date) :
    date.firstOfMonth.dayNumber = monthStart date.monthIndex := rfl

/-- The first day of the month starts the monthly period. -/
theorem ofDayNumber_monthly (date : Date) :
    ofDayNumber (calendarDays .monthly date.dayNumber).1 = some date.firstOfMonth := by
  rw [calendarDays_monthly date.dayNumber_low date.dayNumber_high, ofDayNumber_eq_some]
  rfl

theorem dayNumber_lt (date : Date) : date.dayNumber < monthStart monthCount :=
  date.dayNumber_high.trans_le (monthStart_mono date.monthIndex_lt)

theorem monthIndex_eq {date : Date} {index : Nat} (low : monthStart index ≤ date.dayNumber)
    (high : date.dayNumber < monthStart (index + 1)) : date.monthIndex = index :=
  month_unique date.dayNumber_low date.dayNumber_high low high

/-- A day is 32 days after the start of a month only in the next month. -/
theorem ofDayNumber_nextMonth (index : Nat) :
    (ofDayNumber (monthStart index + 32)).map firstOfMonth = ofDayNumber (monthStart (index + 1)) := by
  have bounds := monthLength_bounds index
  have nextBounds := monthLength_bounds (index + 1)
  have next := monthStart_succ index
  have afterNext := monthStart_succ (index + 1)
  cases later : ofDayNumber (monthStart index + 32) with
  | some date =>
      have number := ofDayNumber_eq_some.mp later
      have month : date.monthIndex = index + 1 := monthIndex_eq (by omega) (by omega)
      rw [Option.map_some, eq_comm, ofDayNumber_eq_some, firstOfMonth_dayNumber, month]
  | none =>
      cases first : ofDayNumber (monthStart (index + 1)) with
      | none => rfl
      | some date =>
          have number := ofDayNumber_eq_some.mp first
          have month : date.monthIndex = index + 1 := monthIndex_eq (by omega) (by omega)
          have representable : monthStart (index + 1 + 1) ≤ monthStart monthCount :=
            monthStart_mono (month ▸ date.monthIndex_lt)
          obtain ⟨other, found⟩ :=
            @exists_ofDayNumber (monthStart index + 32) (by omega)
          rw [later] at found
          cases found

/-- The instant at which a day starts in UTC. -/
def midnightUtc (date : Date) : DateTime where
  date := date
  time := 0
  offset := 0
  time_lt := microsPerDay_pos
  offset_range := utcRange

@[simp] theorem midnightUtc_instant (date : Date) :
    date.midnightUtc.instant = microsPerDay * date.dayNumber := by
  simp [midnightUtc, DateTime.instant]

end Date

namespace DateTime

/-- The addition moves the instant and keeps the offset. -/
theorem add_spec {timestamp later : DateTime} {delta : Int}
    (added : timestamp.add delta = some later) :
    later.instant = timestamp.instant + delta ∧ later.offset = timestamp.offset := by
  unfold add at added
  dsimp only at added
  split at added
  · rename_i nonneg
    obtain ⟨date, found, rfl⟩ := Option.map_eq_some_iff.mp added
    have number := Date.ofDayNumber_eq_some.mp found
    refine ⟨?_, rfl⟩
    unfold instant
    dsimp only
    unfold microsPerDay at *
    omega
  · cases added

theorem exists_add {timestamp : DateTime} {delta : Int}
    (nonneg : 0 ≤ timestamp.instant + timestamp.offset + delta)
    (early : timestamp.instant + timestamp.offset + delta <
      microsPerDay * monthStart monthCount) :
    ∃ later, timestamp.add delta = some later := by
  unfold instant at nonneg early
  have inside : (microsPerDay * timestamp.date.dayNumber + timestamp.time + delta : Int).toNat /
      microsPerDay < monthStart monthCount := by
    unfold microsPerDay at *
    omega
  obtain ⟨date, found⟩ := Date.exists_ofDayNumber inside
  unfold add
  dsimp only
  rw [if_pos (by omega), found]
  exact ⟨_, rfl⟩

/-- The day in UTC of an instant. -/
theorem astimezone_spec {timestamp utc : DateTime} (shifted : timestamp.astimezone = some utc) :
    utc.instant = timestamp.instant ∧ utc.offset = 0 ∧
      utc.midnight = utc.date.midnightUtc ∧
      (utc.date.dayNumber : Int) = timestamp.instant / microsPerDay := by
  obtain ⟨moved, added, rfl⟩ := Option.map_eq_some_iff.mp shifted
  obtain ⟨same, kept⟩ := add_spec added
  have within := moved.time_lt
  unfold instant at *
  rw [kept] at same
  refine ⟨?_, rfl, rfl, ?_⟩
  · dsimp only
    omega
  · dsimp only
    unfold microsPerDay at *
    omega

theorem exists_astimezone {timestamp : DateTime} (low : 0 ≤ timestamp.instant / microsPerDay)
    (high : timestamp.instant / microsPerDay < monthStart monthCount) :
    ∃ utc, timestamp.astimezone = some utc := by
  have positive : (0 : Int) < microsPerDay := by exact_mod_cast microsPerDay_pos
  rw [Int.ediv_nonneg_iff_of_pos positive] at low
  rw [Int.ediv_lt_iff_lt_mul positive, mul_comm] at high
  obtain ⟨moved, added⟩ : ∃ moved, timestamp.add (-timestamp.offset) = some moved :=
    exists_add (by rwa [add_neg_cancel_right]) (by rwa [add_neg_cancel_right])
  exact ⟨_, Option.map_eq_some_iff.mpr ⟨moved, added, rfl⟩⟩

/-- Whole days added to the start of a day give the start of a day. -/
theorem midnightUtc_addDays (date : Date) {days : Int} {number : Nat}
    (moved : (date.dayNumber : Int) + days = number) :
    date.midnightUtc.addDays days = (Date.ofDayNumber number).map Date.midnightUtc := by
  have micros : ((microsPerDay * date.dayNumber + (0 : Nat) + microsPerDay * days : Int)) =
      (microsPerDay * number : Nat) := by
    rw [Nat.cast_zero, add_zero, ← mul_add, moved, Nat.cast_mul]
  unfold addDays add
  dsimp only [Date.midnightUtc]
  rw [if_pos (by rw [micros]; exact Int.natCast_nonneg _)]
  simp only [micros, Int.toNat_natCast]
  rw [Nat.mul_div_cancel_left number microsPerDay_pos]
  simp only [Nat.mul_mod_right]
  rfl

/-- The period of a date, where both of its ends are dates. -/
def periodOf (period : Period) (date : Date) : Option (DateTime × DateTime) := do
  let start ← Date.ofDayNumber (calendarDays period date.dayNumber).1
  let reset ← Date.ofDayNumber (calendarDays period date.dayNumber).2
  return (start.midnightUtc, reset.midnightUtc)

theorem periodOf_daily (date : Date) :
    periodOf .daily date = do
      let reset ← date.midnightUtc.addDays 1
      return (date.midnightUtc, reset) := by
  have today : Date.ofDayNumber (calendarDays .daily date.dayNumber).1 = some date :=
    date.ofDayNumber_dayNumber
  have tomorrow : (calendarDays .daily date.dayNumber).2 = date.dayNumber + 1 := rfl
  rw [midnightUtc_addDays date (Nat.cast_succ date.dayNumber).symm, periodOf, today, tomorrow]
  cases Date.ofDayNumber (date.dayNumber + 1) <;> rfl

@[simp] theorem midnightUtc_weekday (date : Date) :
    date.midnightUtc.weekday = date.dayNumber % 7 := rfl

theorem periodOf_weekly (date : Date) :
    periodOf .weekly date = do
      let start ← date.midnightUtc.addDays (-date.midnightUtc.weekday)
      let reset ← start.addDays 7
      return (start, reset) := by
  rw [periodOf, calendarDays_weekly, midnightUtc_weekday]
  dsimp only
  have monday : (date.dayNumber : Int) + -((date.dayNumber % 7 : Nat) : Int) =
      ((date.dayNumber - date.dayNumber % 7 : Nat) : Int) := by omega
  rw [midnightUtc_addDays date monday]
  cases found : Date.ofDayNumber (date.dayNumber - date.dayNumber % 7) with
  | none => rfl
  | some start =>
      rw [← Date.ofDayNumber_eq_some.mp found, Option.map_some, Option.bind_eq_bind,
        Option.bind_eq_bind, Option.bind_some, Option.bind_some]
      have nextMonday : (start.dayNumber : Int) + 7 = ((start.dayNumber + 7 : Nat) : Int) := by
        rw [Nat.cast_add, Nat.cast_ofNat]
      rw [midnightUtc_addDays start nextMonday]
      cases Date.ofDayNumber (start.dayNumber + 7) <;> rfl

theorem periodOf_monthly (date : Date) :
    periodOf .monthly date = do
      let reset ← date.firstOfMonth.midnightUtc.addDays 32
      return (date.firstOfMonth.midnightUtc, reset.firstOfMonth) := by
  have later : (date.firstOfMonth.dayNumber : Int) + 32 =
      ((monthStart date.monthIndex + 32 : Nat) : Int) := by
    rw [Date.firstOfMonth_dayNumber, Nat.cast_add]
    rfl
  rw [midnightUtc_addDays date.firstOfMonth later, periodOf, date.ofDayNumber_monthly,
    calendarDays_monthly date.dayNumber_low date.dayNumber_high, ← Date.ofDayNumber_nextMonth]
  cases Date.ofDayNumber (monthStart date.monthIndex + 32) <;> rfl

/-- The window is the period of the UTC day. -/
theorem calendarQuotaWindow_eq {timestamp utc : DateTime} (period : Period)
    (shifted : timestamp.astimezone = some utc) :
    timestamp.calendarQuotaWindow period = periodOf period utc.date := by
  obtain ⟨-, -, midnight, -⟩ := astimezone_spec shifted
  unfold calendarQuotaWindow
  rw [shifted]
  dsimp only [Option.bind_eq_bind, Option.bind_some]
  rw [midnight]
  cases period with
  | daily => exact (periodOf_daily utc.date).symm
  | weekly => exact (periodOf_weekly utc.date).symm
  | monthly => exact (periodOf_monthly utc.date).symm

theorem calendarQuotaWindow_of_dates {timestamp utc : DateTime} {period : Period}
    {start reset : Date} (shifted : timestamp.astimezone = some utc)
    (starts : start.dayNumber = (calendarDays period utc.date.dayNumber).1)
    (resets : reset.dayNumber = (calendarDays period utc.date.dayNumber).2) :
    timestamp.calendarQuotaWindow period = some (start.midnightUtc, reset.midnightUtc) := by
  rw [calendarQuotaWindow_eq period shifted, periodOf, Date.ofDayNumber_eq_some.mpr starts,
    Date.ofDayNumber_eq_some.mpr resets]
  rfl

/-- The seconds of the accounting model are those of the window. -/
theorem calendarQuotaWindow_seconds {timestamp start reset : DateTime} {period : Period}
    (found : timestamp.calendarQuotaWindow period = some (start, reset)) :
    start.instant = 1000000 * (Quotas.calendarQuotaWindow period timestamp.instant.toNat).1 ∧
      reset.instant = 1000000 * (Quotas.calendarQuotaWindow period timestamp.instant.toNat).2 := by
  cases shifted : timestamp.astimezone with
  | none =>
      unfold calendarQuotaWindow at found
      rw [shifted] at found
      cases found
  | some utc =>
      obtain ⟨-, -, -, day⟩ := astimezone_spec shifted
      have number : utc.date.dayNumber = timestamp.instant.toNat / 86400000000 := by
        unfold microsPerDay at day
        omega
      rw [calendarQuotaWindow_eq period shifted, periodOf, number, Option.bind_eq_bind,
        Option.bind_eq_some_iff] at found
      obtain ⟨first, foundFirst, found⟩ := found
      rw [Option.bind_eq_some_iff] at found
      obtain ⟨last, foundLast, same⟩ := found
      cases same
      rw [Date.midnightUtc_instant, Date.midnightUtc_instant,
        Date.ofDayNumber_eq_some.mp foundFirst, Date.ofDayNumber_eq_some.mp foundLast]
      unfold Quotas.calendarQuotaWindow microsPerDay
      dsimp only
      constructor <;> push_cast <;> ring

@[simp] theorem start_le {date : Date} {timestamp : DateTime} :
    date.midnightUtc ≤ timestamp ↔ (date.dayNumber : Int) ≤ timestamp.instant / microsPerDay := by
  change date.midnightUtc.instant ≤ timestamp.instant ↔ _
  rw [Date.midnightUtc_instant]
  unfold microsPerDay
  omega

@[simp] theorem lt_start {date : Date} {timestamp : DateTime} :
    timestamp < date.midnightUtc ↔ timestamp.instant / microsPerDay < (date.dayNumber : Int) := by
  change timestamp.instant < date.midnightUtc.instant ↔ _
  rw [Date.midnightUtc_instant]
  unfold microsPerDay
  omega

/-- An offset is shorter than a day. -/
theorem utcDay_le {timestamp utc : DateTime} (shifted : timestamp.astimezone = some utc) :
    utc.date.dayNumber ≤ timestamp.date.dayNumber + 1 := by
  obtain ⟨-, -, -, day⟩ := astimezone_spec shifted
  have time := timestamp.time_lt
  have offset := timestamp.offset_range
  unfold instant at day
  unfold microsPerDay at *
  omega

/-- The year 9999 has room for the two windows after any day of an earlier year. -/
theorem dayNumber_of_year {date : Date} (early : date.year ≤ 9998) :
    date.dayNumber + 336 < monthStart monthCount := by
  have years := date.year_range
  have months := date.month_range
  have index : date.monthIndex + 1 + 12 ≤ monthCount := by
    unfold Date.monthIndex monthCount
    omega
  have high := date.dayNumber_high
  have := monthStart_add (date.monthIndex + 1) 12
  have := monthStart_mono index
  omega

/-- Calendar windows cover time without a gap or an overlap. -/
theorem calendar_windows_tile (period : Period) (timestamp utc : DateTime)
    (representable : timestamp.astimezone = some utc)
    (years : timestamp.date.year ≤ 9998 ∨ utc.date.year ≤ 9998) :
    ∃ start reset, timestamp.calendarQuotaWindow period = some (start, reset) ∧
      start ≤ timestamp ∧ timestamp < reset ∧
      (∀ other : DateTime, start ≤ other → other < reset →
        other.calendarQuotaWindow period = some (start, reset)) ∧
      ∃ next, reset.calendarQuotaWindow period = some (reset, next) := by
  obtain ⟨-, -, -, day⟩ := astimezone_spec representable
  have early : utc.date.dayNumber + 335 < monthStart monthCount := by
    rcases years with years | years
    · have := dayNumber_of_year years
      have := utcDay_le representable
      omega
    · have := dayNumber_of_year years
      omega
  have holds := calendarDays_holds period utc.date.dayNumber
  have length := calendarDays_length period utc.date.dayNumber
  obtain ⟨start, foundStart⟩ := @Date.exists_ofDayNumber
    (calendarDays period utc.date.dayNumber).1 (by omega)
  obtain ⟨reset, foundReset⟩ := @Date.exists_ofDayNumber
    (calendarDays period utc.date.dayNumber).2 (by omega)
  have starts := Date.ofDayNumber_eq_some.mp foundStart
  have resets := Date.ofDayNumber_eq_some.mp foundReset
  refine ⟨start.midnightUtc, reset.midnightUtc,
    calendarQuotaWindow_of_dates representable starts resets, ?_, ?_, ?_, ?_⟩
  · rw [start_le]
    omega
  · rw [lt_start]
    omega
  · intro other afterStart beforeReset
    rw [start_le] at afterStart
    rw [lt_start] at beforeReset
    have := reset.dayNumber_lt
    obtain ⟨otherUtc, shifted⟩ : ∃ utc, other.astimezone = some utc :=
      exists_astimezone (by omega) (by omega)
    obtain ⟨-, -, -, otherDay⟩ := astimezone_spec shifted
    have same : calendarDays period otherUtc.date.dayNumber =
        calendarDays period utc.date.dayNumber := calendarDays_eq period (by omega) (by omega)
    rw [← same] at starts resets
    exact calendarQuotaWindow_of_dates shifted starts resets
  · have instant : reset.midnightUtc.instant / microsPerDay = reset.dayNumber := by
      rw [Date.midnightUtc_instant]
      exact Int.mul_ediv_cancel_left _ (by exact_mod_cast microsPerDay_pos.ne')
    have early := reset.dayNumber_lt
    obtain ⟨resetUtc, shifted⟩ : ∃ utc, reset.midnightUtc.astimezone = some utc :=
      exists_astimezone (by omega) (by omega)
    obtain ⟨-, -, -, resetDay⟩ := astimezone_spec shifted
    have sameDay : resetUtc.date.dayNumber = (calendarDays period utc.date.dayNumber).2 := by
      omega
    have next := calendarDays_next period utc.date.dayNumber
    have nextLength := calendarDays_length period (calendarDays period utc.date.dayNumber).2
    rw [← sameDay] at next nextLength
    obtain ⟨nextReset, foundNext⟩ := @Date.exists_ofDayNumber
      (calendarDays period resetUtc.date.dayNumber).2 (by omega)
    exact ⟨nextReset.midnightUtc, calendarQuotaWindow_of_dates shifted
      (by rw [next, resets, sameDay]) (Date.ofDayNumber_eq_some.mp foundNext)⟩

/-- This is 22:30 on 29 February of year 4, five hours behind UTC. -/
def leapEvening : DateTime where
  date := ⟨4, 2, 29, by decide, by decide, by decide⟩
  time := 81000000000
  offset := -18000000000
  time_lt := by unfold microsPerDay; decide
  offset_range := by unfold microsPerDay; decide

/-- The same instant is 03:30 on 1 March in UTC. -/
def leapEveningUtc : DateTime where
  date := ⟨4, 3, 1, by decide, by decide, by decide⟩
  time := 12600000000
  offset := 0
  time_lt := by unfold microsPerDay; decide
  offset_range := utcRange

theorem leapEvening_month_tiles :
    ∃ start reset, leapEvening.calendarQuotaWindow .monthly = some (start, reset) ∧
      start ≤ leapEvening ∧ leapEvening < reset ∧
      (∀ other : DateTime, start ≤ other → other < reset →
        other.calendarQuotaWindow .monthly = some (start, reset)) ∧
      ∃ next, reset.calendarQuotaWindow .monthly = some (reset, next) :=
  calendar_windows_tile .monthly leapEvening leapEveningUtc (by decide +kernel)
    (.inl (by decide))

end DateTime

end SubtitleTranslator.Quotas
