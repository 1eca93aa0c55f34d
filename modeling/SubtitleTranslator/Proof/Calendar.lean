import SubtitleTranslator.Construction.Calendar

namespace SubtitleTranslator.Quotas

theorem monthLength_bounds (index : Nat) : 28 ≤ monthLength index ∧ monthLength index ≤ 31 := by
  unfold monthLength daysInMonth
  split_ifs <;> decide

@[simp] theorem monthStart_zero : monthStart 0 = 0 := by
  simp [monthStart]

theorem monthStart_succ (index : Nat) :
    monthStart (index + 1) = monthStart index + monthLength index := by
  simp [monthStart, List.range_succ]

theorem monthStart_add (index count : Nat) :
    monthStart index + 28 * count ≤ monthStart (index + count) := by
  induction count with
  | zero => exact le_rfl
  | succ count ih =>
      have bounds := monthLength_bounds (index + count)
      rw [← Nat.add_assoc, monthStart_succ]
      omega

theorem monthStart_mono {first second : Nat} (ordered : first ≤ second) :
    monthStart first ≤ monthStart second := by
  obtain ⟨count, rfl⟩ := Nat.exists_eq_add_of_le ordered
  have := monthStart_add first count
  omega

/-- A day belongs to one month. -/
theorem month_unique {first second day : Nat}
    (firstLow : monthStart first ≤ day) (firstHigh : day < monthStart (first + 1))
    (secondLow : monthStart second ≤ day) (secondHigh : day < monthStart (second + 1)) :
    first = second := by
  rcases Nat.lt_trichotomy first second with before | same | after
  · have := monthStart_mono (show first + 1 ≤ second from before)
    omega
  · exact same
  · have := monthStart_mono (show second + 1 ≤ first from after)
    omega

/-- The search ends at the month that holds the day. -/
theorem findMonth_spec (fuel index rest : Nat) (enough : rest ≤ fuel) :
    ∃ found, findMonth fuel index (monthStart index) rest = (monthStart found, monthLength found) ∧
      monthStart found ≤ monthStart index + rest ∧
      monthStart index + rest < monthStart (found + 1) := by
  induction fuel generalizing index rest with
  | zero =>
      have bounds := monthLength_bounds index
      refine ⟨index, rfl, by omega, ?_⟩
      rw [monthStart_succ]
      omega
  | succ fuel ih =>
      have bounds := monthLength_bounds index
      rw [findMonth]
      split
      · rename_i inside
        refine ⟨index, rfl, by omega, ?_⟩
        rw [monthStart_succ]
        omega
      · rename_i beyond
        rw [← monthStart_succ]
        obtain ⟨found, start, low, high⟩ :=
          ih (index + 1) (rest - monthLength index) (by omega)
        rw [monthStart_succ] at low high
        exact ⟨found, start, by omega, by omega⟩

theorem findDay_spec (fuel index rest : Nat) (enough : rest ≤ fuel) :
    (findDay fuel index rest).2 < monthLength (findDay fuel index rest).1 ∧
      monthStart (findDay fuel index rest).1 + (findDay fuel index rest).2 =
        monthStart index + rest := by
  induction fuel generalizing index rest with
  | zero =>
      have bounds := monthLength_bounds index
      refine ⟨?_, rfl⟩
      change rest < monthLength index
      omega
  | succ fuel ih =>
      have bounds := monthLength_bounds index
      rw [findDay]
      split
      · rename_i inside
        exact ⟨inside, rfl⟩
      · rename_i beyond
        obtain ⟨within, total⟩ := ih (index + 1) (rest - monthLength index) (by omega)
        refine ⟨within, total.trans ?_⟩
        rw [monthStart_succ]
        omega

/-- The days of a month are one period. -/
theorem calendarDays_monthly {index day : Nat} (low : monthStart index ≤ day)
    (high : day < monthStart (index + 1)) :
    calendarDays .monthly day = (monthStart index, monthStart (index + 1)) := by
  obtain ⟨found, result, foundLow, foundHigh⟩ := findMonth_spec day 0 day le_rfl
  rw [monthStart_zero, Nat.zero_add] at foundLow foundHigh
  have same := month_unique low high foundLow foundHigh
  subst same
  rw [monthStart_zero] at result
  simp only [calendarDays, result, monthStart_succ]

theorem exists_month (day : Nat) :
    ∃ index, monthStart index ≤ day ∧ day < monthStart (index + 1) := by
  obtain ⟨index, -, low, high⟩ := findMonth_spec day 0 day le_rfl
  rw [monthStart_zero, Nat.zero_add] at low high
  exact ⟨index, low, high⟩

theorem calendarDays_weekly (day : Nat) :
    calendarDays .weekly day = (day - day % 7, day - day % 7 + 7) := rfl

/-- A day lies in its period. -/
theorem calendarDays_holds (period : Period) (day : Nat) :
    (calendarDays period day).1 ≤ day ∧ day < (calendarDays period day).2 := by
  cases period with
  | daily => exact ⟨le_rfl, Nat.lt_succ_self day⟩
  | weekly =>
      change day - day % 7 ≤ day ∧ day < day - day % 7 + 7
      omega
  | monthly =>
      obtain ⟨index, low, high⟩ := exists_month day
      rw [calendarDays_monthly low high]
      exact ⟨low, high⟩

/-- The days of a period have the same period. -/
theorem calendarDays_eq (period : Period) {day other : Nat}
    (low : (calendarDays period day).1 ≤ other) (high : other < (calendarDays period day).2) :
    calendarDays period other = calendarDays period day := by
  cases period with
  | daily =>
      change day ≤ other at low
      change other < day + 1 at high
      rw [show other = day by omega]
  | weekly =>
      change day - day % 7 ≤ other at low
      change other < day - day % 7 + 7 at high
      change (other - other % 7, other - other % 7 + 7) = (day - day % 7, day - day % 7 + 7)
      rw [show other - other % 7 = day - day % 7 by omega]
  | monthly =>
      obtain ⟨index, dayLow, dayHigh⟩ := exists_month day
      rw [calendarDays_monthly dayLow dayHigh] at low high ⊢
      exact calendarDays_monthly low high

/-- The next period starts where a period ends. -/
theorem calendarDays_next (period : Period) (day : Nat) :
    (calendarDays period (calendarDays period day).2).1 = (calendarDays period day).2 := by
  cases period with
  | daily => rfl
  | weekly =>
      change (day - day % 7 + 7) - (day - day % 7 + 7) % 7 = day - day % 7 + 7
      omega
  | monthly =>
      obtain ⟨index, low, high⟩ := exists_month day
      rw [calendarDays_monthly low high]
      have bounds := monthLength_bounds (index + 1)
      have inside : monthStart (index + 1) < monthStart (index + 1 + 1) := by
        rw [monthStart_succ (index + 1)]
        omega
      rw [calendarDays_monthly le_rfl inside]

theorem calendarDays_length (period : Period) (day : Nat) :
    (calendarDays period day).2 ≤ (calendarDays period day).1 + 31 := by
  cases period with
  | daily => exact Nat.add_le_add_left (by decide) day
  | weekly => exact Nat.add_le_add_left (by decide) _
  | monthly =>
      obtain ⟨index, low, high⟩ := exists_month day
      have bounds := monthLength_bounds index
      rw [calendarDays_monthly low high]
      change monthStart (index + 1) ≤ monthStart index + 31
      rw [monthStart_succ]
      omega

/-- A later day has no earlier period. -/
theorem calendarDays_mono (period : Period) {day later : Nat} (ordered : day ≤ later) :
    (calendarDays period day).1 ≤ (calendarDays period later).1 := by
  by_contra reversed
  have dayHolds := calendarDays_holds period day
  have laterHolds := calendarDays_holds period later
  have same : calendarDays period day = calendarDays period later :=
    calendarDays_eq period (by omega) (by omega)
  rw [same] at reversed
  exact reversed le_rfl

/-- A later instant has no earlier period. -/
theorem calendarQuotaWindow_mono (period : Period) {now later : Nat} (ordered : now ≤ later) :
    (calendarQuotaWindow period now).1 ≤ (calendarQuotaWindow period later).1 := by
  have days : now / 86400000000 ≤ later / 86400000000 := Nat.div_le_div_right ordered
  exact Nat.mul_le_mul_right 86400 (calendarDays_mono period days)

end SubtitleTranslator.Quotas
