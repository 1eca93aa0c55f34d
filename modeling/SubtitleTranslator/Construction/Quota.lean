import SubtitleTranslator.Construction.Login
import Mathlib.Data.List.MinMax

namespace SubtitleTranslator.Quotas
open Library Auth

/-- The periods are `CALENDAR_PERIODS`. -/
inductive Period where
  | daily
  | weekly
  | monthly
  deriving DecidableEq

/-- A limit is set for a role or for the whole panel. -/
inductive LimitScope where
  | user
  | admin
  | panel
  deriving DecidableEq

/-- The keys are `RATE_LIMIT_KEYS`. -/
inductive LimitKey where
  | windowMinutes
  | window (scope : LimitScope)
  | calendar (scope : LimitScope) (period : Period)
  deriving DecidableEq

def periods : List Period := [.daily, .weekly, .monthly]

def limitScopes : List LimitScope := [.user, .admin, .panel]

/-- The keys of `WINDOW_LIMIT_KEYS` restart the configurable window when they change. -/
def windowLimitKeys : List LimitKey := .windowMinutes :: limitScopes.map LimitKey.window

def rateLimitKeys : List LimitKey :=
  windowLimitKeys ++ periods.flatMap fun period => limitScopes.map fun scope => .calendar scope period

/-- These are the inclusive bounds of `INTEGER_SETTINGS`. -/
def LimitKey.bounds : LimitKey → Nat × Nat
  | .windowMinutes => (1, 10080)
  | .window .panel | .calendar .panel _ => (0, 1000000)
  | .window _ | .calendar _ _ => (0, 100000)

/-- The stored limits come from validated settings, so that a window has some length. -/
structure RateLimits where
  value : LimitKey → Nat
  window_pos : 0 < value .windowMinutes

/-- The window is `rate_limit_window_minutes` in seconds. -/
def RateLimits.window (limits : RateLimits) : Nat := limits.value .windowMinutes * 60

/-- This check is `validate_numeric_settings` for the rate limits of a payload. -/
def validLimits (payload : LimitKey → Option Nat) : Bool :=
  rateLimitKeys.all fun key =>
    (payload key).all fun value => key.bounds.1 ≤ value ∧ value ≤ key.bounds.2

theorem mem_rateLimitKeys (key : LimitKey) : key ∈ rateLimitKeys := by
  rcases key with _ | scope | ⟨scope, period⟩
  · decide
  · cases scope <;> decide
  · cases scope <;> cases period <;> decide

/-- An accepted payload replaces the limits that it names. -/
def RateLimits.edit (limits : RateLimits) (payload : LimitKey → Option Nat)
    (valid : validLimits payload = true) : RateLimits where
  value := fun key => (payload key).getD (limits.value key)
  window_pos := by
    have bounded := List.all_eq_true.mp valid .windowMinutes (mem_rateLimitKeys _)
    cases written : payload .windowMinutes with
    | none => exact limits.window_pos
    | some minutes =>
        rw [written] at bounded
        exact (of_decide_eq_true bounded).1

/-- A payload changes the window when one of its window keys has a new value. -/
def changedWindow (limits : RateLimits) (payload : LimitKey → Option Nat) : Bool :=
  windowLimitKeys.any fun key => (payload key).any fun value => value ≠ limits.value key

def daysInMonth (year month : Nat) : Nat :=
  if month = 2 then
    if year % 4 = 0 ∧ (year % 100 ≠ 0 ∨ year % 400 = 0) then 29 else 28
  else if month = 4 ∨ month = 6 ∨ month = 9 ∨ month = 11 then 30
  else 31

/-- The length of a month, counted from January of year 1. -/
def monthLength (index : Nat) : Nat := daysInMonth (1 + index / 12) (index % 12 + 1)

/-- This function finds the first day of the month of a day and the length of that month. -/
def findMonth : Nat → Nat → Nat → Nat → Nat × Nat
  | 0, index, start, _ => (start, monthLength index)
  | fuel + 1, index, start, rest =>
      if rest < monthLength index then (start, monthLength index)
      else findMonth fuel (index + 1) (start + monthLength index) (rest - monthLength index)

/-- This function is `calendar_quota_window` on days since 1 January of year 1, a Monday. -/
def calendarDays (period : Period) (day : Nat) : Nat × Nat :=
  match period with
  | .daily => (day, day + 1)
  | .weekly =>
      let start := day - day % 7
      (start, start + 7)
  | .monthly =>
      let (start, length) := findMonth day 0 0 day
      (start, start + length)

/-- This function is `calendar_quota_window`: the start and the end of a period in seconds, for
a clock reading in microseconds since the first instant of year 1. -/
def calendarQuotaWindow (period : Period) (now : Nat) : Nat × Nat :=
  let (start, reset) := calendarDays period (now / 86400000000)
  (start * 86400, reset * 86400)

/-- A bucket counts the jobs of an account or of the panel. -/
inductive Owner where
  | panel
  | account (userId : Nat)
  deriving DecidableEq

/-- The scope of a bucket; the configurable window has no period. -/
structure BucketKey where
  owner : Owner
  period : Option Period
  deriving DecidableEq

/-- These are the columns of a `rate_limit_buckets` row, with the start in whole seconds. -/
structure BucketRow where
  windowStartedAt : Nat
  used : Nat
  deriving DecidableEq

abbrev Buckets := BucketKey → Option BucketRow

/-- The limit scope of a bucket: the role of the account, or the panel. -/
def limitScope (role : Role) : Owner → LimitScope
  | .panel => .panel
  | .account _ =>
      match role with
      | .user => .user
      | .admin => .admin

/-- This function is `bucket`: the start in microseconds and the use of the current window. -/
def windowBucket (limits : RateLimits) (buckets : Buckets) (owner : Owner) (now : Nat) :
    Nat × Nat :=
  match buckets ⟨owner, none⟩ with
  | none => (now, 0)
  | some row =>
      if 1000000 * (row.windowStartedAt + limits.window) ≤ now then (now, 0)
      else (1000000 * row.windowStartedAt, row.used)

/-- The use of a calendar bucket counts only for the period that it was written in. -/
def calendarUsed (buckets : Buckets) (owner : Owner) (period : Period) (now : Nat) : Nat :=
  match buckets ⟨owner, some period⟩ with
  | none => 0
  | some row => if row.windowStartedAt = (calendarQuotaWindow period now).1 then row.used else 0

/-- One entry of `checks`; instants are in microseconds. -/
structure QuotaCheck where
  scope : LimitScope
  limit : Nat
  started : Nat
  used : Nat
  reset : Nat
  key : BucketKey

/-- The check of one bucket. -/
def quotaCheck (limits : RateLimits) (buckets : Buckets) (role : Role) (now : Nat)
    (key : BucketKey) : QuotaCheck :=
  let scope := limitScope role key.owner
  match key.period with
  | none =>
      let (started, used) := windowBucket limits buckets key.owner now
      { scope := scope
        limit := limits.value (.window scope)
        started := started
        used := used
        reset := started + 1000000 * limits.window
        key := key }
  | some period =>
      let (started, reset) := calendarQuotaWindow period now
      { scope := scope
        limit := limits.value (.calendar scope period)
        started := 1000000 * started
        used := calendarUsed buckets key.owner period now
        reset := 1000000 * reset
        key := key }

/-- The scopes of one call, in the order of its checks. -/
def quotaKeys (userId : Nat) : List BucketKey :=
  [none, some .daily, some .weekly, some .monthly].flatMap fun period =>
    [⟨.account userId, period⟩, ⟨.panel, period⟩]

/-- This value describes an exceeded limit; the texts are the catalog keys. -/
structure Exceeded where
  error : String
  minutes : Nat
  scope : LimitScope
  limit : Nat
  retryAfter : Nat
  period : Option Period
  used : Nat
  requested : Nat
  resetAt : Nat
  deriving DecidableEq

def windowError : String :=
  "\x7blabel\x7d rate limit of \x7blimit\x7d translation job\x7bjob_plural\x7d per " ++
    "\x7bminutes\x7d minute\x7bminute_plural\x7d exceeded"

def calendarError : String :=
  "\x7blabel\x7d \x7bperiod\x7d translation limit of \x7blimit\x7d jobs exceeded. " ++
    "Resets at \x7breset\x7d (UTC)."

/-- A check refuses an amount when its limit is set and would be passed. -/
def QuotaCheck.refuses (check : QuotaCheck) (amount : Nat) : Bool :=
  check.limit ≠ 0 ∧ check.limit < check.used + amount

/-- The description of a check that refuses; waiting times are rounded up to seconds. -/
def QuotaCheck.exceeded (check : QuotaCheck) (limits : RateLimits) (amount now : Nat) :
    Exceeded where
  error := if check.key.period.isNone then windowError else calendarError
  minutes := limits.value .windowMinutes
  scope := check.scope
  limit := check.limit
  retryAfter := max 1 ((check.reset - now + 999999) / 1000000)
  period := check.key.period
  used := check.used
  requested := amount
  resetAt := check.reset / 1000000

/-- The row that an accepted call writes for a check. -/
def QuotaCheck.row (check : QuotaCheck) (amount : Nat) : BucketRow where
  windowStartedAt := check.started / 1000000
  used := check.used + amount

/-- This function is `consume_job_quota`. -/
def consumeJobQuota (limits : RateLimits) (buckets : Buckets) (userId : Nat) (role : Role)
    (amount now : Nat) : Except Exceeded Buckets :=
  let checks := (quotaKeys userId).map (quotaCheck limits buckets role now)
  match ((checks.filter (·.refuses amount)).map (·.exceeded limits amount now)).argmax
      Exceeded.retryAfter with
  | some exceeded => .error exceeded
  | none =>
      .ok (checks.foldl
        (fun rows check => Function.update rows check.key (some (check.row amount))) buckets)

/-- The history has the accepted calls and the changes of the window, the latest first. -/
inductive LogEntry where
  | accepted (userId amount instant : Nat)
  | windowChanged
  deriving DecidableEq

structure QuotaState where
  limits : RateLimits
  buckets : Buckets
  clock : Nat
  log : List LogEntry

inductive QuotaEvent where
  | consume (userId : Nat) (role : Role) (amount now : Nat)
  | saveSettings (payload : LimitKey → Option Nat)

/-- A window change deletes the buckets of the configurable window. -/
def deleteWindowBuckets (buckets : Buckets) : Buckets :=
  fun key => if key.period.isNone then none else buckets key

namespace QuotaState

/-- This step is one call of `consume_job_quota` or one `save_settings` with its lock. -/
def step (s : QuotaState) : QuotaEvent → Option QuotaState
  | .consume userId role amount now =>
      if s.clock ≤ now ∧ 0 < amount then
        match consumeJobQuota s.limits s.buckets userId role amount now with
        | .error _ => some { s with clock := now }
        | .ok buckets =>
            some { s with
              buckets := buckets
              clock := now
              log := .accepted userId amount now :: s.log }
      else none
  | .saveSettings payload =>
      if valid : validLimits payload = true then
        if changedWindow s.limits payload then
          some { s with
            limits := s.limits.edit payload valid
            buckets := deleteWindowBuckets s.buckets
            log := .windowChanged :: s.log }
        else some { s with limits := s.limits.edit payload valid }
      else none

/-- A start has no buckets. -/
def initial (limits : RateLimits) (clock : Nat) : QuotaState where
  limits := limits
  buckets := fun _ => none
  clock := clock
  log := []

end QuotaState

end SubtitleTranslator.Quotas
