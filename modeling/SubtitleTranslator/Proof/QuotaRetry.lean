import SubtitleTranslator.Proof.QuotaAccounting

namespace SubtitleTranslator.Quotas
open Library Auth

/-- An instant lies in its period. -/
theorem calendarQuotaWindow_holds (period : Period) (now : Nat) :
    1000000 * (calendarQuotaWindow period now).1 ≤ now ∧
      now < 1000000 * (calendarQuotaWindow period now).2 := by
  have holds := calendarDays_holds period (now / 86400000000)
  unfold calendarQuotaWindow
  dsimp only
  omega

/-- The instants of a period have the same period. -/
theorem calendarQuotaWindow_eq (period : Period) {now later : Nat} (ordered : now ≤ later)
    (within : later < 1000000 * (calendarQuotaWindow period now).2) :
    calendarQuotaWindow period later = calendarQuotaWindow period now := by
  have holds := calendarDays_holds period (now / 86400000000)
  unfold calendarQuotaWindow at within ⊢
  dsimp only at within ⊢
  have low : (calendarDays period (now / 86400000000)).1 ≤ later / 86400000000 :=
    holds.1.trans (Nat.div_le_div_right ordered)
  have high : later / 86400000000 < (calendarDays period (now / 86400000000)).2 := by omega
  rw [calendarDays_eq period low high]

/-- An instant after a period is in a later one. -/
theorem calendarQuotaWindow_after (period : Period) {now later : Nat}
    (after : 1000000 * (calendarQuotaWindow period now).2 ≤ later) :
    (calendarQuotaWindow period now).2 ≤ (calendarQuotaWindow period later).1 := by
  have next := calendarDays_next period (now / 86400000000)
  have day : (calendarDays period (now / 86400000000)).2 ≤ later / 86400000000 := by
    unfold calendarQuotaWindow at after
    dsimp only at after
    omega
  have ordered := calendarDays_mono period day
  rw [next] at ordered
  exact Nat.mul_le_mul_right 86400 ordered

/-- No calendar row was written in a period after an instant. -/
def RowsPast (buckets : Buckets) (now : Nat) : Prop :=
  ∀ owner period row, buckets ⟨owner, some period⟩ = some row →
    row.windowStartedAt ≤ (calendarQuotaWindow period now).1

theorem RowsPast.mono {buckets : Buckets} {now later : Nat} (past : RowsPast buckets now)
    (ordered : now ≤ later) : RowsPast buckets later :=
  fun owner period row stored =>
    (past owner period row stored).trans (calendarQuotaWindow_mono period ordered)

theorem QuotaState.AccountingInvariant.rowsPast {s : QuotaState}
    (invariant : s.AccountingInvariant) : RowsPast s.buckets s.clock := by
  intro owner period row stored
  have fits := invariant.calendar owner period
  simp only [CalendarFits, stored] at fits
  exact fits.2.1

/-- The use of a window stays until its reset and is gone from then on. -/
theorem windowBucket_used_later (limits : RateLimits) (buckets : Buckets) (owner : Owner)
    {now later : Nat} (ordered : now ≤ later) :
    (windowBucket limits buckets owner later).2 =
      if later < (windowBucket limits buckets owner now).1 + 1000000 * limits.window then
        (windowBucket limits buckets owner now).2
      else 0 := by
  cases stored : buckets ⟨owner, none⟩ with
  | none =>
      rw [QuotaState.windowBucket_absent limits later stored,
        QuotaState.windowBucket_absent limits now stored, ite_self]
  | some row =>
      by_cases ended : 1000000 * (row.windowStartedAt + limits.window) ≤ now
      · rw [QuotaState.windowBucket_ended stored ended,
          QuotaState.windowBucket_ended stored (ended.trans ordered), ite_self]
      · rw [QuotaState.windowBucket_going stored ended, ← Nat.mul_add]
        by_cases expired : 1000000 * (row.windowStartedAt + limits.window) ≤ later
        · rw [QuotaState.windowBucket_ended stored expired, if_neg (Nat.not_lt_of_le expired)]
        · rw [QuotaState.windowBucket_going stored expired, if_pos (Nat.lt_of_not_le expired)]

/-- The use of a calendar period stays until its end and is gone from then on. -/
theorem calendarUsed_later {buckets : Buckets} {now later : Nat} (past : RowsPast buckets now)
    (ordered : now ≤ later) (owner : Owner) (period : Period) :
    calendarUsed buckets owner period later =
      if later < 1000000 * (calendarQuotaWindow period now).2 then
        calendarUsed buckets owner period now
      else 0 := by
  unfold calendarUsed
  cases stored : buckets ⟨owner, some period⟩ with
  | none => simp
  | some row =>
      by_cases within : later < 1000000 * (calendarQuotaWindow period now).2
      · rw [if_pos within, calendarQuotaWindow_eq period ordered within]
      · have started := past owner period row stored
        have holds := calendarQuotaWindow_holds period now
        have after := calendarQuotaWindow_after period (Nat.le_of_not_lt within)
        rw [if_neg within]
        dsimp only
        rw [if_neg (by omega)]

/-- The use of a bucket stays until its reset and is gone from then on. -/
theorem quotaCheck_used_later {buckets : Buckets} {now later : Nat}
    (past : RowsPast buckets now) (ordered : now ≤ later) (limits : RateLimits) (role : Role)
    (key : BucketKey) :
    (quotaCheck limits buckets role later key).used =
      if later < (quotaCheck limits buckets role now key).reset then
        (quotaCheck limits buckets role now key).used
      else 0 := by
  obtain ⟨owner, period⟩ := key
  cases period with
  | none => exact windowBucket_used_later limits buckets owner ordered
  | some period => exact calendarUsed_later past ordered owner period

theorem quotaCheck_limit (limits : RateLimits) (buckets : Buckets) (role : Role)
    (now later : Nat) (key : BucketKey) :
    (quotaCheck limits buckets role later key).limit =
      (quotaCheck limits buckets role now key).limit := by
  obtain ⟨owner, period⟩ := key
  cases period <;> rfl

/-- A bucket in use resets at a whole second in the future. -/
theorem quotaCheck_reset {limits : RateLimits} {buckets : Buckets} {role : Role} {now : Nat}
    {key : BucketKey} (inUse : (quotaCheck limits buckets role now key).used ≠ 0) :
    ∃ second, (quotaCheck limits buckets role now key).reset = 1000000 * second ∧
      now < 1000000 * second := by
  obtain ⟨owner, period⟩ := key
  cases period with
  | some period =>
      exact ⟨(calendarQuotaWindow period now).2, rfl, (calendarQuotaWindow_holds period now).2⟩
  | none =>
      change (windowBucket limits buckets owner now).2 ≠ 0 at inUse
      change ∃ second, (windowBucket limits buckets owner now).1 + 1000000 * limits.window =
        1000000 * second ∧ now < 1000000 * second
      cases stored : buckets ⟨owner, none⟩ with
      | none =>
          rw [QuotaState.windowBucket_absent limits now stored] at inUse
          exact absurd rfl inUse
      | some row =>
          by_cases ended : 1000000 * (row.windowStartedAt + limits.window) ≤ now
          · rw [QuotaState.windowBucket_ended stored ended] at inUse
            exact absurd rfl inUse
          · rw [QuotaState.windowBucket_going stored ended]
            exact ⟨row.windowStartedAt + limits.window, (Nat.mul_add ..).symm,
              Nat.lt_of_not_le ended⟩

/-- The checks of one call. -/
def Refused (limits : RateLimits) (buckets : Buckets) (userId : Nat) (role : Role)
    (amount now : Nat) (key : BucketKey) : Prop :=
  key ∈ quotaKeys userId ∧ (quotaCheck limits buckets role now key).refuses amount = true

section
variable {limits : RateLimits} {buckets : Buckets} {userId : Nat} {role : Role}
  {amount now : Nat}

/-- A rejection names a refusing check with the longest wait. -/
theorem consumeJobQuota_error {exceeded : Exceeded}
    (rejected : consumeJobQuota limits buckets userId role amount now = .error exceeded) :
    ∃ key, Refused limits buckets userId role amount now key ∧
      exceeded = (quotaCheck limits buckets role now key).exceeded limits amount now ∧
      ∀ other, Refused limits buckets userId role amount now other →
        ((quotaCheck limits buckets role now other).exceeded limits amount now).retryAfter ≤
          exceeded.retryAfter := by
  unfold consumeJobQuota at rejected
  dsimp only at rejected
  split at rejected
  · rename_i found chosen
    cases rejected
    obtain ⟨member, longest, -⟩ := List.mem_argmax_iff.mp chosen
    obtain ⟨check, refusing, rfl⟩ := List.mem_map.mp member
    obtain ⟨listed, refuses⟩ := List.mem_filter.mp refusing
    obtain ⟨key, inKeys, rfl⟩ := List.mem_map.mp listed
    refine ⟨key, ⟨inKeys, refuses⟩, rfl, fun other refused => ?_⟩
    exact longest _ (List.mem_map_of_mem
      (List.mem_filter.mpr ⟨List.mem_map_of_mem refused.1, refused.2⟩))
  · cases rejected

/-- A call is accepted exactly when no check refuses. -/
theorem consumeJobQuota_accepts_iff :
    (∃ next, consumeJobQuota limits buckets userId role amount now = .ok next) ↔
      ∀ key, ¬ Refused limits buckets userId role amount now key := by
  constructor
  · rintro ⟨next, accepted⟩ key ⟨member, refuses⟩
    rw [(consumeJobQuota_ok accepted).1 key member] at refuses
    cases refuses
  · intro passes
    cases answer : consumeJobQuota limits buckets userId role amount now with
    | ok next => exact ⟨next, rfl⟩
    | error exceeded =>
        obtain ⟨key, refused, -⟩ := consumeJobQuota_error answer
        exact absurd refused (passes key)

/-- An amount within the limit is refused only on top of an earlier use. -/
theorem Refused.inUse {key : BucketKey}
    (refused : Refused limits buckets userId role amount now key)
    (fits : (quotaCheck limits buckets role now key).limit ≠ 0 →
      amount ≤ (quotaCheck limits buckets role now key).limit) :
    (quotaCheck limits buckets role now key).used ≠ 0 := by
  have refuses := of_decide_eq_true refused.2
  have := fits refuses.1
  omega

/-- The wait of a check in use lasts until its reset. -/
theorem lt_retryAfter_iff {key : BucketKey}
    (inUse : (quotaCheck limits buckets role now key).used ≠ 0) (seconds : Nat) :
    seconds < ((quotaCheck limits buckets role now key).exceeded limits amount now).retryAfter ↔
      now + 1000000 * seconds < (quotaCheck limits buckets role now key).reset := by
  obtain ⟨second, reset, future⟩ := quotaCheck_reset inUse
  unfold QuotaCheck.exceeded
  dsimp only
  rw [reset]
  omega

/-- The use before its reset refuses a later call as well. -/
theorem Refused.later {key : BucketKey} {retry : Nat}
    (refused : Refused limits buckets userId role amount now key)
    (past : RowsPast buckets now) (ordered : now ≤ retry)
    (within : retry < (quotaCheck limits buckets role now key).reset) :
    Refused limits buckets userId role amount retry key := by
  have used := quotaCheck_used_later past ordered limits role key
  rw [if_pos within] at used
  refine ⟨refused.1, ?_⟩
  rw [QuotaCheck.refuses, used, quotaCheck_limit limits buckets role now]
  exact refused.2

/-- A check that refuses a later call already refuses, and its reset is still to come. -/
theorem Refused.earlier {key : BucketKey} {retry : Nat}
    (refused : Refused limits buckets userId role amount retry key)
    (past : RowsPast buckets now) (ordered : now ≤ retry)
    (fits : (quotaCheck limits buckets role now key).limit ≠ 0 →
      amount ≤ (quotaCheck limits buckets role now key).limit) :
    Refused limits buckets userId role amount now key ∧
      retry < (quotaCheck limits buckets role now key).reset := by
  have used := quotaCheck_used_later past ordered limits role key
  rw [← quotaCheck_limit limits buckets role now retry] at fits
  have inUse := refused.inUse fits
  split at used
  · rename_i within
    refine ⟨⟨refused.1, ?_⟩, within⟩
    rw [QuotaCheck.refuses, ← used, ← quotaCheck_limit limits buckets role now retry]
    exact refused.2
  · exact absurd used inUse

end

/-- After a rejection the call is accepted from its Retry-After on and not at an earlier whole
second, and the rejection reports a limit with the latest reset. -/
theorem retry_after_exact {initialLimits : RateLimits} {clock : Nat} {events : List QuotaEvent}
    {s : QuotaState} {limits : RateLimits} {userId amount now : Nat} {role : Role}
    {exceeded : Exceeded}
    (reached : Machine.run QuotaState.step (.initial initialLimits clock) events = some s)
    (later : s.clock ≤ now)
    (fits : ∀ key ∈ quotaKeys userId,
      (quotaCheck limits s.buckets role now key).limit ≠ 0 →
        amount ≤ (quotaCheck limits s.buckets role now key).limit)
    (rejected : consumeJobQuota limits s.buckets userId role amount now = .error exceeded) :
    (∀ retry, now + 1000000 * exceeded.retryAfter ≤ retry →
      ∃ next, consumeJobQuota limits s.buckets userId role amount retry = .ok next) ∧
    (∀ seconds < exceeded.retryAfter, ∃ again,
      consumeJobQuota limits s.buckets userId role amount (now + 1000000 * seconds) =
        .error again) ∧
    ∃ key ∈ quotaKeys userId,
      exceeded = (quotaCheck limits s.buckets role now key).exceeded limits amount now ∧
      (quotaCheck limits s.buckets role now key).refuses amount = true ∧
      ∀ other ∈ quotaKeys userId,
        (quotaCheck limits s.buckets role now other).refuses amount = true →
        (quotaCheck limits s.buckets role now other).reset ≤
          (quotaCheck limits s.buckets role now key).reset := by
  have invariant : s.AccountingInvariant :=
    Machine.run_invariant QuotaState.AccountingInvariant (fun _ _ _ before => before.step)
      (QuotaState.initial_accounting initialLimits clock) reached
  have past := invariant.rowsPast.mono later
  obtain ⟨key, refused, described, longest⟩ := consumeJobQuota_error rejected
  have inUse := refused.inUse (fits key refused.1)
  refine ⟨fun retry enough => ?_, fun seconds early => ?_,
    key, refused.1, described, refused.2, fun other member refuses => ?_⟩
  · rw [consumeJobQuota_accepts_iff]
    intro other again
    obtain ⟨before, within⟩ := again.earlier past (by omega) (fits other again.1)
    have waits := longest other before
    have beyond := (lt_retryAfter_iff (before.inUse (fits other again.1))
      exceeded.retryAfter).not.mp (Nat.not_lt_of_le waits)
    omega
  · rw [described] at early
    have within := (lt_retryAfter_iff inUse seconds).mp early
    have again := refused.later past (Nat.le_add_right now (1000000 * seconds)) within
    cases answer : consumeJobQuota limits s.buckets userId role amount
        (now + 1000000 * seconds) with
    | error again => exact ⟨again, rfl⟩
    | ok next => exact absurd again (consumeJobQuota_accepts_iff.mp ⟨next, answer⟩ key)
  · have otherInUse : (quotaCheck limits s.buckets role now other).used ≠ 0 :=
      Refused.inUse ⟨member, refuses⟩ (fits other member)
    have waits := longest other ⟨member, refuses⟩
    obtain ⟨second, reset, future⟩ := quotaCheck_reset inUse
    obtain ⟨otherSecond, otherReset, otherFuture⟩ := quotaCheck_reset otherInUse
    rw [described] at waits
    unfold QuotaCheck.exceeded at waits
    dsimp only at waits
    rw [reset, otherReset] at waits ⊢
    omega

/-- The second job of an account in a minute is refused for 58 seconds. -/
theorem retry_after_exact_example :
    ∃ s exceeded,
      Machine.run QuotaState.step (.initial oneJobAMinute 0) [.consume 7 .user 1 500000] = some s ∧
      consumeJobQuota oneJobAMinute s.buckets 7 .user 1 2000000 = .error exceeded ∧
      exceeded.retryAfter = 58 ∧
      (∀ retry, 2000000 + 1000000 * exceeded.retryAfter ≤ retry →
        ∃ next, consumeJobQuota oneJobAMinute s.buckets 7 .user 1 retry = .ok next) ∧
      ∀ seconds < exceeded.retryAfter, ∃ again,
        consumeJobQuota oneJobAMinute s.buckets 7 .user 1 (2000000 + 1000000 * seconds) =
          .error again := by
  have ran : ∃ s exceeded,
      Machine.run QuotaState.step (.initial oneJobAMinute 0) [.consume 7 .user 1 500000] = some s ∧
      s.clock ≤ 2000000 ∧
      consumeJobQuota oneJobAMinute s.buckets 7 .user 1 2000000 = .error exceeded ∧
      exceeded.retryAfter = 58 := ⟨_, _, rfl, by decide +kernel, rfl, by decide +kernel⟩
  obtain ⟨s, exceeded, reached, later, rejected, wait⟩ := ran
  have fits : ∀ key ∈ quotaKeys 7, (quotaCheck oneJobAMinute s.buckets .user 2000000 key).limit ≠ 0 →
      1 ≤ (quotaCheck oneJobAMinute s.buckets .user 2000000 key).limit :=
    fun _ _ => Nat.one_le_iff_ne_zero.mpr
  have exact_ := retry_after_exact reached later fits rejected
  exact ⟨s, exceeded, reached, rejected, wait, exact_.1, exact_.2.1⟩

end SubtitleTranslator.Quotas
