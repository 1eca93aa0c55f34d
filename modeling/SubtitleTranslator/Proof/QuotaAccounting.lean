import SubtitleTranslator.Proof.Calendar

namespace SubtitleTranslator.Quotas
open Library Auth

/-- An owner's bucket counts the calls of its account; the panel counts every call. -/
def Owner.covers (owner : Owner) (userId : Nat) : Bool :=
  owner = .panel ∨ owner = .account userId

/-- The amount of an entry that an owner counts at the instants of a test. -/
def LogEntry.amount (owner : Owner) (test : Nat → Bool) : LogEntry → Nat
  | .accepted userId amount instant => if owner.covers userId ∧ test instant then amount else 0
  | .windowChanged => 0

/-- The sum of the amounts that were accepted for an owner at the instants of a test. -/
def total (log : List LogEntry) (owner : Owner) (test : Nat → Bool) : Nat :=
  (log.map (LogEntry.amount owner test)).sum

/-- The sum of the amounts that were accepted in one calendar period. -/
def calendarTotal (log : List LogEntry) (owner : Owner) (period : Period) (start : Nat) : Nat :=
  total log owner fun instant => (calendarQuotaWindow period instant).1 = start

/-- The history since the last change of the window. -/
def sinceChange (log : List LogEntry) : List LogEntry := log.takeWhile (· ≠ .windowChanged)

/-- The sum of the amounts that were accepted from an instant on, and since the last change of
the window. -/
def windowTotal (log : List LogEntry) (owner : Owner) (start : Nat) : Nat :=
  total (sinceChange log) owner fun instant => start ≤ instant

/-- A test that no call of the owner passes has no amount. -/
theorem total_eq_zero {log : List LogEntry} {owner : Owner} {test : Nat → Bool}
    (missed : ∀ userId amount instant, .accepted userId amount instant ∈ log →
      owner.covers userId = true → test instant = false) : total log owner test = 0 := by
  rw [total, List.sum_eq_zero]
  intro amount member
  obtain ⟨entry, inLog, rfl⟩ := List.mem_map.mp member
  cases entry with
  | windowChanged => rfl
  | accepted userId amount instant =>
      refine if_neg ?_
      rintro ⟨covered, passed⟩
      rw [missed userId amount instant inLog covered] at passed
      cases passed

theorem total_accepted (log : List LogEntry) (owner : Owner) (test : Nat → Bool)
    (userId amount instant : Nat) :
    total (.accepted userId amount instant :: log) owner test =
      (if owner.covers userId ∧ test instant then amount else 0) + total log owner test :=
  List.sum_cons

theorem sinceChange_accepted (log : List LogEntry) (userId amount instant : Nat) :
    sinceChange (.accepted userId amount instant :: log) =
      .accepted userId amount instant :: sinceChange log :=
  List.takeWhile_cons_of_pos (by simp)

theorem sinceChange_windowChanged (log : List LogEntry) :
    sinceChange (.windowChanged :: log) = [] :=
  List.takeWhile_cons_of_neg (by simp)

@[simp] theorem quotaCheck_key (limits : RateLimits) (buckets : Buckets) (role : Role) (now : Nat)
    (key : BucketKey) : (quotaCheck limits buckets role now key).key = key := by
  obtain ⟨owner, period⟩ := key
  cases period <;> rfl

/-- A call writes the buckets of its owners in all periods. -/
theorem mem_quotaKeys {userId : Nat} {key : BucketKey} :
    key ∈ quotaKeys userId ↔ key.owner.covers userId = true := by
  obtain ⟨owner, period⟩ := key
  rcases period with _ | (_ | _ | _) <;> cases owner <;> simp [quotaKeys, Owner.covers]

/-- The last write to a key is the row of its check. -/
theorem foldl_update_check (check : BucketKey → QuotaCheck) (named : ∀ key, (check key).key = key)
    (amount : Nat) (keys : List BucketKey) (buckets : Buckets) (key : BucketKey) :
    (keys.map check).foldl
        (fun (rows : Buckets) check => Function.update rows check.key (some (check.row amount)))
        buckets key =
      if key ∈ keys then some ((check key).row amount) else buckets key := by
  induction keys generalizing buckets with
  | nil => rfl
  | cons first rest ih =>
      rw [List.map_cons, List.foldl_cons, ih]
      by_cases later : key ∈ rest
      · rw [if_pos later, if_pos (List.mem_cons_of_mem _ later)]
      · rw [if_neg later, named]
        by_cases same : key = first
        · subst same
          rw [Function.update_self, if_pos List.mem_cons_self]
        · rw [Function.update_of_ne same, if_neg (by simp [same, later])]

/-- An accepted call passes all its checks and writes exactly its own buckets. -/
theorem consumeJobQuota_ok {limits : RateLimits} {buckets next : Buckets} {userId amount now : Nat}
    {role : Role} (accepted : consumeJobQuota limits buckets userId role amount now = .ok next) :
    (∀ key ∈ quotaKeys userId, (quotaCheck limits buckets role now key).refuses amount = false) ∧
      ∀ key, next key =
        if key.owner.covers userId then some ((quotaCheck limits buckets role now key).row amount)
        else buckets key := by
  unfold consumeJobQuota at accepted
  dsimp only at accepted
  split at accepted
  · cases accepted
  · rename_i none_
    cases accepted
    constructor
    · intro key member
      rw [List.argmax_eq_none, List.map_eq_nil_iff, List.filter_eq_nil_iff] at none_
      simpa using none_ _ (List.mem_map_of_mem member)
    · intro key
      rw [foldl_update_check (quotaCheck limits buckets role now) (quotaCheck_key _ _ _ _)]
      exact if_congr mem_quotaKeys rfl rfl

namespace QuotaState

/-- A calendar row holds the amounts of the period that it was last written in. -/
def CalendarFits (s : QuotaState) (owner : Owner) (period : Period) : Prop :=
  match s.buckets ⟨owner, some period⟩ with
  | none => ∀ userId amount instant, .accepted userId amount instant ∈ s.log →
      owner.covers userId = false
  | some row =>
      row.used = calendarTotal s.log owner period row.windowStartedAt ∧
        row.windowStartedAt ≤ (calendarQuotaWindow period s.clock).1 ∧
        ∀ userId amount instant, .accepted userId amount instant ∈ s.log →
          owner.covers userId = true →
          (calendarQuotaWindow period instant).1 ≤ row.windowStartedAt

/-- A window row holds the amounts since its start and since the last change of the window. -/
def WindowFits (s : QuotaState) (owner : Owner) : Prop :=
  match s.buckets ⟨owner, none⟩ with
  | none => ∀ userId amount instant, .accepted userId amount instant ∈ sinceChange s.log →
      owner.covers userId = false
  | some row =>
      row.used = windowTotal s.log owner (1000000 * row.windowStartedAt) ∧
        1000000 * row.windowStartedAt ≤ s.clock ∧
        ∀ userId amount instant, .accepted userId amount instant ∈ sinceChange s.log →
          owner.covers userId = true →
          instant < 1000000 * (row.windowStartedAt + s.limits.window)

/-- Every bucket agrees with the history. -/
structure AccountingInvariant (s : QuotaState) : Prop where
  past : ∀ userId amount instant, .accepted userId amount instant ∈ s.log → instant ≤ s.clock
  calendar : ∀ owner period, s.CalendarFits owner period
  window : ∀ owner, s.WindowFits owner

theorem initial_accounting (limits : RateLimits) (clock : Nat) :
    (initial limits clock).AccountingInvariant :=
  ⟨nofun, fun _ _ => nofun, fun _ => nofun⟩

/-- The use of a calendar bucket is the sum of the current period. -/
theorem AccountingInvariant.calendarUsed_eq {s : QuotaState} (invariant : s.AccountingInvariant)
    (owner : Owner) (period : Period) {now : Nat} (later : s.clock ≤ now) :
    calendarUsed s.buckets owner period now =
      calendarTotal s.log owner period (calendarQuotaWindow period now).1 := by
  have fits := invariant.calendar owner period
  unfold CalendarFits at fits
  unfold calendarUsed
  cases stored : s.buckets ⟨owner, some period⟩ with
  | none =>
      simp only [stored] at fits ⊢
      refine (total_eq_zero fun userId amount instant member covered => ?_).symm
      rw [fits userId amount instant member] at covered
      cases covered
  | some row =>
      simp only [stored] at fits ⊢
      obtain ⟨used, written, entries⟩ := fits
      by_cases current : row.windowStartedAt = (calendarQuotaWindow period now).1
      · rw [if_pos current, used, current]
      · rw [if_neg current]
        refine (total_eq_zero fun userId amount instant member covered => ?_).symm
        have early := entries userId amount instant member covered
        have ordered := calendarQuotaWindow_mono period later
        exact decide_eq_false fun same => current (by omega)

/-- An accepted call keeps a calendar bucket of its owners in step with the history. -/
theorem AccountingInvariant.calendar_accepted {s : QuotaState} (before : s.AccountingInvariant)
    {userId amount now : Nat} {role : Role} {next : Buckets} (later : s.clock ≤ now)
    (accepted : consumeJobQuota s.limits s.buckets userId role amount now = .ok next)
    (owner : Owner) (period : Period) :
    CalendarFits { s with
      buckets := next, clock := now, log := .accepted userId amount now :: s.log } owner period := by
  have written := (consumeJobQuota_ok accepted).2 ⟨owner, some period⟩
  have fits := before.calendar owner period
  unfold CalendarFits at fits ⊢
  cases covered : owner.covers userId with
  | true =>
      rw [if_pos covered] at written
      have started : (quotaCheck s.limits s.buckets role now ⟨owner, some period⟩).row amount =
          ⟨(calendarQuotaWindow period now).1, calendarUsed s.buckets owner period now + amount⟩ := by
        simp [quotaCheck, QuotaCheck.row]
      rw [started] at written
      simp only [written]
      refine ⟨?_, le_rfl, ?_⟩
      · rw [before.calendarUsed_eq owner period later, calendarTotal, calendarTotal, total_accepted,
          if_pos ⟨covered, decide_eq_true rfl⟩, Nat.add_comm]
      · rintro user amount instant (_ | ⟨_, member⟩) _
        · exact le_rfl
        · exact calendarQuotaWindow_mono period ((before.past _ _ _ member).trans later)
  | false =>
      rw [if_neg (by simp [covered])] at written
      have uncounted (test : Nat → Bool) :
          total (.accepted userId amount now :: s.log) owner test = total s.log owner test := by
        rw [total_accepted, if_neg (by simp [covered]), Nat.zero_add]
      simp only [written]
      split at fits
      · rename_i absent
        rintro user amount instant (_ | ⟨_, member⟩)
        · exact covered
        · exact fits user amount instant member
      · rename_i row stored
        obtain ⟨used, past, entries⟩ := fits
        refine ⟨?_, past.trans (calendarQuotaWindow_mono period later), ?_⟩
        · rw [used, calendarTotal, calendarTotal, uncounted]
        · rintro user amount instant (_ | ⟨_, member⟩) counted
          · rw [covered] at counted
            cases counted
          · exact entries user amount instant member counted

/-- The window has at least one minute. -/
theorem window_pos (limits : RateLimits) : 0 < limits.window :=
  Nat.mul_pos limits.window_pos (by decide)

theorem windowBucket_absent (limits : RateLimits) {buckets : Buckets} {owner : Owner} (now : Nat)
    (absent : buckets ⟨owner, none⟩ = none) : windowBucket limits buckets owner now = (now, 0) := by
  simp only [windowBucket, absent]

theorem windowBucket_ended {limits : RateLimits} {buckets : Buckets} {owner : Owner}
    {row : BucketRow} {now : Nat} (stored : buckets ⟨owner, none⟩ = some row)
    (ended : 1000000 * (row.windowStartedAt + limits.window) ≤ now) :
    windowBucket limits buckets owner now = (now, 0) := by
  simp only [windowBucket, stored, if_pos ended]

theorem windowBucket_going {limits : RateLimits} {buckets : Buckets} {owner : Owner}
    {row : BucketRow} {now : Nat} (stored : buckets ⟨owner, none⟩ = some row)
    (going : ¬1000000 * (row.windowStartedAt + limits.window) ≤ now) :
    windowBucket limits buckets owner now = (1000000 * row.windowStartedAt, row.used) := by
  simp only [windowBucket, stored, if_neg going]

/-- A window starts at the call, after every earlier amount, or goes on for the call. -/
theorem AccountingInvariant.windowBucket_cases {s : QuotaState} (before : s.AccountingInvariant)
    (owner : Owner) (now : Nat) :
    (windowBucket s.limits s.buckets owner now = (now, 0) ∧
      ∀ userId amount instant, .accepted userId amount instant ∈ sinceChange s.log →
        owner.covers userId = true → instant < 1000000 * (now / 1000000)) ∨
    ∃ row, s.buckets ⟨owner, none⟩ = some row ∧
      windowBucket s.limits s.buckets owner now = (1000000 * row.windowStartedAt, row.used) ∧
      now < 1000000 * (row.windowStartedAt + s.limits.window) := by
  have fits := before.window owner
  unfold WindowFits at fits
  cases stored : s.buckets ⟨owner, none⟩ with
  | none =>
      simp only [stored] at fits
      refine .inl ⟨windowBucket_absent s.limits now stored,
        fun userId amount instant member covered => ?_⟩
      rw [fits userId amount instant member] at covered
      cases covered
  | some row =>
      simp only [stored] at fits
      by_cases expired : 1000000 * (row.windowStartedAt + s.limits.window) ≤ now
      · refine .inl ⟨windowBucket_ended stored expired,
          fun userId amount instant member covered => ?_⟩
        have early := fits.2.2 userId amount instant member covered
        omega
      · exact .inr ⟨row, rfl, windowBucket_going stored expired, Nat.lt_of_not_le expired⟩

/-- The use of a window bucket is the sum since its start and the last change. -/
theorem AccountingInvariant.windowBucket_eq {s : QuotaState} (invariant : s.AccountingInvariant)
    (owner : Owner) (now : Nat) :
    (windowBucket s.limits s.buckets owner now).2 =
      windowTotal s.log owner (windowBucket s.limits s.buckets owner now).1 := by
  rcases invariant.windowBucket_cases owner now with ⟨fresh, entries⟩ | ⟨row, stored, going, _⟩
  · rw [fresh]
    refine (total_eq_zero fun userId amount instant member covered => ?_).symm
    have early := entries userId amount instant member covered
    exact decide_eq_false (by omega)
  · have fits := invariant.window owner
    simp only [WindowFits, stored] at fits
    rw [going]
    exact fits.1

/-- An accepted call keeps a window bucket of its owners in step with the history. -/
theorem AccountingInvariant.window_accepted {s : QuotaState} (before : s.AccountingInvariant)
    {userId amount now : Nat} {role : Role} {next : Buckets} (later : s.clock ≤ now)
    (accepted : consumeJobQuota s.limits s.buckets userId role amount now = .ok next)
    (owner : Owner) :
    WindowFits { s with
      buckets := next, clock := now, log := .accepted userId amount now :: s.log } owner := by
  have written := (consumeJobQuota_ok accepted).2 ⟨owner, none⟩
  have fits := before.window owner
  have positive := window_pos s.limits
  unfold WindowFits at fits ⊢
  cases covered : owner.covers userId with
  | true =>
      rw [if_pos covered] at written
      have row : (quotaCheck s.limits s.buckets role now ⟨owner, none⟩).row amount =
          ⟨(windowBucket s.limits s.buckets owner now).1 / 1000000,
            (windowBucket s.limits s.buckets owner now).2 + amount⟩ := rfl
      rw [row] at written
      simp only [written]
      have counts (start : Nat) (passed : start ≤ now) :
          windowTotal (.accepted userId amount now :: s.log) owner start =
            windowTotal s.log owner start + amount := by
        rw [windowTotal, sinceChange_accepted, total_accepted,
          if_pos ⟨covered, decide_eq_true passed⟩, Nat.add_comm]
        rfl
      rcases before.windowBucket_cases owner now with ⟨fresh, entries⟩ | ⟨old, stored, going, early⟩
      · rw [fresh]
        have none_ : windowTotal s.log owner (1000000 * (now / 1000000)) = 0 :=
          total_eq_zero fun userId amount instant member covered =>
            decide_eq_false (Nat.not_le_of_lt (entries userId amount instant member covered))
        refine ⟨?_, Nat.mul_div_le now 1000000, ?_⟩
        · rw [counts _ (Nat.mul_div_le now 1000000), none_]
        · rw [sinceChange_accepted]
          rintro user amount instant (_ | ⟨_, member⟩) counted
          · omega
          · have := entries user amount instant member counted
            omega
      · rw [stored] at fits
        obtain ⟨used, past, entries⟩ := fits
        rw [going]
        simp only [Nat.mul_div_cancel_left _ (Nat.succ_pos 999999)]
        refine ⟨?_, past.trans later, ?_⟩
        · rw [counts _ (past.trans later), used]
        · rw [sinceChange_accepted]
          rintro user amount instant (_ | ⟨_, member⟩) counted
          · exact early
          · exact entries user amount instant member counted
  | false =>
      rw [if_neg (by simp [covered])] at written
      simp only [written]
      split at fits
      · rename_i absent
        rw [sinceChange_accepted]
        rintro user amount instant (_ | ⟨_, member⟩)
        · exact covered
        · exact fits user amount instant member
      · rename_i row stored
        obtain ⟨used, past, entries⟩ := fits
        refine ⟨?_, past.trans later, ?_⟩
        · rw [used, windowTotal, windowTotal, sinceChange_accepted, total_accepted,
            if_neg (by simp [covered]), Nat.zero_add]
        · rw [sinceChange_accepted]
          rintro user amount instant (_ | ⟨_, member⟩) counted
          · rw [covered] at counted
            cases counted
          · exact entries user amount instant member counted

/-- An edit that changes no window key keeps the window. -/
theorem window_edit {limits : RateLimits} {payload : LimitKey → Option Nat}
    (valid : validLimits payload = true) (unchanged : changedWindow limits payload = false) :
    (limits.edit payload valid).window = limits.window := by
  have same : (payload .windowMinutes).getD (limits.value .windowMinutes) =
      limits.value .windowMinutes := by
    have kept := List.any_eq_false.mp unchanged .windowMinutes (by decide)
    cases written : payload .windowMinutes with
    | none => rfl
    | some minutes => simpa [written] using kept
  exact congrArg (· * 60) same

/-- A later clock keeps every bucket in step with the history. -/
theorem AccountingInvariant.tick {s : QuotaState} (before : s.AccountingInvariant) {now : Nat}
    (later : s.clock ≤ now) : AccountingInvariant { s with clock := now } := by
  refine ⟨fun _ _ _ member => (before.past _ _ _ member).trans later, fun owner period => ?_,
    fun owner => ?_⟩
  · have fits := before.calendar owner period
    unfold CalendarFits at fits ⊢
    cases stored : s.buckets ⟨owner, some period⟩ with
    | none =>
        simp only [stored] at fits ⊢
        exact fits
    | some row =>
        simp only [stored] at fits ⊢
        exact ⟨fits.1, fits.2.1.trans (calendarQuotaWindow_mono period later), fits.2.2⟩
  · have fits := before.window owner
    unfold WindowFits at fits ⊢
    cases stored : s.buckets ⟨owner, none⟩ with
    | none =>
        simp only [stored] at fits ⊢
        exact fits
    | some row =>
        simp only [stored] at fits ⊢
        exact ⟨fits.1, fits.2.1.trans later, fits.2.2⟩

/-- A change of the window starts every window bucket again and no calendar bucket. -/
theorem AccountingInvariant.changeWindow {s : QuotaState} (before : s.AccountingInvariant)
    (limits : RateLimits) :
    AccountingInvariant { s with
      limits := limits
      buckets := deleteWindowBuckets s.buckets
      log := .windowChanged :: s.log } := by
  refine ⟨?_, fun owner period => ?_, fun owner => ?_⟩
  · rintro userId amount instant (_ | ⟨_, member⟩)
    exact before.past userId amount instant member
  · have fits := before.calendar owner period
    unfold CalendarFits at fits ⊢
    have kept : deleteWindowBuckets s.buckets ⟨owner, some period⟩ =
        s.buckets ⟨owner, some period⟩ := rfl
    cases stored : s.buckets ⟨owner, some period⟩ with
    | none =>
        simp only [kept, stored] at fits ⊢
        rintro userId amount instant (_ | ⟨_, member⟩)
        exact fits userId amount instant member
    | some row =>
        simp only [kept, stored] at fits ⊢
        refine ⟨fits.1.trans (Nat.zero_add _).symm, fits.2.1, ?_⟩
        rintro userId amount instant (_ | ⟨_, member⟩) covered
        exact fits.2.2 userId amount instant member covered
  · unfold WindowFits
    have deleted : deleteWindowBuckets s.buckets ⟨owner, none⟩ = none := rfl
    simp only [deleted, sinceChange_windowChanged]
    exact nofun

/-- Each call and each edit keeps every bucket in step with the history. -/
theorem AccountingInvariant.step {s next : QuotaState} {event : QuotaEvent}
    (before : s.AccountingInvariant) (stepped : s.step event = some next) :
    next.AccountingInvariant := by
  cases event with
  | consume userId role amount now =>
      simp only [QuotaState.step] at stepped
      split at stepped
      · rename_i guard
        split at stepped <;> cases stepped
        · exact before.tick guard.1
        · rename_i buckets accepted
          refine ⟨?_, before.calendar_accepted guard.1 accepted,
            before.window_accepted guard.1 accepted⟩
          rintro user earlier instant (_ | ⟨_, member⟩)
          · exact le_rfl
          · exact (before.past _ _ _ member).trans guard.1
      · cases stepped
  | saveSettings payload =>
      simp only [QuotaState.step] at stepped
      split at stepped
      · rename_i valid
        split at stepped <;> cases stepped
        · exact before.changeWindow _
        · rename_i unchanged
          refine ⟨before.past, before.calendar, fun owner => ?_⟩
          have fits := before.window owner
          unfold WindowFits at fits ⊢
          rw [window_edit valid (by simpa using unchanged)]
          exact fits
      · cases stepped

end QuotaState

/-- The check of a bucket after an accepted call finds the amount on top of the use before. -/
theorem quotaCheck_used_of_ok {limits : RateLimits} {buckets next : Buckets}
    {userId amount now : Nat} {role : Role}
    (accepted : consumeJobQuota limits buckets userId role amount now = .ok next)
    {key : BucketKey} (member : key ∈ quotaKeys userId) :
    (quotaCheck limits next role now key).used =
      (quotaCheck limits buckets role now key).used + amount := by
  have written := (consumeJobQuota_ok accepted).2 key
  rw [if_pos (mem_quotaKeys.mp member)] at written
  obtain ⟨owner, period⟩ := key
  cases period with
  | some period =>
      have started : (quotaCheck limits buckets role now ⟨owner, some period⟩).row amount =
          ⟨(calendarQuotaWindow period now).1, calendarUsed buckets owner period now + amount⟩ := by
        simp [quotaCheck, QuotaCheck.row]
      rw [started] at written
      change calendarUsed next owner period now = calendarUsed buckets owner period now + amount
      rw [calendarUsed, written]
      exact if_pos rfl
  | none =>
      have row : (quotaCheck limits buckets role now ⟨owner, none⟩).row amount =
          ⟨(windowBucket limits buckets owner now).1 / 1000000,
            (windowBucket limits buckets owner now).2 + amount⟩ := rfl
      rw [row] at written
      change (windowBucket limits next owner now).2 = (windowBucket limits buckets owner now).2 + amount
      have positive := QuotaState.window_pos limits
      have running : ¬1000000 * ((windowBucket limits buckets owner now).1 / 1000000 +
          limits.window) ≤ now := by
        unfold windowBucket
        split
        · dsimp only
          omega
        · split
          · dsimp only
            omega
          · rename_i going
            dsimp only
            rw [Nat.mul_div_cancel_left _ (Nat.succ_pos 999999)]
            exact going
      rw [windowBucket, written]
      dsimp only
      rw [if_neg running]

/-- In every run of quota calls and settings edits, the use of each calendar bucket is the sum
of its period, the use of each window bucket is the sum since its start and the last change of
the window, an accepted call leaves no set limit passed, and a rejected call changes nothing. -/
theorem quota_accounting {limits : RateLimits} {clock : Nat} {events : List QuotaEvent}
    {s : QuotaState} (reached : Machine.run QuotaState.step (.initial limits clock) events = some s) :
    (∀ owner period now, s.clock ≤ now → calendarUsed s.buckets owner period now =
      calendarTotal s.log owner period (calendarQuotaWindow period now).1) ∧
    (∀ owner now, (windowBucket s.limits s.buckets owner now).2 =
      windowTotal s.log owner (windowBucket s.limits s.buckets owner now).1) ∧
    (∀ userId role amount now next,
      consumeJobQuota s.limits s.buckets userId role amount now = .ok next →
      ∀ key ∈ quotaKeys userId, (quotaCheck s.limits next role now key).limit ≠ 0 →
        (quotaCheck s.limits next role now key).used ≤
          (quotaCheck s.limits next role now key).limit) ∧
    ∀ userId role amount now exceeded next,
      consumeJobQuota s.limits s.buckets userId role amount now = .error exceeded →
      s.step (.consume userId role amount now) = some next →
      next.buckets = s.buckets ∧ next.log = s.log := by
  have invariant : s.AccountingInvariant :=
    Machine.run_invariant QuotaState.AccountingInvariant (fun _ _ _ before => before.step)
      (QuotaState.initial_accounting limits clock) reached
  refine ⟨fun owner period now => invariant.calendarUsed_eq owner period,
    fun owner now => invariant.windowBucket_eq owner now, ?_, ?_⟩
  · intro userId role amount now next accepted key member limited
    have passed := (consumeJobQuota_ok accepted).1 key member
    have limit : (quotaCheck s.limits next role now key).limit =
        (quotaCheck s.limits s.buckets role now key).limit := by
      obtain ⟨owner, period⟩ := key
      cases period <;> rfl
    rw [limit] at limited ⊢
    rw [quotaCheck_used_of_ok accepted member]
    simpa [QuotaCheck.refuses, limited] using passed
  · intro userId role amount now exceeded next rejected stepped
    simp only [QuotaState.step, rejected] at stepped
    split at stepped <;> cases stepped
    exact ⟨rfl, rfl⟩

/-- One job a minute for an account, three a day, and no other limit. -/
def oneJobAMinute : RateLimits where
  value := fun
    | .windowMinutes => 1
    | .window .user => 1
    | .calendar .user .daily => 3
    | _ => 0
  window_pos := by decide

/-- An account uses its window, is refused, and starts again after a change of the window. -/
def windowEdited : List QuotaEvent :=
  [.consume 7 .user 1 500000, .consume 7 .user 1 2000000,
    .saveSettings fun key => if key = .windowMinutes then some 2 else none,
    .consume 7 .user 1 3000000]

theorem windowEdited_run :
    ((Machine.run QuotaState.step (.initial oneJobAMinute 0) windowEdited).map fun s =>
      (s.log, s.clock, s.buckets ⟨.account 7, none⟩, s.buckets ⟨.account 7, some .daily⟩)) =
      some ([.accepted 7 1 3000000, .windowChanged, .accepted 7 1 500000], 3000000,
        some ⟨3, 1⟩, some ⟨0, 2⟩) := by
  decide +kernel

theorem quota_accounting_example :
    ∃ s, Machine.run QuotaState.step (.initial oneJobAMinute 0) windowEdited = some s ∧
      calendarUsed s.buckets (.account 7) .daily s.clock =
        calendarTotal s.log (.account 7) .daily (calendarQuotaWindow .daily s.clock).1 ∧
      (windowBucket s.limits s.buckets (.account 7) s.clock).2 =
        windowTotal s.log (.account 7) (windowBucket s.limits s.buckets (.account 7) s.clock).1 ∧
      s.buckets ⟨.account 7, some .daily⟩ = some ⟨0, 2⟩ ∧
      s.buckets ⟨.account 7, none⟩ = some ⟨3, 1⟩ := by
  obtain ⟨s, ran, seen⟩ := Option.map_eq_some_iff.mp windowEdited_run
  have exact_ := quota_accounting ran
  exact ⟨s, ran, exact_.1 (.account 7) .daily s.clock le_rfl, exact_.2.1 (.account 7) s.clock,
    congrArg (·.2.2.2) seen, congrArg (·.2.2.1) seen⟩

end SubtitleTranslator.Quotas
