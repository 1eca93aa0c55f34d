import SubtitleTranslator.Construction.Login

namespace SubtitleTranslator.Auth
open Library

section Rows
variable {Hash : Type}

/-- A lock is in force when its time is still to come. -/
theorem UserRow.locked_iff {row : UserRow Hash} {now : Nat} :
    row.locked now = true ↔ ∃ until_, row.lockedUntil = some until_ ∧ now < ofTimestamp until_ := by
  simp only [UserRow.locked, Option.any_eq_true, decide_eq_true_eq]

/-- A lock that is over stays over. -/
theorem UserRow.locked_mono {row : UserRow Hash} {now later : Nat} (passed : now ≤ later)
    (ended : row.locked now = false) : row.locked later = false := by
  rw [Bool.eq_false_iff, ne_eq, locked_iff] at ended ⊢
  rintro ⟨until_, stored, early⟩
  exact ended ⟨until_, stored, Nat.lt_of_le_of_lt passed early⟩

/-- A snapshot without a lock in force never matches a row with a lock in force. -/
theorem observedLockCondition_of_locked {user row : UserRow Hash} {now : Nat}
    (ended : user.locked now = false) (held : row.locked now = true) :
    observedLockCondition user.lockedUntil row.lockedUntil = false := by
  unfold UserRow.locked at ended held
  unfold observedLockCondition
  cases current : row.lockedUntil with
  | none => simp [current] at held
  | some until_ =>
      rw [current] at held
      cases observed : user.lockedUntil with
      | none => rfl
      | some seen =>
          rw [observed] at ended
          have different : until_ ≠ seen := by
            rintro rfl
            rw [ended] at held
            exact Bool.false_ne_true held
          simpa using different

theorem reserveAccountLoginAttempt_some {user row next : UserRow Hash}
    (reserved : reserveAccountLoginAttempt user row = some next) :
    row.failedLoginCount < loginFailureLimit ∧
      observedLockCondition user.lockedUntil row.lockedUntil = true ∧
      next = { row with failedLoginCount := row.failedLoginCount + 1 } := by
  unfold reserveAccountLoginAttempt at reserved
  split at reserved
  · rename_i guard
    exact ⟨guard.2.1, guard.2.2, (Option.some.inj reserved).symm⟩
  · cases reserved

theorem recordSuccessfulLogin_some [DecidableEq Hash] {user row next : UserRow Hash} {rehashed : Option Hash}
    (changed : recordSuccessfulLogin user rehashed row = some next) :
    observedLockCondition user.lockedUntil row.lockedUntil = true ∧
      next.failedLoginCount = 0 ∧ next.lockedUntil = none := by
  unfold recordSuccessfulLogin at changed
  split at changed
  · rename_i guard
    cases changed
    exact ⟨guard.2.2.2, rfl, rfl⟩
  · cases changed

end Rows

/-- An administrator unlock is the update that may end a lock early. -/
def LoginEvent.unlocks {Hash Password : Type} : LoginEvent Password Hash → Bool
  | .update change => change.unlock
  | _ => false

namespace LoginState
variable {Hash Password : Type}

/-- A reservation belongs to an interval that has begun and to the budget of that interval. -/
def Made (s : LoginState Hash) (reservation : Reservation) : Prop :=
  reservation.1 ≤ s.interval ∧ reservation.2 < loginFailureLimit ∧
    (reservation.1 = s.interval → reservation.2 < s.row.failedLoginCount)

/-- Each reservation was made once, is held by at most one request and is checked at most once. -/
structure BudgetInvariant (s : LoginState Hash) : Prop where
  within : s.row.failedLoginCount ≤ loginFailureLimit
  held : ∀ request user reservation, s.requests request = .reserved user reservation →
    s.Made reservation ∧ reservation ∉ s.checks
  distinct : ∀ first second user other reservation,
    s.requests first = .reserved user reservation →
    s.requests second = .reserved other reservation → first = second
  made : ∀ reservation ∈ s.checks, s.Made reservation
  once : s.checks.Nodup

/-- A step that makes no reservation and checks no password keeps the budget when it either
keeps the interval and the counter or begins a new interval. -/
theorem BudgetInvariant.frame {s next : LoginState Hash} (before : s.BudgetInvariant)
    (requests : ∀ request user reservation,
      next.requests request = .reserved user reservation →
      s.requests request = .reserved user reservation)
    (checks : next.checks = s.checks)
    (budget : next.interval = s.interval ∧ next.row.failedLoginCount = s.row.failedLoginCount ∨
      next.interval = s.interval + 1 ∧ next.row.failedLoginCount ≤ loginFailureLimit) :
    next.BudgetInvariant := by
  have kept (reservation : Reservation) (made : s.Made reservation) : next.Made reservation := by
    obtain ⟨begun, small, current⟩ := made
    rcases budget with ⟨interval, count⟩ | ⟨interval, _⟩
    · exact ⟨by omega, small, fun same => by rw [count]; exact current (by omega)⟩
    · exact ⟨by omega, small, fun same => by omega⟩
  refine ⟨?_, ?_, ?_, ?_, ?_⟩
  · have := before.within
    rcases budget with ⟨_, count⟩ | ⟨_, count⟩ <;> omega
  · intro request user reservation stage
    obtain ⟨made, unchecked⟩ := before.held _ _ _ (requests _ _ _ stage)
    exact ⟨kept _ made, by rwa [checks]⟩
  · intro first second user other reservation firstStage secondStage
    exact before.distinct _ _ _ _ _ (requests _ _ _ firstStage) (requests _ _ _ secondStage)
  · intro reservation member
    exact kept _ (before.made _ (checks ▸ member))
  · rw [checks]
    exact before.once

/-- A stage that is no reservation adds no holder. -/
theorem setRequest_reserved {s : LoginState Hash} {request other : Nat}
    {stage : LoginStage Hash} {user : UserRow Hash} {reservation : Reservation}
    (free : ∀ user reservation, stage ≠ .reserved user reservation)
    (holder : (s.setRequest request stage).requests other = .reserved user reservation) :
    s.requests other = .reserved user reservation := by
  by_cases same : other = request
  · subst same
    rw [setRequest_self] at holder
    exact absurd holder (free _ _)
  · rwa [setRequest_of_ne s same] at holder

/-- A reservation takes the next place of the current interval. -/
theorem BudgetInvariant.reserve {s : LoginState Hash} (before : s.BudgetInvariant)
    {request : Nat} {user row : UserRow Hash}
    (reserved : reserveAccountLoginAttempt user s.row = some row) :
    BudgetInvariant { s.setRequest request
        (.reserved user (s.interval, s.row.failedLoginCount)) with
      row := row
      reservations := (s.interval, s.row.failedLoginCount) :: s.reservations } := by
  obtain ⟨small, _, rfl⟩ := reserveAccountLoginAttempt_some reserved
  have fresh (reservation : Reservation) (made : s.Made reservation) :
      reservation ≠ (s.interval, s.row.failedLoginCount) := by
    rintro rfl
    exact Nat.lt_irrefl _ (made.2.2 rfl)
  have kept (reservation : Reservation) (made : s.Made reservation) :
      reservation.1 ≤ s.interval ∧ reservation.2 < loginFailureLimit ∧
        (reservation.1 = s.interval → reservation.2 < s.row.failedLoginCount + 1) :=
    ⟨made.1, made.2.1, fun same => Nat.lt_succ_of_lt (made.2.2 same)⟩
  have stages (other : Nat) (holder : UserRow Hash) (reservation : Reservation)
      (stage : (s.setRequest request
        (.reserved user (s.interval, s.row.failedLoginCount))).requests other =
          .reserved holder reservation) :
      other = request ∧ reservation = (s.interval, s.row.failedLoginCount) ∨
        other ≠ request ∧ s.requests other = .reserved holder reservation := by
    by_cases same : other = request
    · subst same
      rw [setRequest_self] at stage
      cases stage
      exact .inl ⟨rfl, rfl⟩
    · rw [setRequest_of_ne s same] at stage
      exact .inr ⟨same, stage⟩
  refine ⟨small, ?_, ?_, fun reservation member => kept _ (before.made _ member), before.once⟩
  · intro other holder reservation stage
    rcases stages other holder reservation stage with ⟨_, rfl⟩ | ⟨_, earlier⟩
    · exact ⟨⟨Nat.le_refl _, small, fun _ => Nat.lt_succ_self _⟩,
        fun member => fresh _ (before.made _ member) rfl⟩
    · obtain ⟨made, unchecked⟩ := before.held _ _ _ earlier
      exact ⟨kept _ made, unchecked⟩
  · intro first second holder other reservation firstStage secondStage
    rcases stages first holder reservation firstStage with ⟨rfl, rfl⟩ | ⟨_, firstEarlier⟩
    · rcases stages second other _ secondStage with ⟨rfl, _⟩ | ⟨_, secondEarlier⟩
      · rfl
      · exact absurd rfl (fresh _ (before.held _ _ _ secondEarlier).1)
    · rcases stages second other reservation secondStage with ⟨rfl, rfl⟩ | ⟨_, secondEarlier⟩
      · exact absurd rfl (fresh _ (before.held _ _ _ firstEarlier).1)
      · exact before.distinct _ _ _ _ _ firstEarlier secondEarlier

/-- A check spends the reservation that its request holds. -/
theorem BudgetInvariant.check {s : LoginState Hash} (before : s.BudgetInvariant)
    {request : Nat} {user : UserRow Hash} {reservation : Reservation} {stage : LoginStage Hash}
    (holder : s.requests request = .reserved user reservation)
    (free : ∀ user reservation, stage ≠ .reserved user reservation) :
    BudgetInvariant { s.setRequest request stage with checks := reservation :: s.checks } := by
  obtain ⟨made, unchecked⟩ := before.held _ _ _ holder
  refine ⟨before.within, ?_, ?_, ?_, List.nodup_cons.mpr ⟨unchecked, before.once⟩⟩
  · intro other owner kept stage
    have earlier := setRequest_reserved free stage
    obtain ⟨keptMade, keptUnchecked⟩ := before.held _ _ _ earlier
    refine ⟨keptMade, ?_⟩
    rintro (_ | ⟨_, member⟩)
    · have same := before.distinct _ _ _ _ _ holder earlier
      subst same
      exact free _ _ ((setRequest_self s request _).symm.trans stage)
    · exact keptUnchecked member
  · intro first second owner other kept firstStage secondStage
    exact before.distinct _ _ _ _ _ (setRequest_reserved free firstStage)
      (setRequest_reserved free secondStage)
  · rintro kept (_ | ⟨_, member⟩)
    · exact made
    · exact before.made _ member

theorem initial_budget (clock : Nat) (passwordHash : Hash) (role : Role) :
    (initial clock passwordHash role).BudgetInvariant :=
  ⟨Nat.zero_le _, nofun, nofun, nofun, List.nodup_nil⟩

/-- An interval has only as many checks as its budget has places. -/
theorem BudgetInvariant.checks_le {s : LoginState Hash} (invariant : s.BudgetInvariant)
    (interval : Nat) :
    (s.checks.filter (·.1 = interval)).length ≤ loginFailureLimit := by
  have places : ((s.checks.filter (·.1 = interval)).map Prod.snd).Nodup := by
    refine List.Nodup.map_on ?_ (invariant.once.filter _)
    intro first firstMember second secondMember same
    simp only [List.mem_filter, decide_eq_true_eq] at firstMember secondMember
    exact Prod.ext (firstMember.2.trans secondMember.2.symm) same
  have small : (s.checks.filter (·.1 = interval)).map Prod.snd ⊆ List.range loginFailureLimit := by
    intro place member
    obtain ⟨reservation, inChecks, rfl⟩ := List.mem_map.mp member
    exact List.mem_range.mpr (invariant.made _ (List.mem_filter.mp inChecks).1).2.1
  simpa using (places.subperm small).length_le

/-- These requests rely on a snapshot whose lock was over when they checked it. -/
def checkedUser : LoginStage Hash → Option (UserRow Hash)
  | .unlocked user => some user
  | .reserved user _ => some user
  | .verified user => some user
  | _ => none

/-- Requests past the lock check hold a snapshot without a lock in force, and a lock in force
comes with an empty counter. -/
structure LockInvariant (s : LoginState Hash) : Prop where
  checked : ∀ request user, checkedUser (s.requests request) = some user →
    user.locked s.clock = false
  spared : s.row.locked s.clock = true → s.row.failedLoginCount = 0

theorem initial_lock (clock : Nat) (passwordHash : Hash) (role : Role) :
    (initial clock passwordHash role).LockInvariant :=
  ⟨nofun, fun _ => rfl⟩

/-- A request that moves relies on an old snapshot, on a new one, or on none. -/
theorem LockInvariant.setRequest {s : LoginState Hash} (before : s.LockInvariant)
    {request : Nat} {stage : LoginStage Hash}
    (relies : ∀ user, checkedUser stage = some user → user.locked s.clock = false)
    (other : Nat) (user : UserRow Hash)
    (relied : checkedUser ((s.setRequest request stage).requests other) = some user) :
    user.locked s.clock = false := by
  by_cases same : other = request
  · subst same
    rw [setRequest_self] at relied
    exact relies user relied
  · rw [setRequest_of_ne s same] at relied
    exact before.checked _ _ relied

variable [DecidableEq Hash]

/-- These are the changes that an accepted event can make. -/
inductive Move (s : LoginState Hash) : LoginEvent Password Hash → LoginState Hash → Prop where
  | tick (instant : Nat) (later : s.clock ≤ instant) :
      Move s (.tick instant) { s with clock := instant }
  | read (request : Nat) (holder : s.requests request = .idle) :
      Move s (.read request) (s.setRequest request (.observed s.row))
  | passed (request : Nat) (validInput : Bool) (user : UserRow Hash)
      (holder : s.requests request = .observed user) (ended : user.locked s.clock = false) :
      Move s (.check request validInput) (s.setRequest request (.unlocked user))
  | stopped (request : Nat) (validInput : Bool) (user : UserRow Hash)
      (holder : s.requests request = .observed user) :
      Move s (.check request validInput) (s.setRequest request .idle)
  | reserved (request : Nat) (user row : UserRow Hash)
      (holder : s.requests request = .unlocked user)
      (granted : reserveAccountLoginAttempt user s.row = some row) :
      Move s (.reserve request)
        { s.setRequest request (.reserved user (s.interval, s.row.failedLoginCount)) with
          row := row
          reservations := (s.interval, s.row.failedLoginCount) :: s.reservations }
  | refused (request : Nat) (user : UserRow Hash) (holder : s.requests request = .unlocked user) :
      Move s (.reserve request) (s.setRequest request .idle)
  | matched (request : Nat) (password : Password) (user : UserRow Hash) (reservation : Reservation)
      (holder : s.requests request = .reserved user reservation) :
      Move s (.verify request password)
        { s.setRequest request (.verified user) with checks := reservation :: s.checks }
  | mismatched (request : Nat) (password : Password) (user : UserRow Hash)
      (reservation : Reservation) (holder : s.requests request = .reserved user reservation) :
      Move s (.verify request password)
        { s.setRequest request .failing with checks := reservation :: s.checks }
  | readClock (request : Nat) (holder : s.requests request = .failing) :
      Move s (.readClock request) (s.setRequest request (.locking s.clock))
  | locked (request reading : Nat) (holder : s.requests request = .locking reading)
      (exhausted : loginFailureLimit ≤ s.row.failedLoginCount) :
      Move s (.lockExhausted request)
        { s.setRequest request .idle with
          row := lockExhaustedAccount reading s.row
          interval := s.interval + 1 }
  | counted (request reading : Nat) (holder : s.requests request = .locking reading)
      (left : s.row.failedLoginCount < loginFailureLimit) :
      Move s (.lockExhausted request) (s.setRequest request .idle)
  | succeeded (request : Nat) (rehashed : Option Hash) (user row : UserRow Hash)
      (holder : s.requests request = .verified user)
      (changed : recordSuccessfulLogin user rehashed s.row = some row) :
      Move s (.succeed request rehashed)
        { s.setRequest request .idle with row := row, interval := s.interval + 1 }
  | lost (request : Nat) (rehashed : Option Hash) (user : UserRow Hash)
      (holder : s.requests request = .verified user)
      (unchanged : recordSuccessfulLogin user rehashed s.row = none) :
      Move s (.succeed request rehashed) (s.setRequest request .idle)
  | unlocked (change : UserChange Hash) (unlock : change.unlock = true) :
      Move s (.update change)
        { s with row := updateUser change s.row, interval := s.interval + 1 }
  | updated (change : UserChange Hash) (unlock : change.unlock = false) :
      Move s (.update change) { s with row := updateUser change s.row }
  | rotated : Move s .rotateSession { s with row := rotateVersion s.row }

/-- Each accepted event makes one of the listed changes. -/
theorem move_of_step {verify : Hash → Password → Bool} {s next : LoginState Hash}
    {event : LoginEvent Password Hash} (stepped : step verify s event = some next) :
    s.Move event next := by
  cases event with
  | tick instant =>
      simp only [step] at stepped
      split at stepped <;> cases stepped
      exact .tick instant ‹_›
  | read request =>
      simp only [step] at stepped
      split at stepped <;> cases stepped
      exact .read request ‹_›
  | check request validInput =>
      simp only [step] at stepped
      split at stepped
      · rename_i user holder
        split at stepped <;> cases stepped
        · rename_i open_
          exact .passed request validInput user holder (by simpa using open_.2.2)
        · exact .stopped request validInput user holder
      · cases stepped
  | reserve request =>
      simp only [step] at stepped
      split at stepped
      · rename_i user holder
        split at stepped <;> cases stepped
        · exact .reserved request user _ holder ‹_›
        · exact .refused request user holder
      · cases stepped
  | verify request password =>
      simp only [step] at stepped
      split at stepped
      · rename_i user reservation holder
        cases stepped
        split
        · exact .matched request password user reservation holder
        · exact .mismatched request password user reservation holder
      · cases stepped
  | readClock request =>
      simp only [step] at stepped
      split at stepped <;> cases stepped
      exact .readClock request ‹_›
  | lockExhausted request =>
      simp only [step] at stepped
      split at stepped
      · rename_i reading holder
        cases stepped
        by_cases exhausted : loginFailureLimit ≤ s.row.failedLoginCount
        · rw [if_pos exhausted]
          exact .locked request reading holder exhausted
        · rw [if_neg exhausted, lockExhaustedAccount, if_neg exhausted]
          exact .counted request reading holder (Nat.lt_of_not_le exhausted)
      · cases stepped
  | succeed request rehashed =>
      simp only [step] at stepped
      split at stepped
      · rename_i user holder
        split at stepped <;> cases stepped
        · exact .succeeded request rehashed user _ holder ‹_›
        · exact .lost request rehashed user holder ‹_›
      · cases stepped
  | update change =>
      cases stepped
      cases unlock : change.unlock with
      | true => exact .unlocked change unlock
      | false => exact .updated change unlock
  | rotateSession =>
      cases stepped
      exact .rotated

/-- An event moves no request but its own. -/
theorem Move.requests_of_ne {s next : LoginState Hash} {event : LoginEvent Password Hash}
    (moved : s.Move event next) {other : Nat} (different : event.request? ≠ some other) :
    next.requests other = s.requests other := by
  cases moved with
  | tick _ _ | rotated | unlocked _ _ | updated _ _ => rfl
  | _ => exact setRequest_of_ne s (fun same => different (congrArg some same.symm)) _

/-- Each change of the machine keeps the budget. -/
theorem BudgetInvariant.move {s next : LoginState Hash} {event : LoginEvent Password Hash}
    (before : s.BudgetInvariant) (moved : s.Move event next) : next.BudgetInvariant := by
  cases moved with
  | tick _ _ => exact before.frame (fun _ _ _ stage => stage) rfl (.inl ⟨rfl, rfl⟩)
  | rotated => exact before.frame (fun _ _ _ stage => stage) rfl (.inl ⟨rfl, rfl⟩)
  | read _ _ | passed _ _ _ _ _ | stopped _ _ _ _ | refused _ _ _ | readClock _ _ | counted _ _ _ _
  | lost _ _ _ _ _ =>
      exact before.frame (fun _ _ _ => setRequest_reserved nofun) rfl (.inl ⟨rfl, rfl⟩)
  | reserved _ _ _ _ granted => exact before.reserve granted
  | matched _ _ _ _ holder => exact before.check holder nofun
  | mismatched _ _ _ _ holder => exact before.check holder nofun
  | locked _ reading _ exhausted =>
      refine before.frame (fun _ _ _ => setRequest_reserved nofun) rfl (.inr ⟨rfl, ?_⟩)
      simp [lockExhaustedAccount, exhausted]
  | succeeded _ _ _ _ _ changed =>
      refine before.frame (fun _ _ _ => setRequest_reserved nofun) rfl (.inr ⟨rfl, ?_⟩)
      exact (recordSuccessfulLogin_some changed).2.1 ▸ Nat.zero_le _
  | unlocked change unlock =>
      refine before.frame (fun _ _ _ stage => stage) rfl (.inr ⟨rfl, ?_⟩)
      simp [updateUser, unlock]
  | updated change unlock =>
      refine before.frame (fun _ _ _ stage => stage) rfl (.inl ⟨rfl, ?_⟩)
      simp [updateUser, unlock]

/-- Each change of the machine keeps the snapshots and the locks apart. -/
theorem LockInvariant.move {s next : LoginState Hash} {event : LoginEvent Password Hash}
    (before : s.LockInvariant) (moved : s.Move event next) : next.LockInvariant := by
  cases moved with
  | tick instant later =>
      refine ⟨fun request user relied => UserRow.locked_mono later (before.checked _ _ relied), ?_⟩
      intro held
      by_contra spent
      have ended : s.row.locked s.clock = false := by
        simpa using mt before.spared spent
      have := UserRow.locked_mono later ended
      rw [this] at held
      exact Bool.false_ne_true held
  | read _ _ | stopped _ _ _ _ | refused _ _ _ | readClock _ _ | counted _ _ _ _ | lost _ _ _ _ _ =>
      exact ⟨before.setRequest nofun, before.spared⟩
  | passed request validInput user holder ended =>
      refine ⟨before.setRequest ?_, before.spared⟩
      rintro _ ⟨⟩
      exact ended
  | reserved request user row holder granted =>
      have ended : user.locked s.clock = false :=
        before.checked request user (by rw [holder]; rfl)
      refine ⟨before.setRequest ?_, fun held => ?_⟩
      · rintro _ ⟨⟩
        exact ended
      · obtain ⟨_, observed, rfl⟩ := reserveAccountLoginAttempt_some granted
        rw [observedLockCondition_of_locked ended held] at observed
        exact absurd observed Bool.false_ne_true
  | matched request password user reservation holder =>
      refine ⟨before.setRequest ?_, before.spared⟩
      rintro _ ⟨⟩
      exact before.checked request user (by rw [holder]; rfl)
  | mismatched request password user reservation holder =>
      exact ⟨before.setRequest nofun, before.spared⟩
  | locked request reading holder exhausted =>
      refine ⟨before.setRequest nofun, fun _ => ?_⟩
      simp [lockExhaustedAccount, exhausted]
  | succeeded request rehashed user row holder changed =>
      exact ⟨before.setRequest nofun, fun _ => (recordSuccessfulLogin_some changed).2.1⟩
  | unlocked change unlock =>
      refine ⟨before.checked, fun _ => ?_⟩
      simp [updateUser, unlock]
  | updated change unlock =>
      refine ⟨before.checked, fun held => ?_⟩
      simp only [updateUser, unlock] at held ⊢
      exact before.spared held
  | rotated => exact ⟨before.checked, before.spared⟩

/-- The clock never goes back. -/
theorem Move.clock_le {s next : LoginState Hash} {event : LoginEvent Password Hash}
    (moved : s.Move event next) : s.clock ≤ next.clock := by
  cases moved with
  | tick instant later => exact later
  | _ => exact Nat.le_refl _

/-- A lock in force stays as it is and refuses every reservation, an unlock apart. -/
theorem LockInvariant.held_move {s next : LoginState Hash} {event : LoginEvent Password Hash}
    (before : s.LockInvariant) (held : s.row.locked s.clock = true)
    (kept : event.unlocks = false) (moved : s.Move event next) :
    next.row.lockedUntil = s.row.lockedUntil ∧ next.reservations = s.reservations := by
  have mismatch (request : Nat) (user : UserRow Hash)
      (relied : checkedUser (s.requests request) = some user) :
      observedLockCondition user.lockedUntil s.row.lockedUntil = false :=
    observedLockCondition_of_locked (before.checked _ _ relied) held
  cases moved with
  | reserved request user row holder granted =>
      have observed := (reserveAccountLoginAttempt_some granted).2.1
      rw [mismatch request user (by rw [holder]; rfl)] at observed
      exact absurd observed Bool.false_ne_true
  | locked request reading holder exhausted =>
      rw [before.spared held] at exhausted
      exact absurd exhausted (by decide)
  | succeeded request rehashed user row holder changed =>
      have observed := (recordSuccessfulLogin_some changed).1
      rw [mismatch request user (by rw [holder]; rfl)] at observed
      exact absurd observed Bool.false_ne_true
  | unlocked change unlock =>
      change change.unlock = false at kept
      rw [unlock] at kept
      exact absurd kept.symm Bool.false_ne_true
  | updated change unlock => exact ⟨by simp [updateUser, unlock], rfl⟩
  | _ => exact ⟨rfl, rfl⟩

variable {verify : Hash → Password → Bool}

/-- Every reachable state keeps the budget and the locks. -/
theorem run_budget_lock {s last : LoginState Hash} {events : List (LoginEvent Password Hash)}
    (budget : s.BudgetInvariant) (lock : s.LockInvariant)
    (reached : Machine.run (step verify) s events = some last) :
    last.BudgetInvariant ∧ last.LockInvariant :=
  Machine.run_invariant (fun s => s.BudgetInvariant ∧ s.LockInvariant)
    (fun _ _ _ before stepped =>
      ⟨before.1.move (move_of_step stepped), before.2.move (move_of_step stepped)⟩)
    ⟨budget, lock⟩ reached

/-- A run moves no request but those that its events name. -/
theorem run_requests_of_ne {s last : LoginState Hash} {events : List (LoginEvent Password Hash)}
    {other : Nat} (different : ∀ event ∈ events, event.request? ≠ some other)
    (ran : Machine.run (step verify) s events = some last) :
    last.requests other = s.requests other := by
  have apart : Machine.Meets (step verify) (fun _ event => event.request? ≠ some other) s events :=
    Machine.meets_of_forall _ fun event member _ => different event member
  refine Machine.run_invariant_of_meets (fun now => now.requests other = s.requests other) ?_
    rfl apart ran
  intro now event next before different stepped
  exact ((move_of_step stepped).requests_of_ne different).trans before

/-- A lock stays in force along every run without an unlock that ends before the lock does. -/
theorem LockInvariant.held_run {s last : LoginState Hash}
    {events : List (LoginEvent Password Hash)} {until_ : Nat} (before : s.LockInvariant)
    (lock : s.row.lockedUntil = some until_) (kept : ∀ event ∈ events, event.unlocks = false)
    (ran : Machine.run (step verify) s events = some last)
    (early : last.clock < ofTimestamp until_) :
    last.row.lockedUntil = some until_ ∧ last.reservations = s.reservations := by
  let Held (now : LoginState Hash) : Prop :=
    now.LockInvariant ∧ (now.clock < ofTimestamp until_ →
      now.row.lockedUntil = some until_ ∧ now.reservations = s.reservations)
  have keeping : Machine.Meets (step verify) (fun _ event => event.unlocks = false) s events :=
    Machine.meets_of_forall _ fun event member _ => kept event member
  have carried : Held last := by
    refine Machine.run_invariant_of_meets Held ?_ ⟨before, fun _ => ⟨lock, rfl⟩⟩ keeping ran
    intro now event next held keeps stepped
    have moved := move_of_step stepped
    refine ⟨held.1.move moved, fun soon => ?_⟩
    obtain ⟨stored, unchanged⟩ := held.2 (Nat.lt_of_le_of_lt moved.clock_le soon)
    have inForce : now.row.locked now.clock = true :=
      UserRow.locked_iff.mpr ⟨until_, stored, Nat.lt_of_le_of_lt moved.clock_le soon⟩
    obtain ⟨same, none_⟩ := held.1.held_move inForce keeps moved
    exact ⟨same.trans stored, none_.trans unchanged⟩
  exact carried.2 early

end LoginState

section Runs
variable {Hash Password : Type} [DecidableEq Hash] {verify : Hash → Password → Bool}

/-- In every run, each interval between two resets of the counter has at most
`loginFailureLimit` passwords checked on its reservations, and a lock lasts until its time
unless an administrator unlocks the account. -/
theorem parallel_guesses_within_budget {clock : Nat} {passwordHash : Hash} {role : Role}
    {events : List (LoginEvent Password Hash)} {s : LoginState Hash}
    (reached : Machine.run (LoginState.step verify) (.initial clock passwordHash role) events =
      some s) :
    (∀ interval, (s.checks.filter (·.1 = interval)).length ≤ loginFailureLimit) ∧
      ∀ until_ later last, s.row.lockedUntil = some until_ →
        (∀ event ∈ later, event.unlocks = false) →
        Machine.run (LoginState.step verify) s later = some last →
        last.clock < ofTimestamp until_ →
        last.row.lockedUntil = some until_ ∧ last.reservations = s.reservations := by
  obtain ⟨budget, lock⟩ := LoginState.run_budget_lock (LoginState.initial_budget ..)
    (LoginState.initial_lock ..) reached
  exact ⟨budget.checks_le, fun _ _ _ stored kept ran early => lock.held_run stored kept ran early⟩

/-- One login request sends these events when its password is wrong. -/
def wrongGuess (request password : Nat) : List (LoginEvent Nat Nat) :=
  [.read request, .check request true, .reserve request, .verify request password,
    .readClock request, .lockExhausted request]

/-- Five wrong guesses lock the account for fifteen minutes. -/
theorem fiveGuesses_run :
    (Machine.run (LoginState.step fun hash password : Nat => hash == password)
      (.initial 0 7 .user) ((List.range 5).flatMap fun request => wrongGuess request 1)).map
      (fun s => (s.checks.length, s.row.lockedUntil)) = some (5, some 900) := by
  decide +kernel

theorem parallel_guesses_within_budget_example :
    ∃ s, Machine.run (LoginState.step fun hash password : Nat => hash == password)
        (.initial 0 7 .user) ((List.range 5).flatMap fun request => wrongGuess request 1) = some s ∧
      s.checks.length = 5 ∧ s.row.lockedUntil = some 900 ∧
      (∀ interval, (s.checks.filter (·.1 = interval)).length ≤ loginFailureLimit) ∧
      ∀ until_ later last, s.row.lockedUntil = some until_ →
        (∀ event ∈ later, event.unlocks = false) →
        Machine.run (LoginState.step fun hash password : Nat => hash == password) s later =
          some last →
        last.clock < ofTimestamp until_ →
        last.row.lockedUntil = some until_ ∧ last.reservations = s.reservations := by
  obtain ⟨s, ran, seen⟩ := Option.map_eq_some_iff.mp fiveGuesses_run
  exact ⟨s, ran, congrArg Prod.fst seen, congrArg Prod.snd seen,
    parallel_guesses_within_budget ran⟩

end Runs

end SubtitleTranslator.Auth
