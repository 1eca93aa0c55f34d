import SubtitleTranslator.Proof.LoginBudget

namespace SubtitleTranslator.Auth
open Library

/-- A request holds a reservation from the reservation to its answer. -/
def LoginStage.holds {Hash : Type} : LoginStage Hash → Prop
  | .reserved .. | .failing | .locking _ | .verified _ => True
  | _ => False

namespace LoginState
variable {Hash Password : Type}

/-- An exhausted counter is still to be handled by a request that holds a reservation. -/
def ExhaustionInvariant (s : LoginState Hash) : Prop :=
  s.row.failedLoginCount < loginFailureLimit ∨ ∃ request, (s.requests request).holds

/-- A request that holds no reservation can move without losing a holder. -/
theorem ExhaustionInvariant.setRequest {s next : LoginState Hash} (before : s.ExhaustionInvariant)
    (request : Nat) {stage : LoginStage Hash} (free : ¬ (s.requests request).holds)
    (requests : next.requests = (s.setRequest request stage).requests)
    (count : next.row.failedLoginCount = s.row.failedLoginCount) : next.ExhaustionInvariant := by
  rcases before with left | ⟨holder, held⟩
  · exact .inl (count ▸ left)
  · have different : holder ≠ request := by
      rintro rfl
      exact free held
    exact .inr ⟨holder, by rwa [requests, setRequest_of_ne s different]⟩

theorem initial_exhaustion (clock : Nat) (passwordHash : Hash) (role : Role) :
    (initial clock passwordHash role).ExhaustionInvariant :=
  .inl (Nat.zero_lt_succ 4)

variable [DecidableEq Hash]

/-- A verified request whose guarded UPDATE matches no row leaves the counter below the limit
or leaves another request with a reservation. -/
def LostSuccessIsHandled (s : LoginState Hash) : LoginEvent Password Hash → Prop
  | .succeed request rehashed =>
      ∀ user, s.requests request = .verified user →
        recordSuccessfulLogin user rehashed s.row = none →
        s.row.failedLoginCount < loginFailureLimit ∨
          ∃ other, other ≠ request ∧ (s.requests other).holds
  | _ => True

/-- Each change under the condition leaves an exhausted counter to a holder. -/
theorem ExhaustionInvariant.move {s next : LoginState Hash} {event : LoginEvent Password Hash}
    (before : s.ExhaustionInvariant) (handled : s.LostSuccessIsHandled event)
    (moved : s.Move event next) : next.ExhaustionInvariant := by
  cases moved with
  | tick _ _ | rotated => exact before
  | read request holder | passed request _ _ holder _ | stopped request _ _ holder
  | refused request _ holder =>
      exact before.setRequest request (by rw [holder]; exact id) rfl rfl
  | reserved request _ _ _ _ | matched request _ _ _ _ | mismatched request _ _ _ _
  | readClock request _ =>
      refine .inr ⟨request, ?_⟩
      simp [LoginStage.holds]
  | locked request reading holder exhausted =>
      refine .inl ?_
      rw [lockExhaustedAccount, if_pos exhausted]
      exact Nat.zero_lt_succ 4
  | counted request reading holder left => exact .inl left
  | succeeded request rehashed user row holder changed =>
      refine .inl ?_
      rw [(recordSuccessfulLogin_some changed).2.1]
      decide
  | lost request rehashed user holder unchanged =>
      rcases handled user holder unchanged with left | ⟨other, different, held⟩
      · exact .inl left
      · exact .inr ⟨other, by rwa [setRequest_of_ne s different]⟩
  | unlocked change unlock => exact .inl (by simp [updateUser, unlock, loginFailureLimit])
  | updated change unlock =>
      rcases before with left | held
      · exact .inl (by simpa [updateUser, unlock] using left)
      · exact .inr held

variable {verify : Hash → Password → Bool}

/-- A login that starts with places left and no lock in force gets a reservation. -/
theorem reserve_accepted {s : LoginState Hash} {request : Nat}
    (idle : s.requests request = .idle) (active : s.row.active = true)
    (left : s.row.failedLoginCount < loginFailureLimit) (ended : s.row.locked s.clock = false) :
    ∃ next, Machine.run (step verify) s [.read request, .check request true, .reserve request] =
        some next ∧
      next.reservations = (s.interval, s.row.failedLoginCount) :: s.reservations := by
  have observed : observedLockCondition s.row.lockedUntil s.row.lockedUntil = true := by
    unfold observedLockCondition
    cases s.row.lockedUntil <;> simp
  have granted : reserveAccountLoginAttempt s.row s.row =
      some { s.row with failedLoginCount := s.row.failedLoginCount + 1 } :=
    if_pos ⟨active, left, observed⟩
  have readStep : step verify s (.read request) = some (s.setRequest request (.observed s.row)) := by
    simp only [step, idle]
  have checkStep : step verify (s.setRequest request (.observed s.row)) (.check request true) =
      some ((s.setRequest request (.observed s.row)).setRequest request (.unlocked s.row)) := by
    simp only [step, setRequest_self]
    exact if_pos ⟨trivial, active, by simp [setRequest, ended]⟩
  have reserveStep : ∃ next,
      step verify ((s.setRequest request (.observed s.row)).setRequest request (.unlocked s.row))
        (.reserve request) = some next ∧
      next.reservations = (s.interval, s.row.failedLoginCount) :: s.reservations := by
    simp only [step, setRequest, Function.update_self, granted]
    exact ⟨_, rfl, rfl⟩
  obtain ⟨next, stepped, logged⟩ := reserveStep
  refine ⟨next, ?_, logged⟩
  exact (Machine.run_cons _).mpr ⟨_, readStep, (Machine.run_cons _).mpr ⟨_, checkStep,
    (Machine.run_cons _).mpr ⟨_, stepped, rfl⟩⟩⟩

/-- Every run under the condition leaves an exhausted counter to a holder. -/
theorem run_exhaustion {s last : LoginState Hash} {events : List (LoginEvent Password Hash)}
    (start : s.ExhaustionInvariant)
    (handled : Machine.Meets (step verify) LostSuccessIsHandled s events)
    (reached : Machine.run (step verify) s events = some last) : last.ExhaustionInvariant :=
  Machine.run_invariant_of_meets ExhaustionInvariant
    (fun _ _ _ before handled stepped => before.move handled (move_of_step stepped))
    start handled reached

end LoginState

section Runs
variable {Hash Password : Type} [DecidableEq Hash] {verify : Hash → Password → Bool}

/-- The account accepts attempts again by itself: with no login in flight its counter is below
the limit, and with no lock in force the next login gets a reservation. -/
def LoginState.Recovers (verify : Hash → Password → Bool) (s : LoginState Hash) : Prop :=
  (∀ request, s.requests request = .idle) →
    s.row.failedLoginCount < loginFailureLimit ∧
      (s.row.active = true → s.row.locked s.clock = false → ∀ request, ∃ next,
        Machine.run (LoginState.step verify) s
          [.read request, .check request true, .reserve request] = some next ∧
        next.reservations = (s.interval, s.row.failedLoginCount) :: s.reservations)

/-- The fifth login has the right password, but a role change commits before its UPDATE. -/
def lostFifthLogin : List (LoginEvent Nat Nat) :=
  ((List.range 4).flatMap fun request => wrongGuess request 1) ++
    [.read 4, .check 4 true, .reserve 4, .verify 4 7, .update { role := some .admin },
      .succeed 4 none]

theorem lostFifthLogin_run :
    (Machine.run (LoginState.step fun hash password : Nat => hash == password)
      (.initial 0 7 .user) lostFifthLogin).map
      (fun s => (s.row.failedLoginCount, s.row.lockedUntil, (List.range 5).map s.requests)) =
        some (5, none, List.replicate 5 .idle) := by
  decide +kernel

end Runs

end SubtitleTranslator.Auth
