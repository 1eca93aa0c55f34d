import SubtitleTranslator.Construction.EmailSends
import SubtitleTranslator.Proof.SecondFactor
import SubtitleTranslator.Proof.FactorEffects

namespace SubtitleTranslator.Auth
open Library Library.Text

section
variable {Hash Password Secret Digest : Type}

/-- A sending is reserved in the columns of a fixed-window counter. -/
theorem emailLimit_counter (account : MfaAccount Secret Digest) (now : Nat) :
    (emailLimit account now).toOption.map (fun change => (change account).sendCounter) =
      account.sendCounter.allow 60 3600 10 now := by
  unfold emailLimit WindowCounter.allow MfaAccount.sendCounter
  dsimp only
  by_cases cooling : now < account.nextSend
  · rw [if_pos cooling, if_pos cooling]
    rfl
  · rw [if_neg cooling, if_neg cooling]
    by_cases fresh : account.sendWindow + 3600 ≤ now
    · rw [if_pos fresh, if_neg (by simp [fresh])]
      simp [Except.toOption, fresh]
    · by_cases full : 10 ≤ account.sendCount
      · rw [if_pos ⟨fresh, full⟩, if_neg fresh, if_pos full]
        rfl
      · rw [if_neg fun both => full both.2, if_neg fresh, if_neg full]
        simp [Except.toOption, fresh]

theorem emailAllowed_ok {account : MfaAccount Secret Digest} {now : Nat}
    {change : MfaAccount Secret Digest → MfaAccount Secret Digest}
    (allowed : emailLimit account now = .ok change) : emailAllowed account now = true := by
  rw [emailAllowed, allowed]
  rfl

theorem emailAllowed_error {account : MfaAccount Secret Digest} {now : Nat} {error : MfaError}
    (limited : emailLimit account now = .error error) : emailAllowed account now = false := by
  rw [emailAllowed, limited]
  rfl

theorem setBudget_sendCounter (account : MfaAccount Secret Digest) (scope : Scope)
    (failures lockedUntil : Nat) :
    (account.setBudget scope failures lockedUntil).sendCounter = account.sendCounter := by
  cases scope <;> rfl

/-- The columns of `email_limit` change for an email and not otherwise. -/
def SendEffect (now : Nat) (rows : Nat → MfaAccount Secret Digest) (userId : Nat) (sent : Bool)
    (next : Nat → MfaAccount Secret Digest) : Prop :=
  ∃ row, next = Function.update rows userId row ∧
    if sent then (rows userId).sendCounter.allow 60 3600 10 now = some row.sendCounter
    else row.sendCounter = (rows userId).sendCounter

variable {now : Nat} {rows : Nat → MfaAccount Secret Digest} {userId : Nat}

theorem SendEffect.unchanged : SendEffect now rows userId false rows :=
  ⟨rows userId, (Function.update_eq_self userId rows).symm, rfl⟩

variable [Inhabited Secret]

theorem SendEffect.refused {db locked : MfaDb Hash Secret Digest} (row : locked.row = db.row) :
    SendEffect now db.row userId false locked.row := by
  rw [row]
  exact .unchanged

/-- A change of the locked row that keeps the columns sends nothing. -/
theorem SendEffect.keep {db locked : MfaDb Hash Secret Digest} (row : locked.row = db.row)
    (stored : locked.accounts userId = some (db.row userId))
    {change : MfaAccount Secret Digest → MfaAccount Secret Digest}
    (keeps : ∀ account, (change account).sendCounter = account.sendCounter) :
    SendEffect now db.row userId false (locked.changeAccount userId change).row :=
  ⟨change (db.row userId), by rw [MfaDb.row_changeAccount stored, row], keeps _⟩

/-- The change of an allowed email. -/
theorem SendEffect.reserve {db locked : MfaDb Hash Secret Digest} (row : locked.row = db.row)
    (stored : locked.accounts userId = some (db.row userId))
    {change : MfaAccount Secret Digest → MfaAccount Secret Digest}
    (allowed : emailLimit (db.row userId) now = .ok change) :
    SendEffect now db.row userId true (locked.changeAccount userId change).row := by
  refine ⟨change (db.row userId), by rw [MfaDb.row_changeAccount stored, row], ?_⟩
  rw [if_pos rfl, ← emailLimit_counter, allowed]
  rfl

theorem failed_sendEffect {db locked : MfaDb Hash Secret Digest} {scope : Scope}
    (row : locked.row = db.row) (stored : locked.accounts userId = some (db.row userId))
    (error : MfaError) :
    SendEffect now db.row userId false
      (failed locked userId (db.row userId) scope now error).1.row := by
  unfold failed
  split
  · exact SendEffect.keep row stored fun account => setBudget_sendCounter account scope _ _
  · exact SendEffect.keep row stored fun account => setBudget_sendCounter account scope _ _

/-- An operation on the locked account, with the test of `sends` for its body. -/
theorem withAccount_sendEffect (db : MfaDb Hash Secret Digest) (userId version : Nat)
    (scope : Scope)
    {asks : MfaDb Hash Secret Digest → UserRow Hash → MfaAccount Secret Digest → Bool}
    {body : MfaDb Hash Secret Digest → UserRow Hash → MfaAccount Secret Digest →
      MfaDb Hash Secret Digest × MfaReply Hash}
    (effect : ∀ locked user, locked.row = db.row →
      locked.accounts userId = some (db.row userId) →
      SendEffect now db.row userId (asks locked user (db.row userId) &&
        emailAllowed (db.row userId) now) (body locked user (db.row userId)).1.row) :
    SendEffect now db.row userId
      (FactorOperation.allowedUnderLock now db userId version scope asks)
      (withAccount db userId version scope now body).1.row := by
  obtain ⟨row, -, stored⟩ := db.lockAccount_rows userId version
  unfold FactorOperation.allowedUnderLock withAccount
  generalize db.lockAccount userId version = result at row stored
  obtain ⟨locked, found⟩ := result
  dsimp only at row
  cases found with
  | none => exact SendEffect.refused row
  | some pair =>
      obtain ⟨user, account⟩ := pair
      have here := stored user account rfl
      have known : db.row userId = account := by
        rw [← row]
        exact MfaDb.row_eq here
      subst known
      dsimp only
      cases guard : guardBudget (db.row userId) scope now with
      | some error => exact SendEffect.refused row
      | none => exact effect locked user row here

/-- An operation on the locked account that does not ask. -/
theorem withAccount_silent (db : MfaDb Hash Secret Digest) (userId version : Nat) (scope : Scope)
    {body : MfaDb Hash Secret Digest → UserRow Hash → MfaAccount Secret Digest →
      MfaDb Hash Secret Digest × MfaReply Hash}
    (effect : ∀ locked user, locked.row = db.row →
      locked.accounts userId = some (db.row userId) →
      SendEffect now db.row userId false (body locked user (db.row userId)).1.row) :
    SendEffect now db.row userId false (withAccount db userId version scope now body).1.row := by
  have silent : FactorOperation.allowedUnderLock now db userId version scope
      (fun _ _ _ => false) = false := by
    unfold FactorOperation.allowedUnderLock
    split
    · rfl
    · split <;> rfl
  rw [← silent]
  exact withAccount_sendEffect db userId version scope effect

variable (keys : MfaKeys Hash Password Secret Digest) (db : MfaDb Hash Secret Digest)

section Silent
variable [DecidableEq Digest]

omit [Inhabited Secret] in
/-- A proved factor keeps the columns. -/
theorem checkFactor_sendCounter {account : MfaAccount Secret Digest} {code : Option Str}
    {challenge : Option (Challenge Secret Digest)}
    {change : MfaAccount Secret Digest → MfaAccount Secret Digest}
    (proved : checkFactor keys account code challenge now = .ok (some change))
    (row : MfaAccount Secret Digest) : (change row).sendCounter = row.sendCounter := by
  rw [checkFactor_eq] at proved
  cases result : factorProof keys account code challenge now with
  | error failure =>
      rw [result] at proved
      cases proved
  | ok proof =>
      rw [result] at proved
      cases proof with
      | none => cases proved
      | some proof =>
          cases proved
          cases proof <;> rfl

theorem verifyLogin_sendEffect (claims : ChallengeClaims) (code : Option Str) :
    SendEffect now db.row claims.sub false (verifyLogin keys now db claims code).1.row := by
  unfold verifyLogin
  split
  · exact .unchanged
  · apply withAccount_silent
    intro locked user row stored
    split
    · split
      · exact failed_sendEffect row stored _
      · exact failed_sendEffect row stored _
      · rename_i change proved
        show SendEffect now db.row claims.sub false
          ((locked.changeAccount claims.sub change).changeAccount claims.sub
            (·.setBudget .login 0 0)).row
        rw [MfaDb.changeAccount_changeAccount]
        exact SendEffect.keep row stored fun account =>
          (setBudget_sendCounter (change account) .login 0 0).trans
            (checkFactor_sendCounter keys proved account)
    · exact SendEffect.refused row

theorem confirm_sendEffect (token : Claims) (claims : ChallengeClaims) (code : Option Str)
    (transport : Transport) (draws : MfaDraws Secret) :
    SendEffect now db.row claims.sub false
      (confirm keys draws now db token claims code transport).1.row := by
  unfold confirm
  split
  · exact .unchanged
  · apply withAccount_silent
    intro locked user row stored
    split
    · dsimp only
      split
      · exact failed_sendEffect row stored _
      · exact failed_sendEffect row stored _
      · show SendEffect now db.row claims.sub false (newRecoveryCodes keys draws
          ((locked.changeAccount claims.sub _).changeAccount claims.sub _) claims.sub).row
        rw [newRecoveryCodes, MfaDb.changeAccount_changeAccount, MfaDb.changeAccount_changeAccount]
        exact SendEffect.keep row stored fun account => setBudget_sendCounter _ .manage 0 0
    · exact SendEffect.refused row

theorem changeMethod_sendEffect (regenerate : Bool) (token : Claims)
    (presented : Option ChallengeClaims) (password : Password) (code : Option Str)
    (transport : Transport) (draws : MfaDraws Secret) :
    SendEffect now db.row token.sub false
      (changeMethod keys draws now regenerate db token presented password code transport).1.row := by
  unfold changeMethod
  apply withAccount_silent
  intro locked user row stored
  split
  · exact SendEffect.refused row
  · split
    · exact failed_sendEffect row stored _
    · dsimp only
      split
      · exact failed_sendEffect row stored _
      · exact failed_sendEffect row stored _
      · rename_i change proved
        have kept (account : MfaAccount Secret Digest) :
            ((change account).setBudget .manage 0 0).sendCounter = account.sendCounter :=
          (setBudget_sendCounter (change account) .manage 0 0).trans
            (checkFactor_sendCounter keys proved account)
        split
        · show SendEffect now db.row token.sub false (newRecoveryCodes keys draws
            ((locked.changeAccount token.sub _).changeAccount token.sub _) token.sub).row
          rw [newRecoveryCodes, MfaDb.changeAccount_changeAccount,
            MfaDb.changeAccount_changeAccount]
          exact SendEffect.keep row stored kept
        · show SendEffect now db.row token.sub false
            (((locked.changeAccount token.sub _).changeAccount token.sub _).changeAccount
              token.sub _).row
          rw [MfaDb.changeAccount_changeAccount, MfaDb.changeAccount_changeAccount]
          exact SendEffect.keep row stored kept

end Silent

section Sending
variable [DecidableEq Hash]

theorem resend_sendEffect (emailAvailable : Bool) (claims : ChallengeClaims)
    (draws : MfaDraws Secret) :
    SendEffect now db.row claims.sub
      (FactorOperation.sends keys now db
        (.resend emailAvailable claims draws : FactorOperation Hash Password Secret))
      (resend keys draws now emailAvailable db claims).1.row := by
  unfold FactorOperation.sends resend
  apply withAccount_sendEffect
  intro locked user row stored
  split
  · rename_i absent
    simp only [absent, Option.any_none, Bool.false_eq_true, false_and, decide_false,
      Bool.false_and]
    exact SendEffect.refused row
  · rename_i challenge found
    rw [found, Option.any_some]
    split
    · rename_i other
      rw [decide_eq_false fun all => other (of_decide_eq_true all.1), Bool.false_and]
      exact SendEffect.refused row
    · rename_i email
      split
      · rename_i unavailable
        rw [decide_eq_false fun all => unavailable all.2, Bool.false_and]
        exact SendEffect.refused row
      · rename_i available
        rw [not_not] at email available
        rw [decide_eq_true email, available, decide_eq_true ⟨rfl, rfl⟩, Bool.true_and]
        split
        · rename_i limited
          rw [emailAllowed_error limited]
          exact SendEffect.refused row
        · rename_i allowed
          rw [emailAllowed_ok allowed]
          exact SendEffect.reserve row stored allowed

theorem managementEmail_sendEffect (emailAvailable : Bool) (token : Claims) (password : Password)
    (draws : MfaDraws Secret) :
    SendEffect now db.row token.sub
      (FactorOperation.sends keys now db (.managementEmail emailAvailable token password draws))
      (managementEmail keys draws now emailAvailable db token password).1.row := by
  unfold FactorOperation.sends managementEmail
  apply withAccount_sendEffect
  intro locked user row stored
  split
  · rename_i wrong
    rw [decide_eq_false fun all => wrong all.1, Bool.false_and]
    exact failed_sendEffect row stored _
  · rename_i right
    rw [not_not] at right
    split
    · rename_i unavailable
      rw [decide_eq_false fun all => unavailable.elim (· all.2.1) (· all.2.2), Bool.false_and]
      exact SendEffect.refused row
    · rename_i available
      rw [not_or, not_not, not_not] at available
      rw [decide_eq_true ⟨right, available⟩, Bool.true_and]
      split
      · rename_i limited
        rw [emailAllowed_error limited]
        exact SendEffect.refused row
      · rename_i allowed
        rw [emailAllowed_ok allowed]
        exact SendEffect.reserve row stored allowed

theorem setup_sendEffect (stableKeys emailAvailable validAddress : Bool) (token : Claims)
    (method : Option MfaMethod) (email : Str) (password : Password) (draws : MfaDraws Secret) :
    SendEffect now db.row token.sub
      (FactorOperation.sends keys now db
        (.setup stableKeys emailAvailable validAddress token method email password draws))
      (setup keys draws now stableKeys emailAvailable validAddress db token method email
        password).1.row := by
  unfold FactorOperation.sends setup
  cases method with
  | none => exact .unchanged
  | some method =>
      dsimp only
      split
      · rename_i unstable
        simp only [unstable, Bool.and_false, Bool.false_and]
        exact .unchanged
      · rename_i stable
        rw [not_not] at stable
        cases method with
        | totp =>
            rw [if_neg (fun both => nomatch both.1), if_neg (fun both => nomatch both.1)]
            apply withAccount_silent
            intro locked user row stored
            split
            · exact failed_sendEffect row stored _
            · split
              · exact SendEffect.refused row
              · rw [if_neg (fun impossible => nomatch impossible)]
                exact SendEffect.keep row stored fun _ => rfl
        | email =>
            split
            · rename_i both
              simp only [both.2, Bool.and_false, Bool.false_and]
              exact .unchanged
            · rename_i available
              split
              · rename_i both
                simp only [both.2, Bool.and_false, Bool.false_and]
                exact .unchanged
              · rename_i valid
                have available_ : emailAvailable = true := by simpa using available
                have valid_ : validAddress = true := by simpa using valid
                rw [stable, available_, valid_]
                apply withAccount_sendEffect
                intro locked user row stored
                split
                · rename_i wrong
                  rw [decide_eq_false fun all => wrong all.1, Bool.false_and]
                  exact failed_sendEffect row stored _
                · rename_i right
                  rw [not_not] at right
                  split
                  · rename_i enrolled
                    rw [decide_eq_false fun all => by simp [all.2] at enrolled, Bool.false_and]
                    exact SendEffect.refused row
                  · rename_i unenrolled
                    have none_ : (db.row token.sub).method = none := by simpa using unenrolled
                    rw [decide_eq_true ⟨right, none_⟩, Bool.true_and]
                    rw [if_pos rfl]
                    split
                    · rename_i limited
                      rw [emailAllowed_error limited]
                      exact SendEffect.refused row
                    · rename_i allowed
                      rw [emailAllowed_ok allowed]
                      exact SendEffect.reserve row stored allowed

theorem beginLogin_sendEffect (emailAvailable : Bool) (userId : Nat) (original : UserRow Hash)
    (transport : Transport) (draws : MfaDraws Secret) :
    SendEffect now db.row userId
      (FactorOperation.sends keys now db
        (.beginLogin emailAvailable userId original transport draws))
      (beginLogin keys draws now emailAvailable db userId original transport).1.row := by
  obtain ⟨row, -, stored⟩ := db.lockAccount_rows userId original.tokenVersion
  dsimp only [FactorOperation.sends]
  unfold FactorOperation.allowedUnderLock beginLogin
  generalize db.lockAccount userId original.tokenVersion = result at row stored
  obtain ⟨locked, found⟩ := result
  cases found with
  | none => exact SendEffect.refused row
  | some pair =>
      obtain ⟨user, account⟩ := pair
      have here := stored user account rfl
      have known : db.row userId = account := by
        rw [← row]
        exact MfaDb.row_eq here
      subst known
      dsimp only
      by_cases same : user.passwordHash = original.passwordHash
      · rw [if_neg (not_not.mpr same)]
        cases enrolled : (db.row userId).method with
        | none =>
            cases guardBudget (db.row userId) .login now with
            | some error => exact SendEffect.refused row
            | none =>
                dsimp only
                rw [decide_eq_false fun all => nomatch all.2.1, Bool.false_and]
                exact SendEffect.refused row
        | some method =>
            dsimp only
            cases guard : guardBudget (db.row userId) .login now with
            | some error => exact SendEffect.refused row
            | none =>
                dsimp only
                by_cases send : method = .email ∧ emailAvailable = true ∧
                    (emailLimit (db.row userId) now).toOption.isSome = true
                · have sends : (decide (user.passwordHash = original.passwordHash ∧
                      some method = some .email ∧ emailAvailable = true) &&
                      emailAllowed (db.row userId) now) = true := by
                    rw [decide_eq_true ⟨same, congrArg some send.1, send.2.1⟩, Bool.true_and]
                    exact send.2.2
                  have reserved : ¬(method = .email ∧ ¬(method = .email ∧ emailAvailable = true ∧
                      (emailLimit (db.row userId) now).toOption.isSome = true)) :=
                    fun both => both.2 send
                  rw [sends, if_neg reserved, if_pos send]
                  cases limit : emailLimit (db.row userId) now with
                  | error failure =>
                      rw [limit] at send
                      cases send.2.2
                  | ok change => exact SendEffect.reserve row here limit
                · have unsent : (decide (user.passwordHash = original.passwordHash ∧
                      some method = some .email ∧ emailAvailable = true) &&
                      emailAllowed (db.row userId) now) = false := by
                    rw [Bool.and_eq_false_iff, decide_eq_false_iff_not]
                    by_contra both
                    rw [not_or, not_not, Bool.not_eq_false] at both
                    exact send ⟨Option.some.inj both.1.2.1, both.1.2.2, both.2⟩
                  rw [unsent, if_neg send]
                  split <;> exact SendEffect.refused row
      · rw [if_pos same]
        cases guardBudget (db.row userId) .login now with
        | some error => exact SendEffect.refused row
        | none =>
            dsimp only
            rw [decide_eq_false fun all => same all.1, Bool.false_and]
            exact SendEffect.refused row

end Sending

/-- Every operation changes the columns of its account as `email_limit` does, or keeps them. -/
theorem FactorOperation.sendEffect [DecidableEq Hash] [DecidableEq Digest]
    (operation : FactorOperation Hash Password Secret) :
    SendEffect now db.row operation.userId (operation.sends keys now db)
      (operation.run keys now db).1.row := by
  cases operation with
  | beginLogin emailAvailable userId original transport draws =>
      exact beginLogin_sendEffect keys db emailAvailable userId original transport draws
  | verifyLogin claims code => exact verifyLogin_sendEffect keys db claims code
  | setup stableKeys emailAvailable validAddress token method email password draws =>
      exact setup_sendEffect keys db stableKeys emailAvailable validAddress token method email
        password draws
  | confirm token claims code transport draws =>
      exact confirm_sendEffect keys db token claims code transport draws
  | managementEmail emailAvailable token password draws =>
      exact managementEmail_sendEffect keys db emailAvailable token password draws
  | changeMethod regenerate token presented password code transport draws =>
      exact changeMethod_sendEffect keys db regenerate token presented password code transport draws
  | resend emailAvailable claims draws =>
      exact resend_sendEffect keys db emailAvailable claims draws

/-- A change of a row that keeps the columns keeps them in every row. -/
theorem changeAccount_sendCounter (changed : Nat)
    {change : MfaAccount Secret Digest → MfaAccount Secret Digest}
    (keeps : ∀ account, (change account).sendCounter = account.sendCounter) (userId : Nat) :
    ((db.changeAccount changed change).row userId).sendCounter =
      (db.row userId).sendCounter := by
  unfold MfaDb.row MfaDb.changeAccount
  dsimp only
  by_cases own : userId = changed
  · subst own
    rw [Function.update_self]
    cases db.accounts userId with
    | none => rfl
    | some account => exact keeps account
  · rw [Function.update_of_ne own]

theorem updateAccount_sendCounter (changed : Nat) (change : UserChange Hash) (userId : Nat) :
    ((updateAccount changed change db).row userId).sendCounter =
      (db.row userId).sendCounter := by
  unfold updateAccount
  dsimp only
  split
  · exact changeAccount_sendCounter _ changed (fun account =>
      (setBudget_sendCounter _ .manage 0 0).trans (setBudget_sendCounter account .login 0 0)) userId
  · rfl

/-- The columns of the account count its emails. -/
def SendState.Counted (userId : Nat) (s : SendState Hash Secret Digest) : Prop :=
  (s.factors.db.row userId).sendCounter.Counts 60 3600 10 s.factors.now s.sent

theorem SendState.initial_counted (users : Nat → Option (UserRow Hash)) (userId : Nat) :
    SendState.Counted userId (.initial users : SendState Hash Secret Digest) :=
  WindowCounter.counts_empty 0

section Runs
variable [DecidableEq Hash] [DecidableEq Digest] {keys : MfaKeys Hash Password Secret Digest}

/-- A row that is counted and an operation on any account. -/
theorem SendState.Counted.operation {userId now : Nat} {s : SendState Hash Secret Digest}
    (counted : s.Counted userId) (later : s.factors.now ≤ now)
    (operation : FactorOperation Hash Password Secret)
    {next : FactorState Hash Secret Digest}
    (ran : next.db = (operation.run keys now s.factors.db).1) (clock : next.now = now) :
    SendState.Counted userId ⟨next,
      email keys userId s.factors next (now, .operation operation) ++ s.sent⟩ := by
  obtain ⟨row, rows, columns⟩ := @FactorOperation.sendEffect _ _ _ _ now _ keys s.factors.db _ _ operation
  rw [← ran] at rows
  unfold Counted email
  dsimp only
  rw [clock]
  split
  · rename_i sending
    obtain ⟨own, sends⟩ := sending
    subst own
    rw [if_pos sends] at columns
    rw [rows, Function.update_self]
    have stored : next.db.accounts operation.userId = some row := by
      have found : next.db.row operation.userId = row := by rw [rows, Function.update_self]
      unfold MfaDb.row at found
      cases present : next.db.accounts operation.userId with
      | some account =>
          rw [present] at found
          exact congrArg some found
      | none =>
          rw [present] at found
          rw [← found] at columns
          have cooled := (counted.allow later (by decide) (by decide) columns).cooled _
            List.mem_cons_self
          change now + 60 ≤ 0 at cooled
          omega
    rw [stored]
    exact counted.allow later (by decide) (by decide) columns
  · rename_i silent
    rw [rows, List.nil_append]
    by_cases own : userId = operation.userId
    · subst own
      rw [if_neg fun sends => silent ⟨rfl, sends⟩] at columns
      rw [Function.update_self, columns]
      exact counted.mono later
    · rw [Function.update_of_ne own]
      exact counted.mono later

variable [DecidableEq Secret]

/-- Every event keeps the emails of an account counted. -/
theorem SendState.Counted.step {userId : Nat} {s next : SendState Hash Secret Digest}
    {event : Nat × FactorEvent Hash Password Secret} (counted : s.Counted userId)
    (stepped : s.step keys userId event = some next) : next.Counted userId := by
  obtain ⟨now, event⟩ := event
  obtain ⟨factors, ran, rfl⟩ := Option.map_eq_some_iff.mp stepped
  unfold FactorState.step at ran
  dsimp only at ran
  split at ran
  · cases ran
  · rename_i forward
    have later : s.factors.now ≤ now := Nat.le_of_not_lt forward
    cases event with
    | operation operation =>
        dsimp only at ran
        split at ran
        · cases ran
          exact counted.operation later operation rfl rfl
        · cases ran
    | forgetUnsentCode challengeId code =>
        cases ran
        exact counted.mono later
    | purgeExpiredChallenges =>
        cases ran
        exact counted.mono later
    | updateUser changed change =>
        cases ran
        unfold Counted
        dsimp only
        rw [updateAccount_sendCounter]
        exact counted.mono later
    | writeUsers users =>
        cases ran
        exact counted.mono later

/-- The emails to an account are a minute apart, a window of an hour has ten of them, and so
an hour has twenty at most, or nineteen after the first hour of the clock. -/
theorem emails_spaced_and_windowed {users : Nat → Option (UserRow Hash)} {userId : Nat}
    {events : List (Nat × FactorEvent Hash Password Secret)} {s : SendState Hash Secret Digest}
    (ran : Machine.run (SendState.step keys userId) (.initial users) events = some s) :
    (s.sent.Pairwise fun later earlier => earlier.time + 60 ≤ later.time) ∧
    FixedWindow 3600 10 s.sent ∧
    (∀ start, s.sent.countP (FixedWindow.inside start 3600) ≤ 20) ∧
    ((∀ email ∈ s.sent, 3600 ≤ email.time) → ∀ start,
      s.sent.countP (FixedWindow.inside start 3600) ≤ 19) := by
  have counted : s.Counted userId :=
    Machine.run_invariant (SendState.Counted userId) (fun _ _ _ before => before.step)
      (SendState.initial_counted users userId) ran
  have distinct : (s.sent.map Admitted.time).Nodup := by
    rw [List.Nodup, List.pairwise_map]
    exact counted.spaced.imp fun apart same => by omega
  refine ⟨counted.spaced, counted.fixed, counted.fixed.interval, fun late start => ?_⟩
  have opened : FixedWindow.Opened s.sent := by
    intro email member
    rcases counted.opened email.window (.inr ⟨email, member, rfl⟩) with zero | found
    · have within := counted.fixed.within email member
      have := late email member
      omega
    · exact found
  exact counted.fixed.interval_opened opened distinct (by decide) start

end Runs

end

/-- User `1` starts an enrollment once and, an hour less nine minutes later, every minute. -/
def enrollmentBurst : List (Nat × FactorEvent Nat Nat Nat) :=
  (0 :: (List.range 19).map fun index => 3060 + 60 * index).map fun time =>
    (1700000000 + time, .operation (.setup true true true passwordToken (some .email)
      (ofString "a@b.c") 7 ⟨time, ofString "123456", time, []⟩))

theorem enrollmentBurst_run :
    (Machine.run (SendState.step exampleKeys 1)
      (.initial fun userId => if userId = 1 then some (insertUser 7 .user) else none)
      enrollmentBurst).map SendState.sent =
        some ((List.range 10).map (fun index => ⟨1700004140 - 60 * index, 1700003600⟩) ++
          (List.range 9).map (fun index => ⟨1700003540 - 60 * index, 1700000000⟩) ++
          [⟨1700000000, 1700000000⟩]) := by
  decide +kernel

/-- Nineteen emails are allowed in twenty minutes. -/
theorem nineteen_emails_in_an_hour :
    ∃ s, Machine.run (SendState.step exampleKeys 1)
        (.initial fun userId => if userId = 1 then some (insertUser 7 .user) else none)
        enrollmentBurst = some s ∧
      s.sent.countP (FixedWindow.inside 1700003060 3600) = 19 := by
  obtain ⟨s, ran, sent⟩ := Option.map_eq_some_iff.mp enrollmentBurst_run
  exact ⟨s, ran, by rw [sent]; decide +kernel⟩

theorem emails_spaced_and_windowed_example :
    ∃ s, Machine.run (SendState.step exampleKeys 1)
        (.initial fun userId => if userId = 1 then some (insertUser 7 .user) else none)
        enrollmentBurst = some s ∧
      s.sent.length = 20 ∧
      (s.sent.Pairwise fun later earlier => earlier.time + 60 ≤ later.time) ∧
      FixedWindow 3600 10 s.sent ∧
      ∀ start, s.sent.countP (FixedWindow.inside start 3600) ≤ 19 := by
  obtain ⟨s, ran, sent⟩ := Option.map_eq_some_iff.mp enrollmentBurst_run
  obtain ⟨spaced, fixed, -, hour⟩ := emails_spaced_and_windowed ran
  exact ⟨s, ran, by rw [sent]; rfl, spaced, fixed, hour (by rw [sent]; decide +kernel)⟩

end SubtitleTranslator.Auth
