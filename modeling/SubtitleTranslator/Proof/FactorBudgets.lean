import SubtitleTranslator.Proof.SingleUse

namespace SubtitleTranslator.Auth
open Library Library.Text

section Budgets
variable {Hash Password Secret Digest : Type}

/-- A success of the scope or an unlock ends a series of failures. -/
def FactorEntry.resets (userId : Nat) (scope : Scope) : FactorEntry Secret Digest → Bool
  | .accepted user other _ => user = userId ∧ other = scope
  | .unlocked user => user = userId
  | .failed _ _ _ | .issued _ _ | .withdrawn _ => false

/-- This is the time of a failed check of the scope. -/
def FactorEntry.failedAt (userId : Nat) (scope : Scope) : FactorEntry Secret Digest → Option Nat
  | .failed user other now => if user = userId ∧ other = scope then some now else none
  | .accepted _ _ _ | .issued _ _ | .withdrawn _ | .unlocked _ => none

/-- These are the times of the failed checks since the last reset, the newest first. -/
def openFailures (userId : Nat) (scope : Scope) : List (FactorEntry Secret Digest) → List Nat
  | [] => []
  | entry :: older =>
      if entry.resets userId scope then []
      else (entry.failedAt userId scope).toList ++ openFailures userId scope older

/-- The failures between two failures without a reset are open at the second one. -/
theorem openFailures_between {userId : Nat} {scope : Scope}
    {between : List (FactorEntry Secret Digest)}
    (noReset : ∀ entry ∈ between, entry.resets userId scope = false)
    (older : List (FactorEntry Secret Digest)) :
    openFailures userId scope (between ++ older) =
      between.filterMap (·.failedAt userId scope) ++ openFailures userId scope older := by
  induction between with
  | nil => rfl
  | cons entry rest ih =>
      rw [List.forall_mem_cons] at noReset
      rw [List.cons_append, openFailures, noReset.1, if_neg Bool.false_ne_true, ih noReset.2]
      cases same : entry.failedAt userId scope with
      | none => rw [List.filterMap_cons_none same, Option.toList_none, List.nil_append]
      | some now => rw [List.filterMap_cons_some same, Option.toList_some, List.cons_append,
          List.nil_append, List.cons_append]

/-- The log justifies a failed check: five open failures take the duration of a lock. -/
def SpacedFailures : FactorEntry Secret Digest → List (FactorEntry Secret Digest) → Prop
  | .failed userId scope now, older =>
      ∀ first ∈ (openFailures userId scope older).drop 4, first + 900 ≤ now
  | _, _ => True

/-- The counter and the lock of one scope cover the open failures. -/
structure BudgetFits (row : MfaAccount Secret Digest) (scope : Scope) (now : Nat)
    (times : List Nat) : Prop where
  limited : row.scopeFailures scope ≤ 4
  past : ∀ time ∈ times, time ≤ now
  covered : ∀ time ∈ times.drop (row.scopeFailures scope),
    time + 900 ≤ max (row.scopeLockedUntil scope) now

/-- A row with the same budget fits at any later time. -/
theorem BudgetFits.keep {row later : MfaAccount Secret Digest} {scope : Scope} {now next : Nat}
    {times : List Nat} (fits : BudgetFits row scope now times)
    (failures : later.scopeFailures scope = row.scopeFailures scope)
    (lockedUntil : later.scopeLockedUntil scope = row.scopeLockedUntil scope)
    (after : now ≤ next) : BudgetFits later scope next times where
  limited := by
    rw [failures]
    exact fits.limited
  past time member := (fits.past time member).trans after
  covered time member := by
    rw [failures] at member
    rw [lockedUntil]
    have := fits.covered time member
    omega

/-- A reset row fits without open failures. -/
theorem BudgetFits.reset {row : MfaAccount Secret Digest} {scope : Scope} (now : Nat)
    (cleared : row.scopeFailures scope = 0) : BudgetFits row scope now [] where
  limited := by omega
  past := nofun
  covered := by simp

theorem setBudget_scopeFailures (row : MfaAccount Secret Digest) (scope : Scope)
    (failures lockedUntil : Nat) :
    (row.setBudget scope failures lockedUntil).scopeFailures scope = failures := by
  cases scope <;> rfl

theorem setBudget_scopeLockedUntil (row : MfaAccount Secret Digest) (scope : Scope)
    (failures lockedUntil : Nat) :
    (row.setBudget scope failures lockedUntil).scopeLockedUntil scope = lockedUntil := by
  cases scope <;> rfl

/-- A change of one budget keeps the other. -/
theorem setBudget_other (row : MfaAccount Secret Digest) {scope other : Scope}
    (apart : other ≠ scope) (failures lockedUntil : Nat) :
    (row.setBudget scope failures lockedUntil).scopeFailures other = row.scopeFailures other ∧
      (row.setBudget scope failures lockedUntil).scopeLockedUntil other =
        row.scopeLockedUntil other := by
  cases scope <;> cases other <;> first | exact ⟨rfl, rfl⟩ | exact absurd rfl apart

/-- A failed check keeps the other budget. -/
theorem MfaAccount.spend_other (row : MfaAccount Secret Digest) {scope other : Scope}
    (apart : other ≠ scope) (now : Nat) :
    (row.spend scope now).scopeFailures other = row.scopeFailures other ∧
      (row.spend scope now).scopeLockedUntil other = row.scopeLockedUntil other := by
  unfold MfaAccount.spend
  split
  · exact setBudget_other row apart _ _
  · exact setBudget_other row apart _ _

theorem guardBudget_none {row : MfaAccount Secret Digest} {scope : Scope} {now : Nat} :
    guardBudget row scope now = none ↔ row.scopeLockedUntil scope ≤ now := by
  unfold guardBudget
  split <;> simp <;> omega

/-- A failed check is counted or starts a lock. -/
theorem BudgetFits.spend {row : MfaAccount Secret Digest} {scope : Scope} {now next : Nat}
    {times : List Nat} (fits : BudgetFits row scope now times) (after : now ≤ next)
    (unlocked : row.scopeLockedUntil scope ≤ next) :
    BudgetFits (row.spend scope next) scope next (next :: times) := by
  have past : ∀ time ∈ next :: times, time ≤ next := by
    intro time member
    rcases List.mem_cons.mp member with rfl | old
    · exact le_rfl
    · exact (fits.past time old).trans after
  unfold MfaAccount.spend
  split
  · next exhausted =>
      refine ⟨?_, past, fun time member => ?_⟩
      · rw [setBudget_scopeFailures]
        omega
      · rw [setBudget_scopeLockedUntil]
        have := past time (List.mem_of_mem_drop member)
        omega
  · next left =>
      refine ⟨?_, past, fun time member => ?_⟩
      · rw [setBudget_scopeFailures]
        omega
      · rw [setBudget_scopeFailures, List.drop_succ_cons] at member
        have := fits.covered time member
        omega

/-- A failed check is justified by an unlocked budget. -/
theorem BudgetFits.spaced {row : MfaAccount Secret Digest} {scope : Scope} {now next : Nat}
    {times : List Nat} (fits : BudgetFits row scope now times) (after : now ≤ next)
    (unlocked : row.scopeLockedUntil scope ≤ next) :
    ∀ first ∈ times.drop 4, first + 900 ≤ next := by
  intro first member
  have limited := fits.limited
  have open_ : first ∈ times.drop (row.scopeFailures scope) :=
    (List.drop_sublist_drop_left times limited).subset member
  have := fits.covered first open_
  omega

/-- These are the rows, the clock and the log of a run. -/
structure BudgetedRun (rows : Nat → MfaAccount Secret Digest) (now : Nat)
    (log : List (FactorEntry Secret Digest)) : Prop where
  justified : Log.Justified SpacedFailures log
  fits : ∀ userId scope, BudgetFits (rows userId) scope now (openFailures userId scope log)

variable {rows : Nat → MfaAccount Secret Digest} {now next : Nat}
  {log : List (FactorEntry Secret Digest)}

/-- Rows with the same budgets keep the invariant at any later time. -/
theorem BudgetedRun.keep (holds : BudgetedRun rows now log) {later : Nat → MfaAccount Secret Digest}
    (same : ∀ userId scope, (later userId).scopeFailures scope = (rows userId).scopeFailures scope ∧
      (later userId).scopeLockedUntil scope = (rows userId).scopeLockedUntil scope)
    (after : now ≤ next) : BudgetedRun later next log where
  justified := holds.justified
  fits userId scope := (holds.fits userId scope).keep (same userId scope).1 (same userId scope).2 after

/-- An entry about recovery codes leaves the failures. -/
theorem BudgetedRun.skip (holds : BudgetedRun rows now log)
    {entry : FactorEntry Secret Digest} (reset : ∀ userId scope, entry.resets userId scope = false)
    (fail : ∀ userId scope, entry.failedAt userId scope = none) :
    BudgetedRun rows now (entry :: log) where
  justified := by
    refine ⟨?_, holds.justified⟩
    cases entry with
    | failed userId scope time =>
        have impossible := fail userId scope
        rw [FactorEntry.failedAt, if_pos ⟨rfl, rfl⟩] at impossible
        cases impossible
    | accepted | issued | withdrawn | unlocked => trivial
  fits userId scope := by
    rw [openFailures, reset, fail, if_neg Bool.false_ne_true]
    exact holds.fits userId scope

/-- A failed check spends the budget of its scope. -/
theorem BudgetedRun.fail (holds : BudgetedRun rows now log) {userId : Nat} {scope : Scope}
    (after : now ≤ next) (unlocked : (rows userId).scopeLockedUntil scope ≤ next) :
    BudgetedRun (Function.update rows userId ((rows userId).spend scope next)) next
      (.failed userId scope next :: log) where
  justified := ⟨(holds.fits userId scope).spaced after unlocked, holds.justified⟩
  fits other otherScope := by
    rw [openFailures, FactorEntry.resets, if_neg Bool.false_ne_true, FactorEntry.failedAt]
    by_cases same : userId = other
    · subst same
      rw [Function.update_self]
      by_cases sameScope : scope = otherScope
      · subst sameScope
        rw [if_pos ⟨rfl, rfl⟩]
        exact (holds.fits userId scope).spend after unlocked
      · rw [if_neg fun both => sameScope both.2]
        have kept := (rows userId).spend_other (Ne.symm sameScope) next
        exact (holds.fits userId otherScope).keep kept.1 kept.2 after
    · rw [if_neg fun both => same both.1, Function.update_of_ne (Ne.symm same)]
      exact (holds.fits other otherScope).keep rfl rfl after

/-- A success resets the budget of its scope. -/
theorem BudgetedRun.accept (holds : BudgetedRun rows now log) {userId : Nat} {scope : Scope}
    (proof : FactorProof Secret Digest) {row : MfaAccount Secret Digest}
    (cleared : row.scopeFailures scope = 0)
    (others : ∀ other, other ≠ scope → row.scopeFailures other = (rows userId).scopeFailures other ∧
      row.scopeLockedUntil other = (rows userId).scopeLockedUntil other) (after : now ≤ next) :
    BudgetedRun (Function.update rows userId row) next (.accepted userId scope proof :: log) where
  justified := ⟨trivial, holds.justified⟩
  fits other otherScope := by
    rw [openFailures, FactorEntry.resets, FactorEntry.failedAt, Option.toList_none, List.nil_append]
    by_cases same : userId = other
    · subst same
      rw [Function.update_self]
      by_cases sameScope : scope = otherScope
      · subst sameScope
        rw [if_pos (decide_eq_true ⟨rfl, rfl⟩)]
        exact .reset next cleared
      · rw [if_neg (by simp [sameScope])]
        have kept := others otherScope (Ne.symm sameScope)
        exact (holds.fits userId otherScope).keep kept.1 kept.2 after
    · rw [if_neg (by simp [same]), Function.update_of_ne (Ne.symm same)]
      exact (holds.fits other otherScope).keep rfl rfl after

/-- An unlock resets both budgets of its user. -/
theorem BudgetedRun.unlock (holds : BudgetedRun rows now log) {userId : Nat}
    {row : MfaAccount Secret Digest} (cleared : ∀ scope, row.scopeFailures scope = 0)
    (after : now ≤ next) :
    BudgetedRun (Function.update rows userId row) next (.unlocked userId :: log) where
  justified := ⟨trivial, holds.justified⟩
  fits other scope := by
    rw [openFailures, FactorEntry.resets, FactorEntry.failedAt, Option.toList_none, List.nil_append]
    by_cases same : userId = other
    · subst same
      rw [Function.update_self, if_pos (decide_eq_true rfl)]
      exact .reset next (cleared scope)
    · rw [if_neg (by simp [same]), Function.update_of_ne (Ne.symm same)]
      exact (holds.fits other scope).keep rfl rfl after

variable [Inhabited Secret] [DecidableEq Hash] [DecidableEq Secret] [DecidableEq Digest]
  {keys : MfaKeys Hash Password Secret Digest}

omit [DecidableEq Secret] in
/-- A check is made when its budget is not locked. -/
theorem FactorOperation.check_unlocked {now : Nat} {db : MfaDb Hash Secret Digest}
    {operation : FactorOperation Hash Password Secret} {verdict : Verdict Secret Digest}
    (checked : operation.check keys now db = some verdict) :
    (db.row operation.userId).scopeLockedUntil operation.scope ≤ now := by
  have effect := operation.effect keys now db
  rw [checked] at effect
  generalize operation.run keys now db = outcome at effect
  generalize operation.consequences keys = entries at effect
  rw [← guardBudget_none]
  cases effect with
  | failed next error unlocked => exact unlocked
  | verified next user transport login unlocked => exact unlocked
  | enrolled next reply accepted manage unlocked => exact unlocked
  | regenerated next reply accepted manage unlocked => exact unlocked
  | disabled next reply accepted manage unlocked => exact unlocked

/-- The operation is sent with another code and another password. -/
def FactorOperation.submit (code : Option Str) (password : Password) :
    FactorOperation Hash Password Secret → FactorOperation Hash Password Secret
  | .beginLogin emailAvailable userId original transport draws =>
      .beginLogin emailAvailable userId original transport draws
  | .verifyLogin claims _ => .verifyLogin claims code
  | .setup stableKeys emailAvailable validAddress token method email _ draws =>
      .setup stableKeys emailAvailable validAddress token method email password draws
  | .confirm token claims _ transport draws => .confirm token claims code transport draws
  | .managementEmail emailAvailable token _ draws =>
      .managementEmail emailAvailable token password draws
  | .changeMethod regenerate token presented _ _ transport draws =>
      .changeMethod regenerate token presented password code transport draws
  | .resend emailAvailable claims draws => .resend emailAvailable claims draws

omit [DecidableEq Hash] [DecidableEq Secret] [DecidableEq Digest] in
/-- Under a locked budget the body of an operation is not run. -/
theorem withAccount_locked {db : MfaDb Hash Secret Digest} {userId : Nat} {scope : Scope} {now : Nat}
    (locked : now < (db.row userId).scopeLockedUntil scope) (version : Nat)
    (first second : MfaDb Hash Secret Digest → UserRow Hash → MfaAccount Secret Digest →
      MfaDb Hash Secret Digest × MfaReply Hash) :
    withAccount db userId version scope now first =
      withAccount db userId version scope now second := by
  obtain ⟨row, _, stored⟩ := db.lockAccount_rows userId version
  unfold withAccount
  generalize db.lockAccount userId version = result at row stored
  obtain ⟨middle, found⟩ := result
  cases found with
  | none => rfl
  | some pair =>
      obtain ⟨user, account⟩ := pair
      have known : account = db.row userId := by
        rw [← row]
        exact (MfaDb.row_eq (stored user account rfl)).symm
      subst known
      dsimp only
      rw [guardBudget, if_pos locked]

omit [DecidableEq Secret] in
/-- Under a locked budget an operation does the same with every code and password. -/
theorem FactorOperation.locked_run {now : Nat} {db : MfaDb Hash Secret Digest}
    {operation : FactorOperation Hash Password Secret}
    (locked : now < (db.row operation.userId).scopeLockedUntil operation.scope)
    (code : Option Str) (password : Password) :
    (operation.submit code password).run keys now db = operation.run keys now db := by
  cases operation with
  | beginLogin | resend => rfl
  | verifyLogin claims other =>
      show Auth.verifyLogin keys now db claims code = Auth.verifyLogin keys now db claims other
      unfold Auth.verifyLogin
      split
      · rfl
      · exact withAccount_locked locked ..
  | setup stableKeys emailAvailable validAddress token method email other draws =>
      show Auth.setup keys draws now stableKeys emailAvailable validAddress db token method email
        password = Auth.setup keys draws now stableKeys emailAvailable validAddress db token method
        email other
      unfold Auth.setup
      cases method with
      | none => rfl
      | some method =>
          dsimp only
          split
          · rfl
          · split
            · rfl
            · split
              · rfl
              · exact withAccount_locked locked ..
  | confirm token claims other transport draws =>
      show Auth.confirm keys draws now db token claims code transport =
        Auth.confirm keys draws now db token claims other transport
      unfold Auth.confirm
      split
      · rfl
      · exact withAccount_locked locked ..
  | managementEmail emailAvailable token other draws => exact withAccount_locked locked ..
  | changeMethod regenerate token presented other text transport draws =>
      exact withAccount_locked locked ..

/-- The other budgets and the challenges that they revoke are the same. -/
structure Isolated (scope : Scope) (before after : MfaDb Hash Secret Digest) : Prop where
  budgets : ∀ userId, (after.row userId).scopeFailures scope = (before.row userId).scopeFailures scope ∧
    (after.row userId).scopeLockedUntil scope = (before.row userId).scopeLockedUntil scope
  challenges : after.challenges.filter (scope.revokes ·.purpose) =
    before.challenges.filter (scope.revokes ·.purpose)

/-- No purpose belongs to two scopes. -/
theorem Scope.revokes_apart {scope other : Scope} (apart : other ≠ scope) {purpose : Purpose}
    (revokes : other.revokes purpose = true) : scope.revokes purpose = false := by
  cases scope <;> cases other <;> cases purpose <;>
    first | rfl | exact absurd rfl apart | cases revokes

omit [DecidableEq Secret] in
/-- A refused operation leaves the other scope. -/
theorem FactorOperation.refused_isolated {now : Nat} {db : MfaDb Hash Secret Digest}
    {operation : FactorOperation Hash Password Secret} {error : MfaError}
    (refused : (operation.run keys now db).2 = .refused error) {other : Scope}
    (apart : other ≠ operation.scope) : Isolated other db (operation.run keys now db).1 := by
  have effect := operation.effect keys now db
  generalize operation.run keys now db = outcome at effect refused
  generalize operation.check keys now db = verdict at effect
  generalize operation.consequences keys = entries at effect
  cases effect with
  | unchanged next reply row same =>
      refine ⟨fun userId => ?_, by rw [same]⟩
      rw [row]
      exact ⟨rfl, rfl⟩
  | challenged | verified => cases refused
  | enrolled next reply accepted | regenerated next reply accepted | disabled next reply accepted =>
      exact absurd refused (accepted error)
  | failed next _ unlocked row revoked =>
      constructor
      · intro userId
        rw [row]
        by_cases same : userId = operation.userId
        · rw [same, Function.update_self]
          exact MfaAccount.spend_other _ apart now
        · rw [Function.update_of_ne same]
          exact ⟨rfl, rfl⟩
      · rw [revoked, spendChallenges]
        split
        · rw [List.filter_filter]
          apply List.filter_congr
          intro challenge _
          cases revokes : other.revokes challenge.purpose with
          | false => rfl
          | true => simp [Scope.revokes_apart apart revokes]
        · rfl

omit [Inhabited Secret] [DecidableEq Hash] [DecidableEq Secret] in
/-- A proof changes no budget. -/
theorem FactorProof.change_budgets (proof : FactorProof Secret Digest)
    (row : MfaAccount Secret Digest) (scope : Scope) :
    (proof.change row row).scopeFailures scope = row.scopeFailures scope ∧
      (proof.change row row).scopeLockedUntil scope = row.scopeLockedUntil scope := by
  cases proof <;> cases scope <;> exact ⟨rfl, rfl⟩

omit [Inhabited Secret] [DecidableEq Hash] [DecidableEq Secret] in
/-- A proof followed by a reset clears one budget and keeps the other. -/
theorem FactorProof.change_reset (proof : FactorProof Secret Digest)
    (row : MfaAccount Secret Digest) {scope other : Scope} (apart : other ≠ scope) :
    ((proof.change row row).setBudget scope 0 0).scopeFailures other = row.scopeFailures other ∧
      ((proof.change row row).setBudget scope 0 0).scopeLockedUntil other =
        row.scopeLockedUntil other := by
  obtain ⟨failures, lockedUntil⟩ := setBudget_other (proof.change row row) apart 0 0
  obtain ⟨sameFailures, sameLock⟩ := proof.change_budgets row other
  exact ⟨failures.trans sameFailures, lockedUntil.trans sameLock⟩

namespace FactorState

omit [DecidableEq Secret] in
/-- An operation keeps the invariant. -/
theorem operation_budgeted {s : FactorState Hash Secret Digest}
    (holds : BudgetedRun s.db.row s.now s.log) (operation : FactorOperation Hash Password Secret)
    {now : Nat} (after : s.now ≤ now) :
    BudgetedRun (operation.run keys now s.db).1.row now
      (entries keys now s.db operation ++ s.log) := by
  have effect := operation.effect keys now s.db
  rw [entries_eq]
  generalize operation.check keys now s.db = verdict at effect
  generalize operation.run keys now s.db = outcome at effect
  generalize operation.consequences keys = consequences at effect
  generalize operation.userId = userId at effect
  generalize operation.scope = scope at effect
  have issued (digests : List Digest) : ∀ other otherScope,
      (FactorEntry.issued userId digests : FactorEntry Secret Digest).resets other otherScope =
        false := fun _ _ => rfl
  cases effect with
  | unchanged next reply row same answer =>
      show BudgetedRun next.row now s.log
      rw [row]
      exact holds.keep (fun _ _ => ⟨rfl, rfl⟩) after
  | challenged next claims method code warning draws drawn sent keeps row new owner id secret
      replaced =>
      show BudgetedRun next.row now s.log
      rw [row]
      apply holds.keep _ after
      intro other otherScope
      by_cases same : other = userId
      · rw [same, Function.update_self]
        exact ⟨keeps.failures otherScope, keeps.lockedUntil otherScope⟩
      · rw [Function.update_of_ne same]
        exact ⟨rfl, rfl⟩
  | failed next error unlocked row revoked =>
      show BudgetedRun next.row now (_ :: s.log)
      rw [row]
      exact holds.fail after (guardBudget_none.mp unlocked)
  | verified next user transport login unlocked challenge stored proof accepts row removed =>
      subst login
      show BudgetedRun next.row now (_ :: s.log)
      rw [row]
      exact holds.accept proof rfl (fun other apart => proof.change_reset _ apart) after
  | enrolled next reply accepted manage unlocked draws drawn challenge stored owner purpose proof
      step enrolls row removed =>
      subst manage
      show BudgetedRun next.row now (_ :: _ :: s.log)
      rw [row]
      apply BudgetedRun.skip _ (fun _ _ => rfl) (fun _ _ => rfl)
      apply holds.accept proof rfl _ after
      intro other apart
      cases other with
      | login => exact ⟨rfl, rfl⟩
      | manage => exact absurd rfl apart
  | regenerated next reply accepted manage unlocked draws drawn found stored proof accepts row
      removed =>
      subst manage
      show BudgetedRun next.row now (_ :: _ :: _ :: s.log)
      rw [row]
      apply BudgetedRun.skip _ (fun _ _ => rfl) (fun _ _ => rfl)
      apply BudgetedRun.skip _ (fun _ _ => rfl) (fun _ _ => rfl)
      apply holds.accept proof rfl _ after
      intro other apart
      cases other with
      | login => exact proof.change_reset _ apart
      | manage => exact absurd rfl apart
  | disabled next reply accepted manage unlocked found stored proof accepts row removed =>
      subst manage
      show BudgetedRun next.row now (_ :: _ :: s.log)
      rw [row]
      apply BudgetedRun.skip _ (fun _ _ => rfl) (fun _ _ => rfl)
      apply holds.accept proof rfl _ after
      intro other apart
      cases other with
      | login => exact proof.change_reset _ apart
      | manage => exact absurd rfl apart

omit [DecidableEq Secret] [DecidableEq Hash] [DecidableEq Digest] in
/-- An unlock clears the budgets of a stored row; a missing row has none to clear. -/
theorem row_updateAccount (userId : Nat) (change : UserChange Hash)
    (db : MfaDb Hash Secret Digest) :
    (updateAccount userId change db).row = if change.unlock then
      Function.update db.row userId (((db.row userId).setBudget .login 0 0).setBudget .manage 0 0)
    else db.row := by
  unfold updateAccount
  dsimp only
  split
  · funext other
    by_cases same : other = userId
    · subst same
      simp only [MfaDb.row, MfaDb.changeAccount, Function.update_self]
      cases db.accounts other <;> rfl
    · simp [MfaDb.row, MfaDb.changeAccount, same]
  · rfl

/-- Each step keeps the invariant. -/
theorem step_budgeted {s next : FactorState Hash Secret Digest}
    {event : Nat × FactorEvent Hash Password Secret} (holds : BudgetedRun s.db.row s.now s.log)
    (stepped : FactorState.step keys s event = some next) :
    BudgetedRun next.db.row next.now next.log := by
  obtain ⟨now, event⟩ := event
  simp only [FactorState.step] at stepped
  split at stepped
  · cases stepped
  · next notEarlier =>
      have after : s.now ≤ now := Nat.le_of_not_lt notEarlier
      cases event with
      | operation operation =>
          dsimp only at stepped
          split at stepped <;> cases stepped
          exact operation_budgeted holds operation after
      | forgetUnsentCode challengeId code =>
          cases stepped
          exact holds.keep (fun _ _ => ⟨rfl, rfl⟩) after
      | purgeExpiredChallenges =>
          cases stepped
          exact holds.keep (fun _ _ => ⟨rfl, rfl⟩) after
      | updateUser userId change =>
          cases stepped
          show BudgetedRun (updateAccount userId change s.db).row now
            (if change.unlock = true then _ else s.log)
          rw [row_updateAccount]
          split
          · apply holds.unlock _ after
            intro scope
            cases scope <;> rfl
          · exact holds.keep (fun _ _ => ⟨rfl, rfl⟩) after
      | writeUsers users =>
          cases stepped
          exact holds.keep (fun _ _ => ⟨rfl, rfl⟩) after

end FactorState

/-- In every run, six failed checks of a scope without a reset take fifteen minutes, no check is
made under a lock and the code and password sent there change nothing, and a refused operation
leaves the other scope. -/
theorem factor_failures_budgeted {users : Nat → Option (UserRow Hash)}
    {events : List (Nat × FactorEvent Hash Password Secret)} {s : FactorState Hash Secret Digest}
    (ran : Machine.run (FactorState.step keys) (.initial users) events = some s) :
    (∀ userId scope newer last between first older,
      s.log = newer ++ .failed userId scope last :: (between ++ .failed userId scope first :: older) →
        (∀ entry ∈ between, entry.resets userId scope = false) →
        4 ≤ (between.filterMap (·.failedAt userId scope)).length → first + 900 ≤ last) ∧
    (∀ now (operation : FactorOperation Hash Password Secret),
      now < (s.db.row operation.userId).scopeLockedUntil operation.scope →
        operation.check keys now s.db = none ∧ ∀ code password,
          (operation.submit code password).run keys now s.db = operation.run keys now s.db) ∧
    (∀ now (operation : FactorOperation Hash Password Secret) error,
      (operation.run keys now s.db).2 = .refused error → ∀ other, other ≠ operation.scope →
        Isolated other s.db (operation.run keys now s.db).1) := by
  refine ⟨?_, ?_, ?_⟩
  · intro userId scope newer last between first older same noReset four
    have start : BudgetedRun (FactorState.initial users : FactorState Hash Secret Digest).db.row 0
        [] := ⟨trivial, fun _ scope => .reset 0 (by cases scope <;> rfl)⟩
    have invariant : BudgetedRun s.db.row s.now s.log :=
      Machine.run_invariant (fun s => BudgetedRun s.db.row s.now s.log)
        (fun _ _ _ holds stepped => FactorState.step_budgeted holds stepped) start ran
    have justified := invariant.justified
    rw [same] at justified
    have spaced : ∀ time ∈ (openFailures userId scope
        (between ++ .failed userId scope first :: older)).drop 4, time + 900 ≤ last :=
      justified.split
    apply spaced first
    rw [openFailures_between noReset, openFailures, FactorEntry.resets,
      if_neg Bool.false_ne_true, FactorEntry.failedAt, if_pos ⟨rfl, rfl⟩,
      List.drop_append_of_le_length four]
    exact List.mem_append_right _ List.mem_cons_self
  · intro now operation locked
    constructor
    · cases checked : operation.check keys now s.db with
      | none => rfl
      | some verdict =>
          have unlocked := FactorOperation.check_unlocked checked
          omega
    · exact FactorOperation.locked_run locked
  · intro now operation error refused other apart
    exact FactorOperation.refused_isolated refused apart

/-- User `1` enters five wrong codes for a sign-in and tries again under the lock and after it. -/
def failureEvents : List (Nat × FactorEvent Nat Nat Nat) :=
  factorEnrollment ++
    (List.replicate 5 (40, .operation (.verifyLogin ⟨1, 1, 42, .login, 30, 330, some .cookies⟩
      (some (ofString "000000"))))) ++
    [(50, .operation (.managementEmail true ⟨1, 1, 32, some 30, some 0, 0, 1800⟩ 8 ⟨45, [], 14, []⟩)),
    (60, .operation (.beginLogin false 1 (rotateVersion (insertUser 7 .user)) .cookies
      ⟨46, [], 15, []⟩)),
    (940, .operation (.beginLogin false 1 (rotateVersion (insertUser 7 .user)) .cookies
      ⟨47, [], 16, []⟩)),
    (940, .operation (.verifyLogin ⟨1, 1, 47, .login, 940, 1240, some .cookies⟩
      (some (ofString "000000"))))]

theorem failureEvents_run :
    (Machine.run (FactorState.step exampleKeys)
      (.initial fun userId => if userId = 1 then some (insertUser 7 .user) else none)
      failureEvents).map (fun s => (s.log, (s.db.row 1).scopeLockedUntil .login)) =
        some ([.failed 1 .login 940, .failed 1 .manage 50] ++
          List.replicate 5 (.failed 1 .login 40) ++
          [.issued 1 [(0, ofString "aa"), (0, ofString "bb")], .accepted 1 .manage (.totp 9 0)],
          0) := by
  decide +kernel

theorem factor_failures_budgeted_example :
    ∃ s, Machine.run (FactorState.step exampleKeys)
        (.initial fun userId => if userId = 1 then some (insertUser 7 .user) else none)
        failureEvents = some s ∧
      s.log = [.failed 1 .login 940, .failed 1 .manage 50] ++
        List.replicate 5 (.failed 1 .login 40) ++
        [.issued 1 [(0, ofString "aa"), (0, ofString "bb")], .accepted 1 .manage (.totp 9 0)] ∧
      (∀ userId scope newer last between first older,
        s.log = newer ++
            .failed userId scope last :: (between ++ .failed userId scope first :: older) →
          (∀ entry ∈ between, entry.resets userId scope = false) →
          4 ≤ (between.filterMap (·.failedAt userId scope)).length → first + 900 ≤ last) ∧
      ∀ now (operation : FactorOperation Nat Nat Nat) error,
        (operation.run exampleKeys now s.db).2 = .refused error → ∀ other, other ≠ operation.scope →
          Isolated other s.db (operation.run exampleKeys now s.db).1 := by
  obtain ⟨s, ran, report⟩ := Option.map_eq_some_iff.mp failureEvents_run
  obtain ⟨spaced, _, isolated⟩ := factor_failures_budgeted ran
  exact ⟨s, ran, congrArg Prod.fst report, spaced, isolated⟩

end Budgets

end SubtitleTranslator.Auth
