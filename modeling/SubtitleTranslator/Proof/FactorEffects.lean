import SubtitleTranslator.Construction.FactorRuns

namespace SubtitleTranslator.Auth
open Library Library.Text

section Rows
variable {Hash Password Secret Digest : Type} [Inhabited Secret]

/-- A user without a row has the row that an insert makes. -/
def MfaDb.row (db : MfaDb Hash Secret Digest) (userId : Nat) : MfaAccount Secret Digest :=
  (db.accounts userId).getD .empty

theorem MfaDb.row_eq {db : MfaDb Hash Secret Digest} {userId : Nat}
    {account : MfaAccount Secret Digest} (stored : db.accounts userId = some account) :
    db.row userId = account := by
  rw [MfaDb.row, stored, Option.getD_some]

omit [Inhabited Secret] in
/-- Two changes of one row are one change. -/
theorem MfaDb.changeAccount_changeAccount (db : MfaDb Hash Secret Digest) (userId : Nat)
    (first second : MfaAccount Secret Digest → MfaAccount Secret Digest) :
    (db.changeAccount userId first).changeAccount userId second =
      db.changeAccount userId (second ∘ first) := by
  simp [MfaDb.changeAccount, Function.update_idem]

/-- A change of a stored row changes the rows at its user. -/
theorem MfaDb.row_changeAccount {db : MfaDb Hash Secret Digest} {userId : Nat}
    {account : MfaAccount Secret Digest} (stored : db.accounts userId = some account)
    (change : MfaAccount Secret Digest → MfaAccount Secret Digest) :
    (db.changeAccount userId change).row = Function.update db.row userId (change account) := by
  funext other
  by_cases same : other = userId
  · subst same
    simp [MfaDb.row, MfaDb.changeAccount, stored]
  · simp [MfaDb.row, MfaDb.changeAccount, same]

omit [Inhabited Secret] in
/-- The change of nothing. -/
theorem MfaDb.changeAccount_id (db : MfaDb Hash Secret Digest) (userId : Nat) :
    db.changeAccount userId id = db := by
  simp [MfaDb.changeAccount]

/-- The lock of an account leaves the rows and the challenges. -/
theorem MfaDb.lockAccount_rows (db : MfaDb Hash Secret Digest) (userId version : Nat) :
    (db.lockAccount userId version).1.row = db.row ∧
      (db.lockAccount userId version).1.challenges = db.challenges ∧
      ∀ user account, (db.lockAccount userId version).2 = some (user, account) →
        (db.lockAccount userId version).1.accounts userId = some account := by
  unfold MfaDb.lockAccount
  split
  · exact ⟨rfl, rfl, nofun⟩
  · split
    · split
      · next account stored =>
          refine ⟨rfl, rfl, fun _ _ same => ?_⟩
          cases same
          exact stored
      · next missing =>
          refine ⟨?_, rfl, fun _ _ same => ?_⟩
          · funext other
            by_cases same : other = userId
            · subst same
              simp [MfaDb.row, missing]
            · simp [MfaDb.row, same]
          · cases same
            exact Function.update_self ..
    · exact ⟨rfl, rfl, nofun⟩

/-- The later row has the same factors, codes and budgets. -/
structure KeepsFactors (before after : MfaAccount Secret Digest) : Prop where
  method : after.method = before.method
  secret : after.secret = before.secret
  lastStep : after.lastStep = before.lastStep
  recoveryHashes : after.recoveryHashes = before.recoveryHashes
  failures : ∀ scope, after.scopeFailures scope = before.scopeFailures scope
  lockedUntil : ∀ scope, after.scopeLockedUntil scope = before.scopeLockedUntil scope

omit [Inhabited Secret] in
theorem KeepsFactors.refl (row : MfaAccount Secret Digest) : KeepsFactors row row :=
  ⟨rfl, rfl, rfl, rfl, fun _ => rfl, fun _ => rfl⟩

omit [Inhabited Secret] in
/-- A reserved sending keeps the factors. -/
theorem emailLimit_keeps {account : MfaAccount Secret Digest} {now : Nat}
    {change : MfaAccount Secret Digest → MfaAccount Secret Digest}
    (allowed : emailLimit account now = .ok change) (row : MfaAccount Secret Digest) :
    KeepsFactors row (change row) := by
  unfold emailLimit at allowed
  split at allowed
  · cases allowed
  · dsimp only at allowed
    split at allowed <;> cases allowed
    exact ⟨rfl, rfl, rfl, rfl, fun scope => by cases scope <;> rfl,
      fun scope => by cases scope <;> rfl⟩

/-- The function is the row after a failed check. -/
def MfaAccount.spend (account : MfaAccount Secret Digest) (scope : Scope) (now : Nat) :
    MfaAccount Secret Digest :=
  if 5 ≤ account.scopeFailures scope + 1 then account.setBudget scope 0 (now + 900)
  else account.setBudget scope (account.scopeFailures scope + 1) 0

/-- The function is the challenges after a failed check. -/
def spendChallenges (account : MfaAccount Secret Digest) (scope : Scope) (userId : Nat)
    (challenges : List (Challenge Secret Digest)) : List (Challenge Secret Digest) :=
  if 5 ≤ account.scopeFailures scope + 1 then
    challenges.filter fun challenge =>
      ¬(challenge.userId = userId ∧ scope.revokes challenge.purpose)
  else challenges

/-- The function is the challenges after a new one. -/
def replaceChallenge (new : Challenge Secret Digest) (now : Nat)
    (challenges : List (Challenge Secret Digest)) : List (Challenge Secret Digest) :=
  new :: challenges.filter fun other =>
    ¬(other.userId = new.userId ∧ (other.purpose = new.purpose ∨ other.expires ≤ now))

/-- The proof is one of the row or of the challenge that the request names. -/
inductive Accepts (account : MfaAccount Secret Digest) (challenge : Option (Challenge Secret Digest)) :
    FactorProof Secret Digest → Prop where
  | recovery (digest : Digest) (stored : digest ∈ account.recoveryHashes) :
      Accepts account challenge (.recovery digest)
  | totp (step : Int) (enrolled : account.method = some .totp) (later : account.lastStep < step) :
      Accepts account challenge (.totp account.secret step)
  | emailed (found : Challenge Secret Digest) (named : challenge = some found) :
      Accepts account challenge (.emailed found.id)

omit [Inhabited Secret] in
theorem totpStep_later {keys : MfaKeys Hash Password Secret Digest} {secret : Secret} {code : Str}
    {lastStep step : Int} {now : Nat}
    (accepted : totpStep keys secret code lastStep now = .ok (some step)) : lastStep < step := by
  unfold totpStep at accepted
  split at accepted
  · split at accepted
    · cases accepted
    · have found := List.find?_some (Except.ok.inj accepted)
      rw [decide_eq_true_eq] at found
      exact found.1
  · cases accepted

omit [Inhabited Secret] in
/-- The change of a proof and the change of `check_factor` are the same. -/
theorem checkFactor_eq [DecidableEq Digest] (keys : MfaKeys Hash Password Secret Digest)
    (account : MfaAccount Secret Digest) (code : Option Str)
    (challenge : Option (Challenge Secret Digest)) (now : Nat) :
    checkFactor keys account code challenge now =
      (factorProof keys account code challenge now).map (Option.map (·.change account)) := by
  unfold checkFactor factorProof
  cases submittedCode code with
  | none => rfl
  | some code =>
      dsimp only
      split
      · rfl
      · cases account.method with
        | none => rfl
        | some method =>
            cases method with
            | totp =>
                dsimp only
                cases totpStep keys account.secret code account.lastStep now with
                | error failure => rfl
                | ok step => cases step <;> rfl
            | email =>
                cases challenge with
                | none => rfl
                | some found =>
                    dsimp only
                    split <;> rfl

omit [Inhabited Secret] in
/-- The proof that `check_factor` takes is one of the row or of the challenge. -/
theorem factorProof_accepts [DecidableEq Digest] {keys : MfaKeys Hash Password Secret Digest}
    {account : MfaAccount Secret Digest} {code : Option Str}
    {challenge : Option (Challenge Secret Digest)} {now : Nat} {proof : FactorProof Secret Digest}
    (proved : factorProof keys account code challenge now = .ok (some proof)) :
    Accepts account challenge proof := by
  unfold factorProof at proved
  split at proved
  · cases proved
  · split at proved
    · next stored =>
        cases proved
        exact .recovery _ stored
    · split at proved
      · next enrolled =>
          cases result : totpStep keys account.secret _ account.lastStep now with
          | error failure =>
              rw [result] at proved
              cases proved
          | ok step =>
              rw [result] at proved
              cases step with
              | none => cases proved
              | some step =>
                  cases proved
                  exact .totp step enrolled (totpStep_later result)
      · next found _ =>
          split at proved <;> cases proved
          exact .emailed found rfl
      · cases proved

/-- The proof that `confirm` takes is one of the pending enrollment. -/
inductive Enrolls (challenge : Challenge Secret Digest) : FactorProof Secret Digest → Int → Prop where
  | totp (step : Int) (method : challenge.method = .totp) :
      Enrolls challenge (.totp challenge.secret step) step
  | emailed (method : challenge.method = .email) : Enrolls challenge (.emailed challenge.id) (-1)

/-- The row after a confirmed enrollment. -/
def MfaAccount.enroll (account : MfaAccount Secret Digest) (challenge : Challenge Secret Digest)
    (step : Int) (digests : List Digest) : MfaAccount Secret Digest :=
  { ({ account with
      method := some challenge.method
      secret := challenge.secret
      email := challenge.email
      lastStep := step } : MfaAccount Secret Digest).setBudget .manage 0 0 with
    recoveryHashes := digests }

/-- The row after a disabled method. -/
def MfaAccount.disable (account : MfaAccount Secret Digest) : MfaAccount Secret Digest :=
  { account with
    method := none
    email := []
    secret := default
    lastStep := -1
    recoveryHashes := [] }

/-- These are the effects of an operation on the rows, the challenges and the log; the verdict is
the one of its check. -/
inductive FactorEffect [DecidableEq Digest] (keys : MfaKeys Hash Password Secret Digest)
    (passwordOnly : Bool) (draws? : Option (MfaDraws Secret)) (now : Nat)
    (rows : Nat → MfaAccount Secret Digest) (challenges : List (Challenge Secret Digest)) (userId : Nat) (scope : Scope) :
    List (FactorEntry Secret Digest) → Option (Verdict Secret Digest) →
      MfaDb Hash Secret Digest × MfaReply Hash → Prop where
  /-- No check was made and nothing is changed. -/
  | unchanged {entries : List (FactorEntry Secret Digest)} (next : MfaDb Hash Secret Digest)
      (reply : MfaReply Hash) (row : next.row = rows) (same : next.challenges = challenges)
      (answer : passwordOnly = true ∨ ∃ error, reply = .refused error) :
      FactorEffect keys passwordOnly draws? now rows challenges userId scope entries none
        (next, reply)
  /-- A new challenge replaces the one of its purpose. -/
  | challenged {entries : List (FactorEntry Secret Digest)} (next : MfaDb Hash Secret Digest)
      (claims : ChallengeClaims) (method : MfaMethod) (code : Str) (warning : Option String)
      (draws : MfaDraws Secret) (drawn : draws? = some draws)
      (sent : MfaAccount Secret Digest) (keeps : KeepsFactors (rows userId) sent)
      (row : next.row = Function.update rows userId sent)
      (new : Challenge Secret Digest) (owner : new.userId = userId)
      (id : new.id = draws.challengeId)
      (secret : new.purpose = .enroll → new.method = .totp → new.secret = draws.secret)
      (replaced : next.challenges = replaceChallenge new now challenges) :
      FactorEffect keys passwordOnly draws? now rows challenges userId scope entries none
        (next, .challenged claims method code warning)
  | failed {entries : List (FactorEntry Secret Digest)} (next : MfaDb Hash Secret Digest)
      (error : MfaError) (unlocked : guardBudget (rows userId) scope now = none)
      (row : next.row = Function.update rows userId ((rows userId).spend scope now))
      (revoked : next.challenges = spendChallenges (rows userId) scope userId challenges) :
      FactorEffect keys passwordOnly draws? now rows challenges userId scope entries (some .failed)
        (next, .refused error)
  /-- A sign-in is verified. -/
  | verified (next : MfaDb Hash Secret Digest) (user : UserRow Hash) (transport : Transport)
      (login : scope = .login) (unlocked : guardBudget (rows userId) scope now = none)
      (challenge : Challenge Secret Digest) (stored : challenge ∈ challenges)
      (proof : FactorProof Secret Digest) (accepts : Accepts (rows userId) (some challenge) proof)
      (row : next.row = Function.update rows userId
        ((proof.change (rows userId) (rows userId)).setBudget .login 0 0))
      (removed : next.challenges = challenges.filter fun other => other.id ≠ challenge.id) :
      FactorEffect keys passwordOnly draws? now rows challenges userId scope [] (some (.passed proof))
        (next, .signedIn userId user transport [])
  /-- An enrollment is confirmed. -/
  | enrolled (next : MfaDb Hash Secret Digest) (reply : MfaReply Hash)
      (accepted : ∀ error, reply ≠ .refused error)
      (manage : scope = .manage) (unlocked : guardBudget (rows userId) scope now = none)
      (draws : MfaDraws Secret) (drawn : draws? = some draws)
      (challenge : Challenge Secret Digest) (stored : challenge ∈ challenges)
      (owner : challenge.userId = userId) (purpose : challenge.purpose = .enroll)
      (proof : FactorProof Secret Digest) (step : Int) (enrolls : Enrolls challenge proof step)
      (row : next.row = Function.update rows userId
        ((rows userId).enroll challenge step (draws.recoveryCodes.map keys.digestRecovery)))
      (removed : next.challenges = challenges.filter fun other => other.userId ≠ userId) :
      FactorEffect keys passwordOnly draws? now rows challenges userId scope
        [.issued userId (draws.recoveryCodes.map keys.digestRecovery)] (some (.passed proof))
        (next, reply)
  /-- The recovery codes are regenerated. -/
  | regenerated (next : MfaDb Hash Secret Digest) (reply : MfaReply Hash)
      (accepted : ∀ error, reply ≠ .refused error)
      (manage : scope = .manage) (unlocked : guardBudget (rows userId) scope now = none)
      (draws : MfaDraws Secret) (drawn : draws? = some draws)
      (found : Option (Challenge Secret Digest))
      (stored : ∀ challenge ∈ found, challenge ∈ challenges ∧ challenge.userId = userId)
      (proof : FactorProof Secret Digest) (accepts : Accepts (rows userId) found proof)
      (row : next.row = Function.update rows userId
        { (proof.change (rows userId) (rows userId)).setBudget .manage 0 0 with
          recoveryHashes := draws.recoveryCodes.map keys.digestRecovery })
      (removed : next.challenges = challenges.filter fun other => other.userId ≠ userId) :
      FactorEffect keys passwordOnly draws? now rows challenges userId scope
        [.issued userId (draws.recoveryCodes.map keys.digestRecovery), .withdrawn userId]
        (some (.passed proof)) (next, reply)
  /-- The method is disabled. -/
  | disabled (next : MfaDb Hash Secret Digest) (reply : MfaReply Hash)
      (accepted : ∀ error, reply ≠ .refused error)
      (manage : scope = .manage) (unlocked : guardBudget (rows userId) scope now = none)
      (found : Option (Challenge Secret Digest))
      (stored : ∀ challenge ∈ found, challenge ∈ challenges ∧ challenge.userId = userId)
      (proof : FactorProof Secret Digest) (accepts : Accepts (rows userId) found proof)
      (row : next.row = Function.update rows userId
        ((proof.change (rows userId) (rows userId)).setBudget .manage 0 0).disable)
      (removed : next.challenges = challenges.filter fun other => other.userId ≠ userId) :
      FactorEffect keys passwordOnly draws? now rows challenges userId scope [.withdrawn userId]
        (some (.passed proof)) (next, reply)

section Operations
variable [DecidableEq Digest] {keys : MfaKeys Hash Password Secret Digest}
  {passwordOnly : Bool} {draws? : Option (MfaDraws Secret)} {now : Nat}
  {entries : List (FactorEntry Secret Digest)}

/-- A locked budget makes no check. -/
theorem withAccount_factorEffect (db : MfaDb Hash Secret Digest) (userId version : Nat)
    (scope : Scope)
    {check : MfaDb Hash Secret Digest → UserRow Hash → MfaAccount Secret Digest →
      Option (Verdict Secret Digest)}
    {body : MfaDb Hash Secret Digest → UserRow Hash → MfaAccount Secret Digest →
      MfaDb Hash Secret Digest × MfaReply Hash}
    (effect : ∀ locked user, locked.row = db.row → locked.challenges = db.challenges →
      locked.accounts userId = some (db.row userId) →
      guardBudget (db.row userId) scope now = none →
      FactorEffect keys passwordOnly draws? now db.row db.challenges userId scope entries
        (check locked user (db.row userId)) (body locked user (db.row userId))) :
    FactorEffect keys passwordOnly draws? now db.row db.challenges userId scope entries
      (FactorOperation.checkedUnderLock now db userId version scope check)
      (withAccount db userId version scope now body) := by
  obtain ⟨row, same, stored⟩ := db.lockAccount_rows userId version
  unfold FactorOperation.checkedUnderLock withAccount
  generalize db.lockAccount userId version = result at row same stored
  obtain ⟨locked, found⟩ := result
  cases found with
  | none => exact .unchanged locked _ row same (.inr ⟨_, rfl⟩)
  | some pair =>
      obtain ⟨user, account⟩ := pair
      have here := stored user account rfl
      have known : db.row userId = account := by
        rw [← row]
        exact MfaDb.row_eq here
      subst known
      dsimp only
      cases guard : guardBudget (db.row userId) scope now with
      | some error => exact .unchanged locked _ row same (.inr ⟨_, rfl⟩)
      | none => exact effect locked user row same here guard

/-- A failed check spends the budget. -/
theorem failed_factorEffect {db locked : MfaDb Hash Secret Digest} {userId : Nat} {scope : Scope}
    (row : locked.row = db.row) (same : locked.challenges = db.challenges)
    (stored : locked.accounts userId = some (db.row userId))
    (unlocked : guardBudget (db.row userId) scope now = none) (error : MfaError) :
    FactorEffect keys passwordOnly draws? now db.row db.challenges userId scope entries (some .failed)
      (failed locked userId (db.row userId) scope now error) := by
  unfold failed
  split
  · next exhausted =>
      refine .failed _ error unlocked ?_ ?_
      · show (locked.changeAccount userId _).row = _
        rw [MfaDb.row_changeAccount stored, row, MfaAccount.spend, if_pos exhausted]
      · rw [spendChallenges, if_pos exhausted, same]
  · next left =>
      refine .failed _ error unlocked ?_ ?_
      · rw [MfaDb.row_changeAccount stored, row, MfaAccount.spend, if_neg left]
      · rw [spendChallenges, if_neg left]
        exact same

omit [Inhabited Secret] [DecidableEq Digest] in
/-- A created challenge has the drawn id and what the operation asks for. -/
theorem createChallenge_new (keys : MfaKeys Hash Password Secret Digest) (draws : MfaDraws Secret)
    (now : Nat) (db : MfaDb Hash Secret Digest) (userId : Nat)
    (user : UserRow Hash) (purpose : Purpose) (method : MfaMethod) (email : Str) (secret : Secret)
    (transport : Transport) (send : Bool) :
    ∃ new : Challenge Secret Digest,
      (createChallenge keys draws now db userId user purpose method email secret transport send).1 =
        { db with challenges := replaceChallenge new now db.challenges } ∧
      new.userId = userId ∧ new.id = draws.challengeId ∧ new.purpose = purpose ∧
      new.method = method ∧ new.secret = secret :=
  ⟨_, rfl, rfl, rfl, rfl, rfl, rfl⟩

/-- A new challenge after a reserved sending. -/
theorem challenged_factorEffect {db locked : MfaDb Hash Secret Digest} {userId : Nat} {scope : Scope}
    (row : locked.row = db.row) (same : locked.challenges = db.challenges)
    (stored : locked.accounts userId = some (db.row userId))
    {change : MfaAccount Secret Digest → MfaAccount Secret Digest}
    (keeps : KeepsFactors (db.row userId) (change (db.row userId)))
    {draws : MfaDraws Secret} (drawn : draws? = some draws) (user : UserRow Hash)
    (purpose : Purpose) (method : MfaMethod) (email : Str) (secret : Secret)
    (transport : Transport) (send : Bool)
    (named : purpose = .enroll → method = .totp → secret = draws.secret)
    (warning : Option String) :
    FactorEffect keys passwordOnly draws? now db.row db.challenges userId scope entries none
      ((createChallenge keys draws now (locked.changeAccount userId change) userId user
          purpose method email secret transport send).1,
        .challenged (createChallenge keys draws now (locked.changeAccount userId change) userId user
          purpose method email secret transport send).2.1 method
          (createChallenge keys draws now (locked.changeAccount userId change) userId user
            purpose method email secret transport send).2.2 warning) := by
  obtain ⟨new, created, owner, id, newPurpose, newMethod, newSecret⟩ := createChallenge_new
    keys draws now (locked.changeAccount userId change) userId user purpose method
    email secret transport send
  rw [created]
  refine .challenged _ _ _ _ _ draws drawn _ keeps ?_ new owner id ?_ ?_
  · show (locked.changeAccount userId change).row = _
    rw [MfaDb.row_changeAccount stored, row]
  · rw [newPurpose, newMethod, newSecret]
    exact named
  · show replaceChallenge new now locked.challenges = _
    rw [same]

/-- A password login makes no check of a factor. -/
theorem beginLogin_factorEffect [DecidableEq Hash] (db : MfaDb Hash Secret Digest) (emailAvailable : Bool)
    (userId : Nat) (original : UserRow Hash) (transport : Transport) (draws : MfaDraws Secret)
    (drawn : draws? = some draws) :
    FactorEffect keys true draws? now db.row db.challenges userId .login entries none
      (beginLogin keys draws now emailAvailable db userId original transport) := by
  obtain ⟨row, same, stored⟩ := db.lockAccount_rows userId original.tokenVersion
  unfold beginLogin
  generalize db.lockAccount userId original.tokenVersion = result at row same stored
  obtain ⟨locked, found⟩ := result
  cases found with
  | none => exact .unchanged locked _ row same (.inl rfl)
  | some pair =>
      obtain ⟨user, account⟩ := pair
      have here := stored user account rfl
      have known : db.row userId = account := by
        rw [← row]
        exact MfaDb.row_eq here
      subst known
      dsimp only
      split
      · exact .unchanged locked _ row same (.inl rfl)
      · split
        · exact .unchanged locked _ row same (.inl rfl)
        · next method _ =>
            split
            · exact .unchanged locked _ row same (.inl rfl)
            · by_cases send : method = .email ∧ emailAvailable = true ∧
                  (emailLimit (db.row userId) now).toOption.isSome = true
              · have reserved : ¬(method = .email ∧ ¬(method = .email ∧ emailAvailable = true ∧
                    (emailLimit (db.row userId) now).toOption.isSome = true)) :=
                  fun both => both.2 send
                rw [if_neg reserved, if_pos send]
                have keeps : KeepsFactors (db.row userId)
                    ((emailLimit (db.row userId) now).toOption.getD id (db.row userId)) := by
                  cases limit : emailLimit (db.row userId) now with
                  | error failure => exact .refl _
                  | ok change => exact emailLimit_keeps limit _
                exact challenged_factorEffect row same here keeps drawn user .login _ _ _ transport _
                  (fun impossible => nomatch impossible) _
              · rw [if_neg send]
                split
                · exact .unchanged locked _ row same (.inl rfl)
                · rw [← locked.changeAccount_id userId]
                  exact challenged_factorEffect row same here (.refl _) drawn user .login _ _ _
                    transport _ (fun impossible => nomatch impossible) _

omit [Inhabited Secret] [DecidableEq Digest] in
/-- The row of a presented challenge is stored for the account of the claims. -/
theorem challengeRow_spec {db : MfaDb Hash Secret Digest} {claims : ChallengeClaims}
    {challenge : Challenge Secret Digest} (found : challengeRow db claims now = some challenge) :
    challenge ∈ db.challenges ∧ challenge.userId = claims.sub ∧
      challenge.purpose = claims.purpose := by
  have matched := List.find?_some found
  rw [decide_eq_true_eq] at matched
  exact ⟨List.mem_of_find?_eq_some found, matched.2.1, matched.2.2.2.1⟩

/-- A sign-in verification checks the factor once. -/
theorem verifyLogin_factorEffect (db : MfaDb Hash Secret Digest) (claims : ChallengeClaims)
    (code : Option Str) :
    FactorEffect keys passwordOnly draws? now db.row db.challenges claims.sub .login []
      (FactorOperation.check keys now db
        (.verifyLogin claims code : FactorOperation Hash Password Secret))
      (verifyLogin keys now db claims code) := by
  unfold FactorOperation.check verifyLogin
  dsimp only
  split
  · exact .unchanged db _ rfl rfl (.inr ⟨_, rfl⟩)
  · apply withAccount_factorEffect
    intro locked user row same stored unlocked
    cases found : challengeRow locked claims now with
    | none => exact .unchanged locked _ row same (.inr ⟨_, rfl⟩)
    | some challenge =>
        cases enrolled : (db.row claims.sub).method with
        | none => exact .unchanged locked _ row same (.inr ⟨_, rfl⟩)
        | some method =>
            dsimp only
            rw [checkFactor_eq]
            cases result : factorProof keys (db.row claims.sub) code (some challenge) now with
            | error failure => exact failed_factorEffect row same stored unlocked _
            | ok proof =>
                cases proof with
                | none => exact failed_factorEffect row same stored unlocked _
                | some proof =>
                    have member := (challengeRow_spec found).1
                    rw [same] at member
                    refine .verified _ _ _ rfl unlocked challenge member proof
                      (factorProof_accepts result) ?_ ?_
                    · show ((locked.changeAccount _ _).changeAccount _ _).row = _
                      rw [MfaDb.changeAccount_changeAccount, MfaDb.row_changeAccount stored, row]
                      rfl
                    · rw [← same]

/-- The start of an enrollment checks the password. -/
theorem setup_factorEffect (db : MfaDb Hash Secret Digest)
    (stableKeys emailAvailable validAddress : Bool) (token : Claims) (method : Option MfaMethod)
    (email : Str) (password : Password) (draws : MfaDraws Secret) (drawn : draws? = some draws) :
    FactorEffect keys passwordOnly draws? now db.row db.challenges token.sub .manage entries
      (FactorOperation.check keys now db
        (.setup stableKeys emailAvailable validAddress token method email password draws))
      (setup keys draws now stableKeys emailAvailable validAddress db token method email
        password) := by
  unfold FactorOperation.check setup
  cases method with
  | none => exact .unchanged db _ rfl rfl (.inr ⟨_, rfl⟩)
  | some method =>
      dsimp only
      split
      · exact .unchanged db _ rfl rfl (.inr ⟨_, rfl⟩)
      · split
        · exact .unchanged db _ rfl rfl (.inr ⟨_, rfl⟩)
        · split
          · exact .unchanged db _ rfl rfl (.inr ⟨_, rfl⟩)
          · apply withAccount_factorEffect
            intro locked user row same stored unlocked
            split
            · exact failed_factorEffect row same stored unlocked _
            · split
              · exact .unchanged locked _ row same (.inr ⟨_, rfl⟩)
              · split
                · exact .unchanged locked _ row same (.inr ⟨_, rfl⟩)
                · next change allowed =>
                    have keeps : KeepsFactors (db.row token.sub) (change (db.row token.sub)) := by
                      split at allowed
                      · exact emailLimit_keeps allowed _
                      · cases allowed
                        exact .refl _
                    apply challenged_factorEffect row same stored keeps drawn
                    intro _ isTotp
                    rw [if_pos isTotp]

/-- The confirmation of an enrollment checks its code. -/
theorem confirm_factorEffect (db : MfaDb Hash Secret Digest) (token : Claims)
    (claims : ChallengeClaims) (code : Option Str) (transport : Transport)
    (draws : MfaDraws Secret) (drawn : draws? = some draws) :
    FactorEffect keys passwordOnly draws? now db.row db.challenges claims.sub .manage
      [.issued claims.sub (draws.recoveryCodes.map keys.digestRecovery)]
      (FactorOperation.check keys now db
        (.confirm token claims code transport draws : FactorOperation Hash Password Secret))
      (confirm keys draws now db token claims code transport) := by
  unfold FactorOperation.check confirm
  dsimp only
  split
  · exact .unchanged db _ rfl rfl (.inr ⟨_, rfl⟩)
  · next presented =>
      have enroll : claims.purpose = .enroll := by
        by_contra other
        exact presented (.inl other)
      apply withAccount_factorEffect
      intro locked user row same stored unlocked
      cases found : challengeRow locked claims now with
      | none => exact .unchanged locked _ row same (.inr ⟨_, rfl⟩)
      | some challenge =>
          cases unenrolled : (db.row claims.sub).method with
          | some method => exact .unchanged locked _ row same (.inr ⟨_, rfl⟩)
          | none =>
              obtain ⟨member, owner, purpose⟩ := challengeRow_spec found
              rw [same] at member
              rw [enroll] at purpose
              -- The confirmed row, whatever proof was accepted.
              have confirmed (proof : FactorProof Secret Digest) (step : Int)
                  (enrolls : Enrolls challenge proof step) :
                  FactorEffect keys passwordOnly draws? now db.row db.challenges claims.sub .manage
                    [.issued claims.sub (draws.recoveryCodes.map keys.digestRecovery)]
                    (some (.passed proof))
                    (rotateSession (newRecoveryCodes keys draws
                      ((locked.changeAccount claims.sub fun row => { row with
                        method := some challenge.method
                        secret := challenge.secret
                        email := challenge.email
                        lastStep := step }).changeAccount claims.sub (·.setBudget .manage 0 0))
                      claims.sub) claims.sub user transport draws.recoveryCodes) := by
                refine .enrolled _ _ ?_ rfl unlocked draws drawn challenge member owner purpose
                  proof step enrolls ?_ ?_
                · intro error impossible
                  cases impossible
                · show (newRecoveryCodes keys draws _ _).row = _
                  rw [newRecoveryCodes, MfaDb.changeAccount_changeAccount,
                    MfaDb.changeAccount_changeAccount, MfaDb.row_changeAccount stored, row]
                  rfl
                · show locked.challenges.filter _ = _
                  rw [same]
              dsimp only [enrollmentProof]
              cases submittedCode code with
              | none => exact failed_factorEffect row same stored unlocked _
              | some text =>
                  cases isTotp : challenge.method with
                  | totp =>
                      dsimp only
                      cases result : totpStep keys challenge.secret text (-1) now with
                      | error failure => exact failed_factorEffect row same stored unlocked _
                      | ok step =>
                          cases step with
                          | none => exact failed_factorEffect row same stored unlocked _
                          | some step =>
                              rw [← isTotp]
                              exact confirmed _ step (.totp step isTotp)
                  | email =>
                      dsimp only
                      split
                      · rw [← isTotp]
                        exact confirmed _ (-1) (.emailed isTotp)
                      · exact failed_factorEffect row same stored unlocked _

/-- A management email checks the password. -/
theorem managementEmail_factorEffect (db : MfaDb Hash Secret Digest) (emailAvailable : Bool)
    (token : Claims) (password : Password) (draws : MfaDraws Secret) (drawn : draws? = some draws) :
    FactorEffect keys passwordOnly draws? now db.row db.challenges token.sub .manage entries
      (FactorOperation.check keys now db (.managementEmail emailAvailable token password draws))
      (managementEmail keys draws now emailAvailable db token password) := by
  unfold FactorOperation.check managementEmail
  apply withAccount_factorEffect
  intro locked user row same stored unlocked
  split
  · exact failed_factorEffect row same stored unlocked _
  · split
    · exact .unchanged locked _ row same (.inr ⟨_, rfl⟩)
    · split
      · exact .unchanged locked _ row same (.inr ⟨_, rfl⟩)
      · next change allowed =>
          apply challenged_factorEffect row same stored (emailLimit_keeps allowed _) drawn
          intro impossible
          cases impossible

/-- A change of the method checks the password and then the factor. -/
theorem changeMethod_factorEffect (db : MfaDb Hash Secret Digest) (regenerate : Bool)
    (token : Claims) (presented : Option ChallengeClaims) (password : Password)
    (code : Option Str) (transport : Transport) (draws : MfaDraws Secret)
    (drawn : draws? = some draws) :
    FactorEffect keys passwordOnly draws? now db.row db.challenges token.sub .manage
      (FactorOperation.consequences keys
        (.changeMethod regenerate token presented password code transport draws :
          FactorOperation Hash Password Secret))
      (FactorOperation.check keys now db
        (.changeMethod regenerate token presented password code transport draws))
      (changeMethod keys draws now regenerate db token presented password code transport) := by
  unfold FactorOperation.check changeMethod
  apply withAccount_factorEffect
  intro locked user row same stored unlocked
  split
  · exact .unchanged locked _ row same (.inr ⟨_, rfl⟩)
  · split
    · exact failed_factorEffect row same stored unlocked _
    · dsimp only
      generalize named : (presented.filter fun claims =>
        claims.purpose = .manage ∧ claims.sub = token.sub ∧ claims.ver = user.tokenVersion).bind
          (fun claims => challengeRow locked claims now) = found
      have owned : ∀ challenge ∈ found, challenge ∈ db.challenges ∧
          challenge.userId = token.sub := by
        rintro challenge rfl
        obtain ⟨claims, kept, matched⟩ := Option.bind_eq_some_iff.mp named
        obtain ⟨_, mine⟩ := Option.filter_eq_some_iff.mp kept
        rw [decide_eq_true_eq] at mine
        obtain ⟨member, owner, _⟩ := challengeRow_spec matched
        rw [same] at member
        exact ⟨member, owner.trans mine.2.1⟩
      rw [checkFactor_eq]
      cases result : factorProof keys (db.row token.sub) code found now with
      | error failure => exact failed_factorEffect row same stored unlocked _
      | ok proof =>
          cases proof with
          | none => exact failed_factorEffect row same stored unlocked _
          | some proof =>
              have accepts := factorProof_accepts result
              cases regenerate with
              | true =>
                  refine .regenerated _ _ ?_ rfl unlocked draws drawn found owned proof accepts
                    ?_ ?_
                  · intro error impossible
                    cases impossible
                  · show (newRecoveryCodes keys draws _ _).row = _
                    rw [newRecoveryCodes, MfaDb.changeAccount_changeAccount,
                      MfaDb.changeAccount_changeAccount, MfaDb.row_changeAccount stored, row]
                    rfl
                  · show locked.challenges.filter _ = _
                    rw [same]
              | false =>
                  refine .disabled _ _ ?_ rfl unlocked found owned proof accepts ?_ ?_
                  · intro error impossible
                    cases impossible
                  · show (((locked.changeAccount _ _).changeAccount _ _).changeAccount _ _).row = _
                    rw [MfaDb.changeAccount_changeAccount,
                      MfaDb.changeAccount_changeAccount, MfaDb.row_changeAccount stored, row]
                    rfl
                  · show locked.challenges.filter _ = _
                    rw [same]

/-- A resent code makes no check. -/
theorem resend_factorEffect (db : MfaDb Hash Secret Digest) (emailAvailable : Bool)
    (claims : ChallengeClaims) (draws : MfaDraws Secret) (drawn : draws? = some draws) :
    FactorEffect keys passwordOnly draws? now db.row db.challenges claims.sub
      (if claims.purpose = .login then .login else .manage) entries none
      (resend keys draws now emailAvailable db claims) := by
  unfold resend
  generalize (if claims.purpose = .login then Scope.login else .manage) = scope
  have none : FactorOperation.checkedUnderLock now db claims.sub claims.ver scope
      (fun _ _ _ => none) = (none : Option (Verdict Secret Digest)) := by
    unfold FactorOperation.checkedUnderLock
    split
    · rfl
    · split <;> rfl
  rw [← none]
  apply withAccount_factorEffect
  intro locked user row same stored unlocked
  cases challengeRow locked claims now with
  | none => exact .unchanged locked _ row same (.inr ⟨_, rfl⟩)
  | some challenge =>
      dsimp only
      split
      · exact .unchanged locked _ row same (.inr ⟨_, rfl⟩)
      · split
        · exact .unchanged locked _ row same (.inr ⟨_, rfl⟩)
        · split
          · exact .unchanged locked _ row same (.inr ⟨_, rfl⟩)
          · next change allowed =>
              apply challenged_factorEffect row same stored (emailLimit_keeps allowed _) drawn
              intro _ impossible
              cases impossible

/-- Every operation has one of the effects. -/
theorem FactorOperation.effect [DecidableEq Hash] (keys : MfaKeys Hash Password Secret Digest) (now : Nat)
    (db : MfaDb Hash Secret Digest) (operation : FactorOperation Hash Password Secret) :
    FactorEffect keys operation.passwordOnly operation.draws? now db.row db.challenges
      operation.userId operation.scope (operation.consequences keys)
      (operation.check keys now db) (operation.run keys now db) := by
  cases operation with
  | beginLogin emailAvailable userId original transport draws =>
      exact beginLogin_factorEffect db emailAvailable userId original transport draws rfl
  | verifyLogin claims code => exact verifyLogin_factorEffect db claims code
  | setup stableKeys emailAvailable validAddress token method email password draws =>
      exact setup_factorEffect db stableKeys emailAvailable validAddress token method email password
        draws rfl
  | confirm token claims code transport draws =>
      exact confirm_factorEffect db token claims code transport draws rfl
  | managementEmail emailAvailable token password draws =>
      exact managementEmail_factorEffect db emailAvailable token password draws rfl
  | changeMethod regenerate token presented password code transport draws =>
      exact changeMethod_factorEffect db regenerate token presented password code transport draws rfl
  | resend emailAvailable claims draws =>
      exact resend_factorEffect db emailAvailable claims draws rfl

/-- A sign-in that is not by a password alone comes from an accepted proof. -/
theorem FactorOperation.signedIn_passed [DecidableEq Hash] (keys : MfaKeys Hash Password Secret Digest) {now : Nat}
    {db : MfaDb Hash Secret Digest} {operation : FactorOperation Hash Password Secret}
    (factor : operation.passwordOnly = false) {userId : Nat} {user : UserRow Hash}
    {transport : Transport} {codes : List Str}
    (signedIn : (operation.run keys now db).2 = .signedIn userId user transport codes) :
    ∃ proof, operation.check keys now db = some (.passed proof) := by
  have effect := operation.effect keys now db
  rw [factor] at effect
  generalize operation.check keys now db = verdict at effect
  generalize operation.run keys now db = outcome at effect signedIn
  generalize operation.consequences keys = entries at effect
  cases effect with
  | unchanged next reply row same answer =>
      rcases answer with impossible | ⟨error, rfl⟩
      · cases impossible
      · cases signedIn
  | challenged | failed => cases signedIn
  | verified next user transport login unlocked challenge stored proof => exact ⟨proof, rfl⟩
  | enrolled next reply accepted manage unlocked draws drawn challenge stored owner purpose proof =>
      exact ⟨proof, rfl⟩
  | regenerated next reply accepted manage unlocked draws drawn found stored proof =>
      exact ⟨proof, rfl⟩
  | disabled next reply accepted manage unlocked found stored proof => exact ⟨proof, rfl⟩

/-- These are the entries of a verdict, the newest first. -/
def verdictEntries (userId : Nat) (scope : Scope) (now : Nat)
    (consequences : List (FactorEntry Secret Digest)) :
    Option (Verdict Secret Digest) → List (FactorEntry Secret Digest)
  | none => []
  | some .failed => [.failed userId scope now]
  | some (.passed proof) => consequences ++ [.accepted userId scope proof]

/-- The entries of an operation are the ones of its verdict. -/
theorem FactorState.entries_eq (now : Nat) (db : MfaDb Hash Secret Digest)
    (operation : FactorOperation Hash Password Secret) :
    FactorState.entries keys now db operation = verdictEntries operation.userId operation.scope now
      (operation.consequences keys) (operation.check keys now db) := by
  unfold FactorState.entries verdictEntries
  rfl

end Operations

end Rows

end SubtitleTranslator.Auth
