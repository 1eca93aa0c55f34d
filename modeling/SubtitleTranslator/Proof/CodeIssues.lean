import SubtitleTranslator.Proof.FactorEffects
import SubtitleTranslator.Proof.SecondFactor

namespace SubtitleTranslator.Auth
open Library Library.Text

section Tables
variable {Secret Digest : Type}

/-- A failed check of another budget, or one that does not exhaust the sign-in budget, locks no
sign-in. -/
theorem spend_unlocked {account : MfaAccount Secret Digest} {scope : Scope} {now : Nat}
    (unlocked : account.lockedUntil ≤ now)
    (spared : scope = .login → ¬5 ≤ account.failures + 1) :
    (account.spend scope now).lockedUntil ≤ now := by
  rw [MfaAccount.spend]
  cases scope with
  | login =>
      have left : ¬5 ≤ account.scopeFailures .login + 1 := spared rfl
      rw [if_neg left]
      exact Nat.zero_le _
  | manage => split <;> exact unlocked

theorem spend_method (account : MfaAccount Secret Digest) (scope : Scope) (now : Nat) :
    (account.spend scope now).method = account.method := by
  rw [MfaAccount.spend]
  split <;> exact setBudget_method ..

/-- A failed check keeps a sign-in challenge unless it exhausts the sign-in budget. -/
theorem mem_spendChallenges {account : MfaAccount Secret Digest} {scope : Scope} {userId : Nat}
    {challenges : List (Challenge Secret Digest)} {challenge : Challenge Secret Digest}
    (stored : challenge ∈ challenges) (login : challenge.purpose = .login)
    (spared : scope = .login → challenge.userId = userId → ¬5 ≤ account.failures + 1) :
    challenge ∈ spendChallenges account scope userId challenges := by
  rw [spendChallenges]
  split
  · next exhausted =>
      refine List.mem_filter.mpr ⟨stored, decide_eq_true ?_⟩
      rintro ⟨owner, revoked⟩
      rw [login] at revoked
      cases scope with
      | login => exact spared rfl owner exhausted
      | manage => cases revoked
  · exact stored

/-- A new challenge keeps the current ones of other accounts and purposes. -/
theorem mem_replaceChallenge {new challenge : Challenge Secret Digest} {now : Nat}
    {challenges : List (Challenge Secret Digest)} (stored : challenge ∈ challenges)
    (unexpired : now < challenge.expires)
    (other : challenge.userId = new.userId → challenge.purpose ≠ new.purpose) :
    challenge ∈ replaceChallenge new now challenges := by
  refine List.mem_cons_of_mem _ (List.mem_filter.mpr ⟨stored, decide_eq_true ?_⟩)
  rintro ⟨owner, same | expired⟩
  · exact other owner same
  · exact absurd unexpired (Nat.not_lt.mpr expired)

end Tables

section Operations
variable {Hash Password Secret Digest : Type} [Inhabited Secret]

/-- These tables are the ones under the lock of a user's account. -/
structure MfaDb.Locked (db locked : MfaDb Hash Secret Digest) (userId : Nat) (user : UserRow Hash) :
    Prop where
  found : db.users userId = some user
  active : user.active = true
  users : locked.users = db.users
  row : locked.row = db.row
  challenges : locked.challenges = db.challenges
  stored : locked.accounts userId = some (db.row userId)

/-- A current user is locked with the row of the account. -/
theorem MfaDb.lockAccount_current {db : MfaDb Hash Secret Digest} {userId : Nat}
    {user : UserRow Hash} (found : db.users userId = some user) (active : user.active = true) :
    ∃ locked, db.lockAccount userId user.tokenVersion = (locked, some (user, db.row userId)) ∧
      db.Locked locked userId user := by
  have locks : ∃ locked account,
      db.lockAccount userId user.tokenVersion = (locked, some (user, account)) := by
    rw [MfaDb.lockAccount, found]
    dsimp only
    rw [if_pos ⟨active, rfl⟩]
    split <;> exact ⟨_, _, rfl⟩
  obtain ⟨locked, account, same⟩ := locks
  obtain ⟨row, challenges, stored⟩ := db.lockAccount_rows userId user.tokenVersion
  have quiet := (db.lockAccount_spec userId user.tokenVersion).1
  rw [same] at row challenges stored quiet
  have here : locked.accounts userId = some account := stored user account rfl
  have known : db.row userId = account := by
    rw [← row]
    exact MfaDb.row_eq here
  subst known
  exact ⟨locked, same, found, active, quiet.users, row, challenges, here⟩

theorem MfaDb.lockAccount_cases (db : MfaDb Hash Secret Digest) (userId version : Nat) :
    (∃ locked, db.lockAccount userId version = (locked, none)) ∨
      ∃ locked user, db.lockAccount userId version = (locked, some (user, db.row userId)) ∧
        db.Locked locked userId user ∧ user.tokenVersion = version := by
  cases found : db.users userId with
  | none => exact .inl ⟨db, by rw [MfaDb.lockAccount, found]⟩
  | some user =>
      by_cases current : user.active = true ∧ user.tokenVersion = version
      · obtain ⟨locked, same, facts⟩ := MfaDb.lockAccount_current found current.1
        rw [current.2] at same
        exact .inr ⟨locked, user, same, facts, current.2⟩
      · refine .inl ⟨db, ?_⟩
        rw [MfaDb.lockAccount, found]
        dsimp only
        rw [if_neg current]

omit [Inhabited Secret] in
theorem unlocked_of_guard {account : MfaAccount Secret Digest} {now : Nat}
    (unlocked : guardBudget account .login now = none) : account.lockedUntil ≤ now := by
  by_contra locked
  rw [guardBudget] at unlocked
  have still : now < account.scopeLockedUntil .login := Nat.lt_of_not_le locked
  rw [if_pos still] at unlocked
  cases unlocked

/-- An operation under the account lock refuses or goes on with the locked rows. -/
theorem withAccount_cases {P : MfaDb Hash Secret Digest × MfaReply Hash → Prop}
    {db : MfaDb Hash Secret Digest} {userId version now : Nat} {scope : Scope}
    {body : MfaDb Hash Secret Digest → UserRow Hash → MfaAccount Secret Digest →
      MfaDb Hash Secret Digest × MfaReply Hash}
    (refused : ∀ next error, P (next, .refused error))
    (goesOn : ∀ locked user, db.Locked locked userId user → user.tokenVersion = version →
      guardBudget (db.row userId) scope now = none → P (body locked user (db.row userId))) :
    P (withAccount db userId version scope now body) := by
  unfold withAccount
  rcases db.lockAccount_cases userId version with ⟨locked, same⟩ | ⟨locked, user, same, facts, version⟩
  · rw [same]
    exact refused locked _
  · rw [same]
    dsimp only
    split
    · exact refused locked _
    · next open_ => exact goesOn locked user facts version open_

omit [Inhabited Secret] in
theorem failed_reply (db : MfaDb Hash Secret Digest) (userId : Nat)
    (account : MfaAccount Secret Digest) (scope : Scope) (now : Nat) (error : MfaError) :
    (failed db userId account scope now error).2 = .refused error := by
  unfold failed
  split <;> rfl

/-- An operation is refused or replaces the token version of its user. -/
inductive Rotates (db : MfaDb Hash Secret Digest) (userId : Nat) :
    MfaDb Hash Secret Digest × MfaReply Hash → Prop where
  | refused (next : MfaDb Hash Secret Digest) (reply : MfaReply Hash) (error : MfaError)
      (refuses : reply = .refused error) : Rotates db userId (next, reply)
  | rotated (next : MfaDb Hash Secret Digest) (user : UserRow Hash) (transport : Transport)
      (codes : List Str) (current : db.users userId = some user)
      (users : next.users = Function.update db.users userId (some (rotateVersion user))) :
      Rotates db userId (next, .signedIn userId (rotateVersion user) transport codes)

omit [Inhabited Secret] in
theorem rotates_failed (db locked : MfaDb Hash Secret Digest) (userId : Nat)
    (account : MfaAccount Secret Digest) (scope : Scope) (now : Nat) (error : MfaError) :
    Rotates db userId (failed locked userId account scope now error) :=
  .refused _ _ error (failed_reply ..)

section Rotation
variable [DecidableEq Digest] (keys : MfaKeys Hash Password Secret Digest) (draws : MfaDraws Secret)
  (now : Nat) (db : MfaDb Hash Secret Digest)

theorem confirm_rotates (token : Claims) (claims : ChallengeClaims) (code : Option Str)
    (transport : Transport) :
    Rotates db claims.sub (confirm keys draws now db token claims code transport) := by
  unfold confirm
  split
  · exact .refused _ _ _ rfl
  · refine withAccount_cases (fun next error => .refused next _ error rfl) ?_
    intro locked user facts _ _
    split
    · dsimp only
      split
      · exact rotates_failed ..
      · exact rotates_failed ..
      · exact .rotated _ user transport _ facts.found (by
          show Function.update locked.users _ _ = _
          rw [facts.users])
    · exact .refused _ _ _ rfl

theorem changeMethod_rotates (regenerate : Bool) (token : Claims)
    (presented : Option ChallengeClaims) (password : Password) (code : Option Str)
    (transport : Transport) :
    Rotates db token.sub (changeMethod keys draws now regenerate db token presented password code
      transport) := by
  unfold changeMethod
  refine withAccount_cases (fun next error => .refused next _ error rfl) ?_
  intro locked user facts _ _
  split
  · exact .refused _ _ _ rfl
  · split
    · exact rotates_failed ..
    · dsimp only
      split
      · exact rotates_failed ..
      · exact rotates_failed ..
      · split <;> exact .rotated _ user transport _ facts.found (by
          show Function.update locked.users _ _ = _
          rw [facts.users])

/-- A sign-in is refused or removes its challenge. -/
theorem verifyLogin_removes (claims : ChallengeClaims) (code : Option Str) :
    (∃ error, (verifyLogin keys now db claims code).2 = .refused error) ∨
      (∃ user transport, (verifyLogin keys now db claims code).2 = .signedIn claims.sub user transport []) ∧
        (verifyLogin keys now db claims code).1.challenges =
          db.challenges.filter fun other => other.id ≠ claims.cid := by
  unfold verifyLogin
  split
  · exact .inl ⟨_, rfl⟩
  · refine withAccount_cases
      (P := fun result => (∃ error, result.2 = .refused error) ∨
        (∃ user transport, result.2 = .signedIn claims.sub user transport []) ∧
          result.1.challenges = db.challenges.filter fun other => other.id ≠ claims.cid)
      (fun next error => .inl ⟨error, rfl⟩) ?_
    intro locked user facts _ _
    split
    · next challenge method found enrolled =>
        split
        · exact .inl ⟨_, failed_reply ..⟩
        · exact .inl ⟨_, failed_reply ..⟩
        · refine .inr ⟨⟨user, _, rfl⟩, ?_⟩
          have matched := List.find?_some found
          rw [decide_eq_true_eq] at matched
          show locked.challenges.filter _ = _
          rw [facts.challenges, matched.1]
    · exact .inl ⟨_, rfl⟩

end Rotation

section Issuing
variable (keys : MfaKeys Hash Password Secret Digest) (draws : MfaDraws Secret)
  (now : Nat) (db : MfaDb Hash Secret Digest)

/-- No sign-in challenge with an email is current for the user. -/
def NoCurrentCode (userId version : Nat) : Prop :=
  ∀ challenge ∈ db.challenges, challenge.userId = userId → challenge.version = version →
    challenge.purpose = .login → challenge.method = .email → challenge.expires ≤ now

/-- A reply with a challenge names a stored one or the one that was made. A sign-in challenge
without a code is made for an account with email only when no other is current. -/
inductive Issues (userId : Nat) : MfaDb Hash Secret Digest × MfaReply Hash → Prop where
  | refused (next : MfaDb Hash Secret Digest) (error : MfaError) :
      Issues userId (next, .refused error)
  | signedIn (next : MfaDb Hash Secret Digest) (user : UserRow Hash) (transport : Transport)
      (codes : List Str) : Issues userId (next, .signedIn userId user transport codes)
  | reissued (next : MfaDb Hash Secret Digest) (claims : ChallengeClaims) (method : MfaMethod)
      (warning : Option String) (same : next.challenges = db.challenges) :
      Issues userId (next, .challenged claims method [] warning)
  | created (next : MfaDb Hash Secret Digest) (user : UserRow Hash) (new : Challenge Secret Digest)
      (method : MfaMethod) (code : Str) (warning : Option String)
      (found : db.users userId = some user) (active : user.active = true)
      (owner : new.userId = userId) (version : new.version = user.tokenVersion)
      (id : new.id = draws.challengeId)
      (replaced : next.challenges = replaceChallenge new now db.challenges)
      (sent : code ≠ [] → code = draws.code ∧ new.method = .email ∧
        new.codeHash = some (keys.digestCode new.id code))
      (unlocked : new.purpose = .login → (db.row userId).lockedUntil ≤ now)
      (unsent : code = [] → new.purpose = .login → (db.row userId).method = some .email →
        NoCurrentCode now db userId user.tokenVersion) :
      Issues userId (next, .challenged (encodeChallenge userId user new.id new.purpose now new.expires
        new.transport) method code warning)

variable {keys draws now db}

theorem failed_issues (locked : MfaDb Hash Secret Digest) (userId : Nat)
    (account : MfaAccount Secret Digest) (scope : Scope) (now' : Nat) (error : MfaError) :
    Issues keys draws now db userId (failed locked userId account scope now' error) := by
  unfold failed
  split <;> exact .refused _ error

theorem createChallenge_issues {locked : MfaDb Hash Secret Digest} {userId : Nat}
    {user : UserRow Hash} (facts : db.Locked locked userId user) (purpose : Purpose)
    (method : MfaMethod) (email : Str) (secret : Secret) (transport : Transport) (send : Bool)
    (warning : Option String)
    (change : MfaAccount Secret Digest → MfaAccount Secret Digest)
    (unlocked : purpose = .login → (db.row userId).lockedUntil ≤ now)
    (unsent : ¬(method = .email ∧ send = true) → purpose = .login →
      (db.row userId).method = some .email → NoCurrentCode now db userId user.tokenVersion)
    (coded : draws.code ≠ []) :
    Issues keys draws now db userId
      ((createChallenge keys draws now (locked.changeAccount userId change) userId user
          purpose method email secret transport send).1,
        .challenged (createChallenge keys draws now (locked.changeAccount userId change) userId user
          purpose method email secret transport send).2.1 method
          (createChallenge keys draws now (locked.changeAccount userId change) userId user
            purpose method email secret transport send).2.2 warning) := by
  unfold createChallenge
  dsimp only
  let new : Challenge Secret Digest :=
    { id := draws.challengeId
      userId := userId
      version := user.tokenVersion
      purpose := purpose
      method := method
      secret := secret
      email := email
      codeHash :=
        if (if method = .email ∧ send = true then draws.code else []) = [] then none
        else some (keys.digestCode draws.challengeId
          (if method = .email ∧ send = true then draws.code else []))
      expires := now + if purpose = .enroll ∧ method = .totp then 600 else 300
      transport := transport }
  refine .created _ user new _ _ _ facts.found facts.active rfl rfl rfl ?_ ?_ unlocked ?_
  · show replaceChallenge _ _ locked.challenges = _
    rw [facts.challenges]
  · intro nonempty
    by_cases sends : method = .email ∧ send = true
    · rw [if_pos sends] at nonempty ⊢
      refine ⟨rfl, sends.1, ?_⟩
      simp only [new, if_pos sends, if_neg nonempty]
    · rw [if_neg sends] at nonempty
      exact absurd rfl nonempty
  · intro empty
    by_cases sends : method = .email ∧ send = true
    · rw [if_pos sends] at empty
      exact absurd empty coded
    · exact unsent sends

theorem beginLogin_issues [DecidableEq Hash] (emailAvailable : Bool) (userId : Nat)
    (original : UserRow Hash) (transport : Transport) (coded : draws.code ≠ []) :
    Issues keys draws now db userId
      (beginLogin keys draws now emailAvailable db userId original transport) := by
  unfold beginLogin
  rcases db.lockAccount_cases userId original.tokenVersion with
    ⟨locked, same⟩ | ⟨locked, user, same, facts, _⟩
  · rw [same]
    exact .refused locked _
  · rw [same]
    dsimp only
    split
    · exact .refused locked _
    · split
      · exact .signedIn locked user transport []
      · next method enrolled =>
          split
          · exact .refused locked _
          · have unlocked := unlocked_of_guard (by assumption)
            by_cases send : method = .email ∧ emailAvailable = true ∧
                (emailLimit (db.row userId) now).toOption.isSome = true
            · have reserved : ¬(method = .email ∧ ¬(method = .email ∧ emailAvailable = true ∧
                  (emailLimit (db.row userId) now).toOption.isSome = true)) :=
                fun both => both.2 send
              rw [if_neg reserved, if_pos send]
              refine createChallenge_issues facts .login method _ _ transport _ _ _ (fun _ => unlocked) ?_ coded
              intro silent
              exact absurd ⟨send.1, decide_eq_true send⟩ silent
            · rw [if_neg send]
              split
              · exact .reissued locked _ _ _ facts.challenges
              · next none_ =>
                  rw [← locked.changeAccount_id userId]
                  refine createChallenge_issues facts .login method _ _ transport _ _ _ (fun _ => unlocked) ?_ coded
                  intro _ _ email
                  -- The method is email, so the search for a current challenge found none.
                  rw [enrolled] at email
                  cases email
                  rw [if_pos ⟨rfl, send⟩, reissueLoginChallenge, Option.map_eq_none_iff,
                    List.argmax_eq_none, List.filter_eq_nil_iff] at none_
                  intro challenge member owner version purpose method
                  have absent := none_ challenge (facts.challenges ▸ member)
                  rw [decide_eq_true_eq] at absent
                  by_contra current
                  exact absent ⟨owner, version, purpose, method, Nat.lt_of_not_le current⟩

theorem setup_issues (stableKeys emailAvailable validAddress : Bool) (token : Claims)
    (method : Option MfaMethod) (email : Str) (password : Password) (coded : draws.code ≠ []) :
    Issues keys draws now db token.sub (setup keys draws now stableKeys emailAvailable validAddress
      db token method email password) := by
  unfold setup
  cases method with
  | none => exact .refused db _
  | some method =>
      dsimp only
      split
      · exact .refused db _
      · split
        · exact .refused db _
        · split
          · exact .refused db _
          · refine withAccount_cases (fun next error => .refused next error) ?_
            intro locked user facts _ _
            split
            · exact failed_issues ..
            · split
              · exact .refused locked _
              · split
                · exact .refused locked _
                · exact createChallenge_issues facts _ _ _ _ _ _ _ _ (fun impossible => nomatch impossible)
                    (fun _ impossible => nomatch impossible) coded

theorem managementEmail_issues (emailAvailable : Bool) (token : Claims) (password : Password)
    (coded : draws.code ≠ []) :
    Issues keys draws now db token.sub
      (managementEmail keys draws now emailAvailable db token password) := by
  unfold managementEmail
  refine withAccount_cases (fun next error => .refused next error) ?_
  intro locked user facts _ _
  split
  · exact failed_issues ..
  · split
    · exact .refused locked _
    · split
      · exact .refused locked _
      · exact createChallenge_issues facts _ _ _ _ _ _ _ _ (fun impossible => nomatch impossible)
          (fun _ impossible => nomatch impossible) coded

theorem resend_issues (emailAvailable : Bool) (claims : ChallengeClaims) (coded : draws.code ≠ []) :
    Issues keys draws now db claims.sub (resend keys draws now emailAvailable db claims) := by
  unfold resend
  refine withAccount_cases (fun next error => .refused next error) ?_
  intro locked user facts _ guarded
  split
  · exact .refused locked _
  · next challenge found =>
      split
      · exact .refused locked _
      · split
        · exact .refused locked _
        · split
          · exact .refused locked _
          · refine createChallenge_issues facts _ _ _ _ _ _ _ _ ?_
              (fun silent => absurd ⟨rfl, rfl⟩ silent) coded
            intro login
            rw [(challengeRow_spec found).2.2] at login
            rw [if_pos login] at guarded
            exact unlocked_of_guard guarded

end Issuing

section Checks
variable [DecidableEq Hash] [DecidableEq Digest] {keys : MfaKeys Hash Password Secret Digest}
  {now : Nat} {db : MfaDb Hash Secret Digest} {operation : FactorOperation Hash Password Secret}

omit [DecidableEq Hash] [DecidableEq Digest] in
theorem checkedUnderLock_some {userId version : Nat} {scope : Scope}
    {check : MfaDb Hash Secret Digest → UserRow Hash → MfaAccount Secret Digest →
      Option (Verdict Secret Digest)} {verdict : Verdict Secret Digest}
    (checked : FactorOperation.checkedUnderLock now db userId version scope check = some verdict) :
    ∃ locked user account, check locked user account = some verdict := by
  unfold FactorOperation.checkedUnderLock at checked
  split at checked
  · cases checked
  · split at checked
    · cases checked
    · exact ⟨_, _, _, checked⟩

omit [DecidableEq Hash] [DecidableEq Digest] in
/-- A password that is only checked for failure proves no factor. -/
theorem password_not_passed {userId version : Nat} {scope : Scope} {password : Password}
    {proof : FactorProof Secret Digest}
    (checked : FactorOperation.checkedUnderLock now db userId version scope (fun _ user _ =>
      if ¬keys.verifyPassword user.passwordHash password then some .failed else none) =
        some (.passed proof)) : False := by
  obtain ⟨_, user, _, verdict⟩ := checkedUnderLock_some checked
  split at verdict <;> cases verdict

/-- A passed check verifies a sign-in or ends the sessions of its user. -/
theorem FactorOperation.passed_cases {proof : FactorProof Secret Digest}
    (passed : operation.check keys now db = some (.passed proof)) :
    (∃ claims code, operation = .verifyLogin claims code) ∨
      operation.scope = .manage ∧ Rotates db operation.userId (operation.run keys now db) := by
  cases operation with
  | beginLogin emailAvailable userId original transport draws => cases passed
  | resend emailAvailable claims draws => cases passed
  | verifyLogin claims code => exact .inl ⟨claims, code, rfl⟩
  | confirm token claims code transport draws => exact .inr ⟨rfl, confirm_rotates ..⟩
  | changeMethod regenerate token presented password code transport draws =>
      exact .inr ⟨rfl, changeMethod_rotates ..⟩
  | managementEmail emailAvailable token password draws => exact (password_not_passed passed).elim
  | setup stableKeys emailAvailable validAddress token method email password draws =>
      unfold FactorOperation.check at passed
      cases method with
      | none => cases passed
      | some method =>
          dsimp only at passed
          split at passed
          · cases passed
          · split at passed
            · cases passed
            · split at passed
              · cases passed
              · exact (password_not_passed passed).elim

omit [DecidableEq Hash] [DecidableEq Digest] [Inhabited Secret] in
/-- An operation that replaces a token version asks for no code. -/
theorem Rotates.never_asks {userId : Nat} {outcome : MfaDb Hash Secret Digest × MfaReply Hash}
    (rotates : Rotates db userId outcome) (claims : ChallengeClaims) (method : MfaMethod) (code : Str)
    (warning : Option String) : outcome.2 ≠ .challenged claims method code warning := by
  rintro asks
  cases rotates with
  | refused next reply error refuses =>
      rw [refuses] at asks
      cases asks
  | rotated => cases asks

omit [DecidableEq Hash] in
/-- A verification asks for no code. -/
theorem verifyLogin_never_asks (token : ChallengeClaims) (submitted : Option Str)
    (claims : ChallengeClaims) (method : MfaMethod) (code : Str) (warning : Option String) :
    (verifyLogin keys now db token submitted).2 ≠ .challenged claims method code warning := by
  intro asks
  rcases verifyLogin_removes keys now db token submitted with
    ⟨error, refuses⟩ | ⟨⟨user, transport, signs⟩, _⟩
  · rw [refuses] at asks
    cases asks
  · rw [signs] at asks
    cases asks

/-- An operation that asks for a code accepts no proof. -/
theorem FactorOperation.not_passed {claims : ChallengeClaims} {method : MfaMethod} {code : Str}
    {warning : Option String}
    (asks : (operation.run keys now db).2 = .challenged claims method code warning)
    (proof : FactorProof Secret Digest) : operation.check keys now db ≠ some (.passed proof) := by
  intro passed
  rcases FactorOperation.passed_cases passed with ⟨token, submitted, rfl⟩ | ⟨_, rotates⟩
  · exact verifyLogin_never_asks _ _ _ _ _ _ asks
  · exact rotates.never_asks _ _ _ _ asks

variable (keys now db) in
/-- An operation never asks for a code, or it issues a challenge with its own values. -/
theorem FactorOperation.issues (coded : ∀ draws ∈ operation.draws?, draws.code ≠ []) :
    (∀ claims method code warning,
      (operation.run keys now db).2 ≠ .challenged claims method code warning) ∨
      ∃ draws ∈ operation.draws?, Issues keys draws now db operation.userId (operation.run keys now db) := by
  cases operation with
  | beginLogin emailAvailable userId original transport draws =>
      exact .inr ⟨draws, rfl, beginLogin_issues _ _ _ _ (coded draws rfl)⟩
  | verifyLogin claims code => exact .inl (verifyLogin_never_asks claims code)
  | setup stableKeys emailAvailable validAddress token method email password draws =>
      exact .inr ⟨draws, rfl, setup_issues _ _ _ _ _ _ _ (coded draws rfl)⟩
  | confirm token claims code transport draws => exact .inl (confirm_rotates ..).never_asks
  | managementEmail emailAvailable token password draws =>
      exact .inr ⟨draws, rfl, managementEmail_issues _ _ _ (coded draws rfl)⟩
  | changeMethod regenerate token presented password code transport draws =>
      exact .inl (changeMethod_rotates ..).never_asks
  | resend emailAvailable claims draws =>
      exact .inr ⟨draws, rfl, resend_issues _ _ (coded draws rfl)⟩

/-- Every challenge after an operation was there before or has the drawn id. -/
theorem FactorOperation.challenges_run {later : Challenge Secret Digest}
    (member : later ∈ (operation.run keys now db).1.challenges) :
    later ∈ db.challenges ∨ ∃ draws ∈ operation.draws?, later.id = draws.challengeId := by
  have effect := operation.effect keys now db
  generalize operation.run keys now db = outcome at effect member
  generalize operation.check keys now db = verdict at effect
  generalize operation.consequences keys = entries at effect
  cases effect with
  | unchanged next reply row same => exact .inl (same ▸ member)
  | challenged next claims method code warning draws drawn sent keeps row new owner id secret replaced =>
      rw [replaced, replaceChallenge, List.mem_cons] at member
      rcases member with rfl | kept
      · exact .inr ⟨draws, drawn, id⟩
      · exact .inl (List.mem_of_mem_filter kept)
  | failed next error unlocked row revoked =>
      rw [revoked, spendChallenges] at member
      split at member
      · exact .inl (List.mem_of_mem_filter member)
      · exact .inl member
  | verified next user transport login unlocked challenge stored proof accepts row removed =>
      rw [removed] at member
      exact .inl (List.mem_of_mem_filter member)
  | enrolled next reply accepted manage unlocked draws drawn challenge stored owner purpose proof step
      enrolls row removed =>
      rw [removed] at member
      exact .inl (List.mem_of_mem_filter member)
  | regenerated next reply accepted manage unlocked draws drawn found stored proof accepts row removed =>
      rw [removed] at member
      exact .inl (List.mem_of_mem_filter member)
  | disabled next reply accepted manage unlocked found stored proof accepts row removed =>
      rw [removed] at member
      exact .inl (List.mem_of_mem_filter member)

variable (keys now db operation) in
/-- An operation keeps the rows of the users, or it replaces the token version of one. -/
theorem FactorOperation.users_run :
    (operation.run keys now db).1.users = db.users ∨
      ∃ userId user, db.users userId = some user ∧ (operation.run keys now db).1.users =
        Function.update db.users userId (some (rotateVersion user)) ∧
        ∃ transport codes, (operation.run keys now db).2 =
          .signedIn userId (rotateVersion user) transport codes := by
  have users {verified : Bool} {outcome : MfaDb Hash Secret Digest × MfaReply Hash}
      (effect : MfaEffect verified db outcome) :
      outcome.1.users = db.users ∨ ∃ userId user, db.users userId = some user ∧
        outcome.1.users = Function.update db.users userId (some (rotateVersion user)) ∧
        ∃ transport codes, outcome.2 = .signedIn userId (rotateVersion user) transport codes := by
    cases effect with
    | refused next error quiet => exact .inl quiet.users
    | challenged next claims method code warning quiet => exact .inl quiet.users
    | signedIn next userId user transport quiet => exact .inl quiet.users
    | rotated next userId user transport codes current users =>
        exact .inr ⟨userId, user, current, users, transport, codes, rfl⟩
  cases operation with
  | beginLogin emailAvailable userId original transport draws => exact users (beginLogin_effect ..)
  | verifyLogin claims code => exact users (verifyLogin_effect ..)
  | setup stableKeys emailAvailable validAddress token method email password draws =>
      exact users (setup_effect keys draws now false ..)
  | confirm token claims code transport draws => exact users (confirm_effect ..)
  | managementEmail emailAvailable token password draws =>
      exact users (managementEmail_effect keys draws now false ..)
  | changeMethod regenerate token presented password code transport draws =>
      exact users (changeMethod_effect ..)
  | resend emailAvailable claims draws => exact users (resend_effect keys draws now false ..)

omit [DecidableEq Hash] [DecidableEq Digest] in
theorem MfaDb.row_method (db : MfaDb Hash Secret Digest) (userId : Nat) :
    (db.row userId).method = db.method userId := by
  rw [MfaDb.row, MfaDb.method]
  cases db.accounts userId <;> rfl

/-- An operation that asks for a code keeps the methods and the sign-in locks. -/
theorem FactorOperation.row_of_asks {claims : ChallengeClaims} {code : Str} {method : MfaMethod} {warning : Option String}
    (asks : (operation.run keys now db).2 = .challenged claims method code warning) (userId : Nat) :
    ((operation.run keys now db).1.row userId).method = (db.row userId).method ∧
      ((operation.run keys now db).1.row userId).lockedUntil = (db.row userId).lockedUntil := by
  have effect := operation.effect keys now db
  have unproved := FactorOperation.not_passed asks
  generalize operation.run keys now db = outcome at effect asks ⊢
  generalize operation.check keys now db = verdict at effect unproved
  generalize operation.consequences keys = entries at effect
  cases effect with
  | unchanged after reply row same =>
      dsimp only
      rw [row]
      exact ⟨rfl, rfl⟩
  | challenged after issued method sent warning draws drawn row keeps rows =>
      dsimp only
      rw [rows]
      by_cases here : userId = operation.userId
      · rw [here, Function.update_self]
        exact ⟨keeps.method, keeps.lockedUntil .login⟩
      · rw [Function.update_of_ne here]
        exact ⟨rfl, rfl⟩
  | failed => cases asks
  | verified => cases asks
  | enrolled after reply accepted manage unlocked draws drawn challenge stored owner purpose proof =>
      exact absurd rfl (unproved proof)
  | regenerated after reply accepted manage unlocked draws drawn found stored proof =>
      exact absurd rfl (unproved proof)
  | disabled after reply accepted manage unlocked found stored proof => exact absurd rfl (unproved proof)

omit [DecidableEq Hash] [DecidableEq Digest] in
/-- An administrator keeps the challenges and the method of an account and locks no sign-in. -/
theorem updateAccount_keeps (userId : Nat) (change : UserChange Hash) (db : MfaDb Hash Secret Digest)
    (other : Nat) :
    (updateAccount userId change db).challenges = db.challenges ∧
      ((updateAccount userId change db).row other).method = (db.row other).method ∧
      ((updateAccount userId change db).row other).lockedUntil ≤ (db.row other).lockedUntil := by
  unfold updateAccount
  dsimp only
  split
  · refine ⟨rfl, ?_⟩
    by_cases same : other = userId
    · subst same
      cases stored : db.accounts other <;>
        simp [MfaDb.row, MfaDb.changeAccount, stored, MfaAccount.setBudget]
    · simp [MfaDb.row, MfaDb.changeAccount, Function.update_of_ne same]
  · exact ⟨rfl, rfl, le_rfl⟩

omit [Inhabited Secret] [DecidableEq Hash] in
/-- A factor check accepts the emailed code of a challenge. -/
theorem checkFactor_emailed {code : Str} {account : MfaAccount Secret Digest} {challenge : Challenge Secret Digest}
    (email : account.method = some .email) (method : challenge.method = .email)
    (hash : challenge.codeHash = some (keys.digestCode challenge.id code)) (short : code.length ≤ 64)
    (digits : ∀ c ∈ code, isAsciiDigit c = true) :
    ∃ change, checkFactor keys account (some code) (some challenge) now = .ok (some change) := by
  have plain : ∀ c ∈ code, isSpace c = false := by
    intro c member
    have digit := digits c member
    simp only [isAsciiDigit, isSpace, Bool.and_eq_true, decide_eq_true_eq, Bool.or_eq_false_iff,
      Bool.and_eq_false_iff, decide_eq_false_iff_not, beq_eq_false_iff_ne] at digit ⊢
    omega
  have submitted : submittedCode (some code) = some code := by
    rw [submittedCode, Option.filter_some, if_pos (decide_eq_true short), Option.map_some, strip_eq_self
      (fun c front => plain c (List.mem_of_mem_head? front))
      (fun c back => plain c (List.mem_of_mem_getLast? back))]
  rw [checkFactor, submitted, email]
  dsimp only
  split
  · exact ⟨_, rfl⟩
  · rw [if_pos ⟨method, hash⟩]
    exact ⟨_, rfl⟩

end Checks

end Operations

end SubtitleTranslator.Auth
