import SubtitleTranslator.Construction.Session
import SubtitleTranslator.Library.Text
import Mathlib.Data.List.MinMax

namespace SubtitleTranslator.Auth
open Library Library.Text

inductive MfaMethod where
  | totp
  | email
  deriving DecidableEq

inductive Purpose where
  | login
  | enroll
  | manage
  deriving DecidableEq

inductive Transport where
  | cookies
  | header
  deriving DecidableEq

/-- Sign-in and management keep separate failure budgets, the keys of `BUDGETS`. -/
inductive Scope where
  | login
  | manage
  deriving DecidableEq

/-- The row is one of `mfa_accounts`; `none` is the empty method. -/
structure MfaAccount (Secret Digest : Type) where
  method : Option MfaMethod
  secret : Secret
  email : Str
  lastStep : Int
  recoveryHashes : List Digest
  failures : Nat
  lockedUntil : Nat
  nextSend : Nat
  sendWindow : Nat
  sendCount : Nat
  manageFailures : Nat
  manageLockedUntil : Nat

/-- The row is one of `mfa_challenges`; `none` is the empty code hash. -/
structure Challenge (Secret Digest : Type) where
  id : Nat
  userId : Nat
  version : Nat
  purpose : Purpose
  method : MfaMethod
  secret : Secret
  email : Str
  codeHash : Option Digest
  expires : Nat
  transport : Transport

/-- These are the claims of a signed challenge token. -/
structure ChallengeClaims where
  sub : Nat
  ver : Nat
  cid : Nat
  purpose : Purpose
  iat : Nat
  exp : Nat
  tr : Option Transport

/-- These keyed functions are the password hasher, the stored secrets and the code digests;
`totp` is `none` when the secret cannot be decrypted. -/
structure MfaKeys (Hash Password Secret Digest : Type) where
  verifyPassword : Hash → Password → Bool
  totp : Secret → Option (Int → Str)
  digestCode : Nat → Str → Digest
  digestRecovery : Str → Digest

/-- These values are drawn at random for one request. -/
structure MfaDraws (Secret : Type) where
  challengeId : Nat
  code : Str
  secret : Secret
  recoveryCodes : List Str

/-- These are the tables that the operations share. -/
structure MfaDb (Hash Secret Digest : Type) where
  users : Nat → Option (UserRow Hash)
  accounts : Nat → Option (MfaAccount Secret Digest)
  challenges : List (Challenge Secret Digest)

structure MfaError where
  message : String
  status : Nat
  retryAfter : Option Nat

/-- An operation refuses, asks for a code, or signs in with the row that it read. -/
inductive MfaReply (Hash : Type) where
  | refused (error : MfaError)
  | challenged (claims : ChallengeClaims) (method : MfaMethod) (code : Str)
      (warning : Option String)
  | signedIn (userId : Nat) (user : UserRow Hash) (transport : Transport)
      (recoveryCodes : List Str)

def invalidCode : MfaError := ⟨"Invalid or expired verification code", 400, none⟩

def authenticationRequired : MfaError := ⟨"Authentication required", 401, none⟩

def emailUnavailable : MfaError :=
  ⟨"Email verification is unavailable; ask an administrator to configure email delivery", 503, none⟩

def emailCooldown (remaining : Nat) : MfaError :=
  ⟨"Please wait before requesting another email code", 429, some (max 1 remaining)⟩

def unsentWarning : String := "Email could not be sent. Retry later or use a recovery code."

def recentCodeWarning : String :=
  "A verification code was requested recently. " ++
    "Enter the latest code you received or use a recovery code."

variable {Hash Password Secret Digest : Type}

/-- The row that an insert with only a user id makes. -/
def MfaAccount.empty [Inhabited Secret] : MfaAccount Secret Digest where
  method := none
  secret := default
  email := []
  lastStep := -1
  recoveryHashes := []
  failures := 0
  lockedUntil := 0
  nextSend := 0
  sendWindow := 0
  sendCount := 0
  manageFailures := 0
  manageLockedUntil := 0

namespace MfaDb

/-- The method of a user who has no row is empty. -/
def method (db : MfaDb Hash Secret Digest) (userId : Nat) : Option MfaMethod :=
  (db.accounts userId).bind MfaAccount.method

/-- This function is `change_account`. -/
def changeAccount (db : MfaDb Hash Secret Digest) (userId : Nat)
    (change : MfaAccount Secret Digest → MfaAccount Secret Digest) : MfaDb Hash Secret Digest :=
  { db with accounts := Function.update db.accounts userId ((db.accounts userId).map change) }

/-- This function is `lock_account`. -/
def lockAccount [Inhabited Secret] (db : MfaDb Hash Secret Digest) (userId version : Nat) :
    MfaDb Hash Secret Digest × Option (UserRow Hash × MfaAccount Secret Digest) :=
  match db.users userId with
  | none => (db, none)
  | some user =>
      if user.active ∧ user.tokenVersion = version then
        match db.accounts userId with
        | some account => (db, some (user, account))
        | none =>
            ({ db with accounts := Function.update db.accounts userId (some .empty) },
              some (user, .empty))
      else (db, none)

end MfaDb

def MfaAccount.scopeLockedUntil (account : MfaAccount Secret Digest) : Scope → Nat
  | .login => account.lockedUntil
  | .manage => account.manageLockedUntil

def MfaAccount.scopeFailures (account : MfaAccount Secret Digest) : Scope → Nat
  | .login => account.failures
  | .manage => account.manageFailures

/-- The two columns of a budget are written together. -/
def MfaAccount.setBudget (account : MfaAccount Secret Digest) (scope : Scope)
    (failures lockedUntil : Nat) : MfaAccount Secret Digest :=
  match scope with
  | .login => { account with failures := failures, lockedUntil := lockedUntil }
  | .manage => { account with manageFailures := failures, manageLockedUntil := lockedUntil }

/-- These challenges are revoked when a budget is exhausted. -/
def Scope.revokes : Scope → Purpose → Bool
  | .login, .login => true
  | .manage, .enroll | .manage, .manage => true
  | _, _ => false

/-- This function is the lock part of `guard`. -/
def guardBudget (account : MfaAccount Secret Digest) (scope : Scope) (now : Nat) :
    Option MfaError :=
  if now < account.scopeLockedUntil scope then
    some ⟨"Too many verification attempts; try again later", 429,
      some (account.scopeLockedUntil scope - now)⟩
  else none

/-- An operation locks the account, checks its budget and goes on with the rows. -/
def withAccount [Inhabited Secret] (db : MfaDb Hash Secret Digest) (userId version : Nat)
    (scope : Scope) (now : Nat)
    (body : MfaDb Hash Secret Digest → UserRow Hash → MfaAccount Secret Digest →
      MfaDb Hash Secret Digest × MfaReply Hash) :
    MfaDb Hash Secret Digest × MfaReply Hash :=
  match db.lockAccount userId version with
  | (db, none) => (db, .refused authenticationRequired)
  | (db, some (user, account)) =>
      match guardBudget account scope now with
      | some error => (db, .refused error)
      | none => body db user account

/-- This function is `failed`: the fifth failure locks the budget for fifteen minutes. -/
def failed (db : MfaDb Hash Secret Digest) (userId : Nat) (account : MfaAccount Secret Digest)
    (scope : Scope) (now : Nat) (error : MfaError) :
    MfaDb Hash Secret Digest × MfaReply Hash :=
  if 5 ≤ account.scopeFailures scope + 1 then
    ({ db.changeAccount userId (·.setBudget scope 0 (now + 900)) with
        challenges := db.challenges.filter fun challenge =>
          ¬(challenge.userId = userId ∧ scope.revokes challenge.purpose) },
      .refused error)
  else
    (db.changeAccount userId (·.setBudget scope (account.scopeFailures scope + 1) 0),
      .refused error)

/-- This error is the one of `unreadable_factor`. -/
def unreadableFactor : MfaError :=
  ⟨"Your authenticator secret cannot be read. Use a recovery code " ++
    "and ask an administrator to restore the encryption key.", 503, none⟩

/-- This function is `email_limit`: the error, or the change that reserves a sending. -/
def emailLimit (account : MfaAccount Secret Digest) (now : Nat) :
    Except MfaError (MfaAccount Secret Digest → MfaAccount Secret Digest) :=
  if now < account.nextSend then .error (emailCooldown (account.nextSend - now))
  else
    let freshWindow := account.sendWindow + 3600 ≤ now
    if ¬freshWindow ∧ 10 ≤ account.sendCount then
      .error (emailCooldown (account.sendWindow + 3600 - now))
    else
      .ok fun row => { row with
        nextSend := now + 60
        sendWindow := if freshWindow then now else account.sendWindow
        sendCount := if freshWindow then 1 else account.sendCount + 1 }

/-- This function is `encode_challenge`. -/
def encodeChallenge (userId : Nat) (user : UserRow Hash) (challengeId : Nat) (purpose : Purpose)
    (now expires : Nat) (transport : Transport) : ChallengeClaims :=
  ⟨userId, user.tokenVersion, challengeId, purpose, now, expires, some transport⟩

/-- This function is `create_challenge`; it returns the claims and the code to send. -/
def createChallenge (keys : MfaKeys Hash Password Secret Digest) (draws : MfaDraws Secret)
    (now : Nat) (db : MfaDb Hash Secret Digest) (userId : Nat) (user : UserRow Hash)
    (purpose : Purpose) (method : MfaMethod) (email : Str) (secret : Secret)
    (transport : Transport) (send : Bool) :
    MfaDb Hash Secret Digest × ChallengeClaims × Str :=
  let code := if method = .email ∧ send then draws.code else []
  let expires := now + if purpose = .enroll ∧ method = .totp then 600 else 300
  let challenge : Challenge Secret Digest :=
    { id := draws.challengeId
      userId := userId
      version := user.tokenVersion
      purpose := purpose
      method := method
      secret := secret
      email := email
      codeHash := if code = [] then none else some (keys.digestCode draws.challengeId code)
      expires := expires
      transport := transport }
  ({ db with
      challenges := challenge :: db.challenges.filter fun other =>
        ¬(other.userId = userId ∧ (other.purpose = purpose ∨ other.expires ≤ now)) },
    encodeChallenge userId user draws.challengeId purpose now expires transport, code)

/-- This function is `reissue_login_challenge`. -/
def reissueLoginChallenge (db : MfaDb Hash Secret Digest) (userId : Nat) (user : UserRow Hash)
    (now : Nat) (transport : Transport) : Option (ChallengeClaims × Bool) :=
  let current := db.challenges.filter fun challenge =>
    challenge.userId = userId ∧ challenge.version = user.tokenVersion ∧
      challenge.purpose = .login ∧ challenge.method = .email ∧ now < challenge.expires
  (current.argmax Challenge.expires).map fun challenge =>
    (encodeChallenge userId user challenge.id .login now challenge.expires transport,
      challenge.codeHash.isSome)

/-- This function is `claimed_transport`. -/
def claimedTransport (claims : ChallengeClaims) (fallback : Transport) : Transport :=
  claims.tr.getD fallback

/-- This function is `challenge_row`. -/
def challengeRow (db : MfaDb Hash Secret Digest) (claims : ChallengeClaims) (now : Nat) :
    Option (Challenge Secret Digest) :=
  db.challenges.find? fun challenge =>
    challenge.id = claims.cid ∧ challenge.userId = claims.sub ∧
      challenge.version = claims.ver ∧ challenge.purpose = claims.purpose ∧
      now < challenge.expires

/-- An unreadable secret cannot prove a code. -/
inductive UnreadableSecret where
  | unreadable

/-- This function is `totp_step`. -/
def totpStep (keys : MfaKeys Hash Password Secret Digest) (secret : Secret) (code : Str)
    (lastStep : Int) (now : Nat) : Except UnreadableSecret (Option Int) :=
  if code.length = 6 ∧ code.all isAsciiDigit then
    match keys.totp secret with
    | none => .error .unreadable
    | some at_ =>
        let current : Int := now / 30
        .ok ([current, current - 1, current + 1].find? fun step =>
          lastStep < step ∧ at_ (step * 30) = code)
  else .ok none

/-- This function is the acceptable shape of a submitted code. -/
def submittedCode (code : Option Str) : Option Str :=
  (code.filter fun text => text.length ≤ 64).map strip

/-- This function is `check_factor`: the change of the account when the factor is proved. -/
def checkFactor [DecidableEq Digest] (keys : MfaKeys Hash Password Secret Digest)
    (account : MfaAccount Secret Digest) (code : Option Str)
    (challenge : Option (Challenge Secret Digest)) (now : Nat) :
    Except UnreadableSecret (Option (MfaAccount Secret Digest → MfaAccount Secret Digest)) :=
  match submittedCode code with
  | none => .ok none
  | some code =>
      let recoveryHash := keys.digestRecovery code
      if recoveryHash ∈ account.recoveryHashes then
        .ok (some fun row =>
          { row with recoveryHashes := account.recoveryHashes.erase recoveryHash })
      else
        match account.method, challenge with
        | some .totp, _ =>
            (totpStep keys account.secret code account.lastStep now).map fun step? =>
              step?.map fun step row => { row with lastStep := step }
        | some .email, some challenge =>
            if challenge.method = .email ∧
                challenge.codeHash = some (keys.digestCode challenge.id code) then .ok (some id)
            else .ok none
        | _, _ => .ok none

/-- This function is `new_recovery_codes`. -/
def newRecoveryCodes (keys : MfaKeys Hash Password Secret Digest) (draws : MfaDraws Secret)
    (db : MfaDb Hash Secret Digest) (userId : Nat) : MfaDb Hash Secret Digest :=
  db.changeAccount userId fun row =>
    { row with recoveryHashes := draws.recoveryCodes.map keys.digestRecovery }

/-- This function is `rotate_session`: the reply carries the row after the version bump. -/
def rotateSession (db : MfaDb Hash Secret Digest) (userId : Nat) (user : UserRow Hash)
    (transport : Transport) (recoveryCodes : List Str) :
    MfaDb Hash Secret Digest × MfaReply Hash :=
  ({ db with
      users := Function.update db.users userId (some (rotateVersion user))
      challenges := db.challenges.filter fun challenge => challenge.userId ≠ userId },
    .signedIn userId (rotateVersion user) transport recoveryCodes)

section Operations
variable [Inhabited Secret] [DecidableEq Hash] [DecidableEq Digest]
  (keys : MfaKeys Hash Password Secret Digest) (draws : MfaDraws Secret) (now : Nat)

/-- This function is `begin_login`; `original` is the row that the password login read. -/
def beginLogin (emailAvailable : Bool) (db : MfaDb Hash Secret Digest) (userId : Nat)
    (original : UserRow Hash) (transport : Transport) :
    MfaDb Hash Secret Digest × MfaReply Hash :=
  match db.lockAccount userId original.tokenVersion with
  | (db, none) => (db, .refused authenticationRequired)
  | (db, some (user, account)) =>
      if user.passwordHash ≠ original.passwordHash then (db, .refused authenticationRequired)
      else
        match account.method with
        | none => (db, .signedIn userId user transport [])
        | some method =>
            match guardBudget account .login now with
            | some error => (db, .refused error)
            | none =>
                let limit := emailLimit account now
                let send := method = .email ∧ emailAvailable ∧ limit.toOption.isSome
                let db := if send then db.changeAccount userId (limit.toOption.getD id) else db
                let unsent := method = .email ∧ ¬send
                match if unsent then reissueLoginChallenge db userId user now transport else none with
                | some (claims, hasCode) =>
                    (db, .challenged claims .email []
                      (some (if hasCode then recentCodeWarning else unsentWarning)))
                | none =>
                    let (db, claims, code) := createChallenge keys draws now db userId user .login
                      method account.email default transport send
                    (db, .challenged claims method code (if unsent then some unsentWarning else none))

/-- This function is `verify_login`. -/
def verifyLogin (db : MfaDb Hash Secret Digest) (claims : ChallengeClaims) (code : Option Str) :
    MfaDb Hash Secret Digest × MfaReply Hash :=
  if claims.purpose ≠ .login then (db, .refused invalidCode)
  else
    withAccount db claims.sub claims.ver .login now fun db user account =>
      match challengeRow db claims now, account.method with
      | some challenge, some _ =>
          match checkFactor keys account code (some challenge) now with
          | .error _ => failed db claims.sub account .login now unreadableFactor
          | .ok none => failed db claims.sub account .login now invalidCode
          | .ok (some change) =>
              ({ (db.changeAccount claims.sub change).changeAccount claims.sub
                    (·.setBudget .login 0 0) with
                  challenges := db.challenges.filter fun other => other.id ≠ challenge.id },
                .signedIn claims.sub user (claimedTransport claims challenge.transport) [])
      | _, _ => (db, .refused invalidCode)

/-- This function is `setup`; `token` is the access token of the request. -/
def setup (stableKeys emailAvailable validAddress : Bool) (db : MfaDb Hash Secret Digest)
    (token : Claims) (method : Option MfaMethod) (email : Str) (password : Password) :
    MfaDb Hash Secret Digest × MfaReply Hash :=
  match method with
  | none => (db, .refused ⟨"Choose an MFA method", 400, none⟩)
  | some method =>
      if ¬stableKeys then
        (db, .refused ⟨"Configure JWT_SECRET_KEY before saving secrets", 503, none⟩)
      else if method = .email ∧ ¬emailAvailable then (db, .refused emailUnavailable)
      else if method = .email ∧ ¬validAddress then
        (db, .refused ⟨"Enter a valid email address", 400, none⟩)
      else
        let email := if method = .email then email else []
        withAccount db token.sub token.ver .manage now fun db user account =>
          if ¬keys.verifyPassword user.passwordHash password then
            failed db token.sub account .manage now ⟨"Invalid password", 400, none⟩
          else if account.method.isSome then
            (db, .refused ⟨"Disable your current MFA method before replacing it", 409, none⟩)
          else
            match if method = .email then emailLimit account now else .ok id with
            | .error error => (db, .refused error)
            | .ok change =>
                let secret := if method = .totp then draws.secret else default
                let (db, claims, code) := createChallenge keys draws now
                  (db.changeAccount token.sub change) token.sub user .enroll method email secret
                  .cookies true
                (db, .challenged claims method code none)

/-- This function is `confirm`. -/
def confirm (db : MfaDb Hash Secret Digest) (token : Claims) (claims : ChallengeClaims)
    (code : Option Str) (transport : Transport) : MfaDb Hash Secret Digest × MfaReply Hash :=
  if claims.purpose ≠ .enroll ∨ claims.sub ≠ token.sub ∨ claims.ver ≠ token.ver then
    (db, .refused invalidCode)
  else
    withAccount db claims.sub claims.ver .manage now fun db user account =>
      match challengeRow db claims now, account.method with
      | some challenge, none =>
          let proof : Except UnreadableSecret (Option Int) :=
            match submittedCode code, challenge.method with
            | none, _ => .ok none
            | some code, .totp => totpStep keys challenge.secret code (-1) now
            | some code, .email =>
                if challenge.codeHash = some (keys.digestCode challenge.id code) then .ok (some (-1))
                else .ok none
          match proof with
          | .error _ => failed db claims.sub account .manage now unreadableFactor
          | .ok none => failed db claims.sub account .manage now invalidCode
          | .ok (some step) =>
              let db := (db.changeAccount claims.sub fun row => { row with
                method := some challenge.method
                secret := challenge.secret
                email := challenge.email
                lastStep := step }).changeAccount claims.sub (·.setBudget .manage 0 0)
              rotateSession (newRecoveryCodes keys draws db claims.sub) claims.sub user transport
                draws.recoveryCodes
      | _, _ => (db, .refused invalidCode)

/-- This function is `management_email`. -/
def managementEmail (emailAvailable : Bool) (db : MfaDb Hash Secret Digest) (token : Claims)
    (password : Password) : MfaDb Hash Secret Digest × MfaReply Hash :=
  withAccount db token.sub token.ver .manage now fun db user account =>
    if ¬keys.verifyPassword user.passwordHash password then
      failed db token.sub account .manage now ⟨"Invalid password", 400, none⟩
    else if account.method ≠ some .email ∨ ¬emailAvailable then (db, .refused emailUnavailable)
    else
      match emailLimit account now with
      | .error error => (db, .refused error)
      | .ok change =>
          let (db, claims, code) := createChallenge keys draws now
            (db.changeAccount token.sub change) token.sub user .manage .email account.email default
            .cookies true
          (db, .challenged claims .email code none)

/-- This function is `change_method`, with `disable` and `recovery` as its two uses. -/
def changeMethod (regenerate : Bool) (db : MfaDb Hash Secret Digest) (token : Claims)
    (presented : Option ChallengeClaims) (password : Password) (code : Option Str)
    (transport : Transport) : MfaDb Hash Secret Digest × MfaReply Hash :=
  withAccount db token.sub token.ver .manage now fun db user account =>
    if account.method = none then (db, .refused ⟨"MFA is not enabled", 409, none⟩)
    else if ¬keys.verifyPassword user.passwordHash password then
      failed db token.sub account .manage now ⟨"Invalid password", 400, none⟩
    else
      let challenge := (presented.filter fun claims =>
        claims.purpose = .manage ∧ claims.sub = token.sub ∧ claims.ver = user.tokenVersion).bind
          fun claims => challengeRow db claims now
      match checkFactor keys account code challenge now with
      | .error _ => failed db token.sub account .manage now unreadableFactor
      | .ok none => failed db token.sub account .manage now invalidCode
      | .ok (some change) =>
          let db := (db.changeAccount token.sub change).changeAccount token.sub
            (·.setBudget .manage 0 0)
          if regenerate then
            rotateSession (newRecoveryCodes keys draws db token.sub) token.sub user transport
              draws.recoveryCodes
          else
            rotateSession (db.changeAccount token.sub fun row => { row with
              method := none
              email := []
              secret := default
              lastStep := -1
              recoveryHashes := [] }) token.sub user transport []

/-- This function is `resend`. -/
def resend (emailAvailable : Bool) (db : MfaDb Hash Secret Digest) (claims : ChallengeClaims) :
    MfaDb Hash Secret Digest × MfaReply Hash :=
  withAccount db claims.sub claims.ver (if claims.purpose = .login then .login else .manage) now
    fun db user account =>
      match challengeRow db claims now with
      | none => (db, .refused invalidCode)
      | some challenge =>
          if challenge.method ≠ .email then (db, .refused invalidCode)
          else if ¬emailAvailable then (db, .refused emailUnavailable)
          else
            match emailLimit account now with
            | .error error => (db, .refused error)
            | .ok change =>
                let (db, claims, code) := createChallenge keys draws now
                  (db.changeAccount claims.sub change) claims.sub user challenge.purpose .email
                  challenge.email default (claimedTransport claims challenge.transport) true
                (db, .challenged claims .email code none)

end Operations

end SubtitleTranslator.Auth
