import SubtitleTranslator.Construction.SecondFactor

namespace SubtitleTranslator.Auth
open Library Library.Text

variable {Hash Password Secret Digest : Type}

/-- These are the proofs that a factor check accepts. -/
inductive FactorProof (Secret Digest : Type) where
  | recovery (digest : Digest)
  | totp (secret : Secret) (step : Int)
  /-- The proof is the code emailed for a challenge. -/
  | emailed (challengeId : Nat)
  deriving DecidableEq

/-- This is the result of a password or factor check; a password alone passes none. -/
inductive Verdict (Secret Digest : Type) where
  | failed
  | passed (proof : FactorProof Secret Digest)

/-- An unreadable secret fails as a wrong code does. -/
def Verdict.ofCheck :
    Except UnreadableSecret (Option (FactorProof Secret Digest)) → Verdict Secret Digest
  | .ok (some proof) => .passed proof
  | .ok none | .error _ => .failed

/-- The function is the change that `check_factor` makes for a proof. -/
def FactorProof.change [DecidableEq Digest] (account : MfaAccount Secret Digest) :
    FactorProof Secret Digest → MfaAccount Secret Digest → MfaAccount Secret Digest
  | .recovery digest => fun row => { row with recoveryHashes := account.recoveryHashes.erase digest }
  | .totp _ step => fun row => { row with lastStep := step }
  | .emailed _ => id

/-- The function is the proof that `check_factor` accepts. -/
def factorProof [DecidableEq Digest] (keys : MfaKeys Hash Password Secret Digest)
    (account : MfaAccount Secret Digest) (code : Option Str)
    (challenge : Option (Challenge Secret Digest)) (now : Nat) :
    Except UnreadableSecret (Option (FactorProof Secret Digest)) :=
  match submittedCode code with
  | none => .ok none
  | some code =>
      if keys.digestRecovery code ∈ account.recoveryHashes then
        .ok (some (.recovery (keys.digestRecovery code)))
      else
        match account.method, challenge with
        | some .totp, _ =>
            (totpStep keys account.secret code account.lastStep now).map fun step? =>
              step?.map (.totp account.secret)
        | some .email, some challenge =>
            if challenge.method = .email ∧
                challenge.codeHash = some (keys.digestCode challenge.id code) then
              .ok (some (.emailed challenge.id))
            else .ok none
        | _, _ => .ok none

/-- The function is the proof that `confirm` accepts. -/
def enrollmentProof [DecidableEq Digest] (keys : MfaKeys Hash Password Secret Digest)
    (challenge : Challenge Secret Digest) (code : Option Str) (now : Nat) :
    Except UnreadableSecret (Option (FactorProof Secret Digest)) :=
  match submittedCode code, challenge.method with
  | none, _ => .ok none
  | some code, .totp =>
      (totpStep keys challenge.secret code (-1) now).map fun step? =>
        step?.map (.totp challenge.secret)
  | some code, .email =>
      if challenge.codeHash = some (keys.digestCode challenge.id code) then
        .ok (some (.emailed challenge.id))
      else .ok none

/-- These are the operations under the lock of the user row. -/
inductive FactorOperation (Hash Password Secret : Type) where
  | beginLogin (emailAvailable : Bool) (userId : Nat) (original : UserRow Hash)
      (transport : Transport) (draws : MfaDraws Secret)
  | verifyLogin (claims : ChallengeClaims) (code : Option Str)
  | setup (stableKeys emailAvailable validAddress : Bool) (token : Claims)
      (method : Option MfaMethod) (email : Str) (password : Password) (draws : MfaDraws Secret)
  | confirm (token : Claims) (claims : ChallengeClaims) (code : Option Str)
      (transport : Transport) (draws : MfaDraws Secret)
  | managementEmail (emailAvailable : Bool) (token : Claims) (password : Password)
      (draws : MfaDraws Secret)
  | changeMethod (regenerate : Bool) (token : Claims) (presented : Option ChallengeClaims)
      (password : Password) (code : Option Str) (transport : Transport) (draws : MfaDraws Secret)
  | resend (emailAvailable : Bool) (claims : ChallengeClaims) (draws : MfaDraws Secret)

namespace FactorOperation

/-- The account that the operation locks. -/
def userId : FactorOperation Hash Password Secret → Nat
  | .beginLogin _ userId _ _ _ => userId
  | .verifyLogin claims _ | .confirm _ claims _ _ _ | .resend _ claims _ => claims.sub
  | .setup _ _ _ token _ _ _ _ | .managementEmail _ token _ _
  | .changeMethod _ token _ _ _ _ _ => token.sub

/-- The failure budget that guards the operation. -/
def scope : FactorOperation Hash Password Secret → Scope
  | .beginLogin .. | .verifyLogin .. => .login
  | .setup .. | .confirm .. | .managementEmail .. | .changeMethod .. => .manage
  | .resend _ claims _ => if claims.purpose = .login then .login else .manage

/-- A password login signs in without a proof when no method is enrolled. -/
def passwordOnly : FactorOperation Hash Password Secret → Bool
  | .beginLogin .. => true
  | _ => false

def draws? : FactorOperation Hash Password Secret → Option (MfaDraws Secret)
  | .beginLogin _ _ _ _ draws | .setup _ _ _ _ _ _ _ draws | .confirm _ _ _ _ draws
  | .managementEmail _ _ _ draws | .changeMethod _ _ _ _ _ _ draws | .resend _ _ draws => some draws
  | .verifyLogin .. => none

variable [Inhabited Secret] [DecidableEq Hash] [DecidableEq Digest]
  (keys : MfaKeys Hash Password Secret Digest) (now : Nat) (db : MfaDb Hash Secret Digest)

def run : FactorOperation Hash Password Secret → MfaDb Hash Secret Digest × MfaReply Hash
  | .beginLogin emailAvailable userId original transport draws =>
      Auth.beginLogin keys draws now emailAvailable db userId original transport
  | .verifyLogin claims code => Auth.verifyLogin keys now db claims code
  | .setup stableKeys emailAvailable validAddress token method email password draws =>
      Auth.setup keys draws now stableKeys emailAvailable validAddress db token method email password
  | .confirm token claims code transport draws =>
      Auth.confirm keys draws now db token claims code transport
  | .managementEmail emailAvailable token password draws =>
      Auth.managementEmail keys draws now emailAvailable db token password
  | .changeMethod regenerate token presented password code transport draws =>
      Auth.changeMethod keys draws now regenerate db token presented password code transport
  | .resend emailAvailable claims draws => Auth.resend keys draws now emailAvailable db claims

/-- A check is made on the locked rows when the budget is not locked. -/
def checkedUnderLock (userId version : Nat) (scope : Scope)
    (check : MfaDb Hash Secret Digest → UserRow Hash → MfaAccount Secret Digest →
      Option (Verdict Secret Digest)) : Option (Verdict Secret Digest) :=
  match db.lockAccount userId version with
  | (_, none) => none
  | (db, some (user, account)) =>
      match guardBudget account scope now with
      | some _ => none
      | none => check db user account

/-- This function is the verdict of the check that the operation makes, if it makes one. -/
def check : FactorOperation Hash Password Secret → Option (Verdict Secret Digest)
  | .beginLogin .. | .resend .. => none
  | .verifyLogin claims code =>
      if claims.purpose ≠ .login then none
      else
        checkedUnderLock now db claims.sub claims.ver .login fun db _ account =>
          match challengeRow db claims now, account.method with
          | some challenge, some _ =>
              some (.ofCheck (factorProof keys account code (some challenge) now))
          | _, _ => none
  | .setup stableKeys emailAvailable validAddress token method _ password _ =>
      match method with
      | none => none
      | some method =>
          if ¬stableKeys then none
          else if method = .email ∧ ¬emailAvailable then none
          else if method = .email ∧ ¬validAddress then none
          else
            checkedUnderLock now db token.sub token.ver .manage fun _ user _ =>
              if ¬keys.verifyPassword user.passwordHash password then some .failed else none
  | .confirm token claims code _ _ =>
      if claims.purpose ≠ .enroll ∨ claims.sub ≠ token.sub ∨ claims.ver ≠ token.ver then none
      else
        checkedUnderLock now db claims.sub claims.ver .manage fun db _ account =>
          match challengeRow db claims now, account.method with
          | some challenge, none => some (.ofCheck (enrollmentProof keys challenge code now))
          | _, _ => none
  | .managementEmail _ token password _ =>
      checkedUnderLock now db token.sub token.ver .manage fun _ user _ =>
        if ¬keys.verifyPassword user.passwordHash password then some .failed else none
  | .changeMethod _ token presented password code _ _ =>
      checkedUnderLock now db token.sub token.ver .manage fun db user account =>
        if account.method = none then none
        else if ¬keys.verifyPassword user.passwordHash password then some .failed
        else
          let challenge := (presented.filter fun claims =>
            claims.purpose = .manage ∧ claims.sub = token.sub ∧ claims.ver = user.tokenVersion).bind
              fun claims => challengeRow db claims now
          some (.ofCheck (factorProof keys account code challenge now))

end FactorOperation

/-- The log records the checks, the recovery codes and the unlocks of every account. -/
inductive FactorEntry (Secret Digest : Type) where
  | failed (userId : Nat) (scope : Scope) (now : Nat)
  | accepted (userId : Nat) (scope : Scope) (proof : FactorProof Secret Digest)
  /-- New recovery codes are given out. -/
  | issued (userId : Nat) (digests : List Digest)
  /-- The recovery codes are replaced or the method is disabled. -/
  | withdrawn (userId : Nat)
  | unlocked (userId : Nat)
  deriving DecidableEq

/-- These entries follow the acceptance of a proof, the newest first. -/
def FactorOperation.consequences (keys : MfaKeys Hash Password Secret Digest) :
    FactorOperation Hash Password Secret → List (FactorEntry Secret Digest)
  | .confirm _ claims _ _ draws => [.issued claims.sub (draws.recoveryCodes.map keys.digestRecovery)]
  | .changeMethod true token _ _ _ _ draws =>
      [.issued token.sub (draws.recoveryCodes.map keys.digestRecovery), .withdrawn token.sub]
  | .changeMethod false token _ _ _ _ _ => [.withdrawn token.sub]
  | _ => []

/-- The tables, the clock, the values drawn so far and the log, the newest entry first. -/
structure FactorState (Hash Secret Digest : Type) where
  db : MfaDb Hash Secret Digest
  now : Nat
  usedIds : List Nat
  usedSecrets : List Secret
  usedDigests : List Digest
  log : List (FactorEntry Secret Digest)

inductive FactorEvent (Hash Password Secret : Type) where
  | operation (operation : FactorOperation Hash Password Secret)
  | forgetUnsentCode (challengeId : Nat) (code : Str)
  | purgeExpiredChallenges
  /-- An administrator updates an account. -/
  | updateUser (userId : Nat) (change : UserChange Hash)
  /-- Another program part writes user rows. -/
  | writeUsers (users : Nat → Option (UserRow Hash))

namespace FactorState
variable [Inhabited Secret] [DecidableEq Hash] [DecidableEq Secret] [DecidableEq Digest]

/-- The values drawn for an operation were never drawn before. -/
def freshDraws (keys : MfaKeys Hash Password Secret Digest) (s : FactorState Hash Secret Digest)
    (draws : MfaDraws Secret) : Bool :=
  draws.challengeId ∉ s.usedIds && draws.secret ∉ s.usedSecrets &&
    decide (draws.recoveryCodes.map keys.digestRecovery).Nodup &&
    (draws.recoveryCodes.map keys.digestRecovery).all (· ∉ s.usedDigests)

/-- The function adds the values drawn for an operation. -/
def addDraws (keys : MfaKeys Hash Password Secret Digest) (s : FactorState Hash Secret Digest) :
    Option (MfaDraws Secret) → FactorState Hash Secret Digest
  | none => s
  | some draws =>
      { s with
        usedIds := draws.challengeId :: s.usedIds
        usedSecrets := draws.secret :: s.usedSecrets
        usedDigests := draws.recoveryCodes.map keys.digestRecovery ++ s.usedDigests }

/-- The entries of an operation, the newest first. -/
def entries (keys : MfaKeys Hash Password Secret Digest) (now : Nat)
    (db : MfaDb Hash Secret Digest) (operation : FactorOperation Hash Password Secret) :
    List (FactorEntry Secret Digest) :=
  match operation.check keys now db with
  | none => []
  | some .failed => [.failed operation.userId operation.scope now]
  | some (.passed proof) =>
      operation.consequences keys ++ [.accepted operation.userId operation.scope proof]

/-- This step is one transaction; the time does not decrease. -/
def step (keys : MfaKeys Hash Password Secret Digest) (s : FactorState Hash Secret Digest) :
    Nat × FactorEvent Hash Password Secret → Option (FactorState Hash Secret Digest)
  | (now, event) =>
      if now < s.now then none
      else
        match event with
        | .operation operation =>
            if operation.draws?.all (s.freshDraws keys) then
              some { s.addDraws keys operation.draws? with
                db := (operation.run keys now s.db).1
                now := now
                log := entries keys now s.db operation ++ s.log }
            else none
        | .forgetUnsentCode challengeId code =>
            some { s with db := Auth.forgetUnsentCode keys challengeId code s.db, now := now }
        | .purgeExpiredChallenges =>
            some { s with db := Auth.purgeExpiredChallenges now s.db, now := now }
        | .updateUser userId change =>
            some { s with
              db := updateAccount userId change s.db
              now := now
              log := if change.unlock then .unlocked userId :: s.log else s.log }
        | .writeUsers users => some { s with db := { s.db with users := users }, now := now }

/-- An installation starts without second factors. -/
def initial (users : Nat → Option (UserRow Hash)) : FactorState Hash Secret Digest where
  db := ⟨users, fun _ => none, []⟩
  now := 0
  usedIds := []
  usedSecrets := []
  usedDigests := []
  log := []

end FactorState

end SubtitleTranslator.Auth
