import SubtitleTranslator.Construction.FactorRuns
import SubtitleTranslator.Library.FixedWindow

namespace SubtitleTranslator.Auth
open Library Library.Text

variable {Hash Password Secret Digest : Type}

/-- The columns of `email_limit`. -/
def MfaAccount.sendCounter (account : MfaAccount Secret Digest) : WindowCounter where
  next := account.nextSend
  window := account.sendWindow
  count := account.sendCount

/-- The answer of `email_limit` is that an email may be sent. -/
def emailAllowed (account : MfaAccount Secret Digest) (now : Nat) : Bool :=
  (emailLimit account now).toOption.isSome

namespace FactorOperation
variable [Inhabited Secret] [DecidableEq Hash] [DecidableEq Digest]
  (keys : MfaKeys Hash Password Secret Digest) (now : Nat) (db : MfaDb Hash Secret Digest)

/-- An operation asks `email_limit` on the locked rows when the budget is not locked. -/
def allowedUnderLock (userId version : Nat) (scope : Scope)
    (asks : MfaDb Hash Secret Digest → UserRow Hash → MfaAccount Secret Digest → Bool) : Bool :=
  match db.lockAccount userId version with
  | (_, none) => false
  | (db, some (user, account)) =>
      match guardBudget account scope now with
      | some _ => false
      | none => asks db user account && emailAllowed account now

/-- The operation sends an email that its `email_limit` allowed. -/
def sends : FactorOperation Hash Password Secret → Bool
  | .verifyLogin .. | .confirm .. | .changeMethod .. => false
  | .beginLogin emailAvailable userId original _ _ =>
      allowedUnderLock now db userId original.tokenVersion .login fun _ user account =>
        user.passwordHash = original.passwordHash ∧ account.method = some .email ∧ emailAvailable
  | .setup stableKeys emailAvailable validAddress token method _ password _ =>
      method = some .email && stableKeys && emailAvailable && validAddress &&
        allowedUnderLock now db token.sub token.ver .manage fun _ user account =>
          keys.verifyPassword user.passwordHash password ∧ account.method = none
  | .managementEmail emailAvailable token password _ =>
      allowedUnderLock now db token.sub token.ver .manage fun _ user account =>
        keys.verifyPassword user.passwordHash password ∧ account.method = some .email ∧
          emailAvailable
  | .resend emailAvailable claims _ =>
      allowedUnderLock now db claims.sub claims.ver
          (if claims.purpose = .login then .login else .manage) fun db _ _ =>
        (challengeRow db claims now).any (fun challenge => challenge.method = .email) ∧
          emailAvailable

end FactorOperation

/-- A run with the emails to one account, the newest first, and the windows they count for. -/
structure SendState (Hash Secret Digest : Type) where
  factors : FactorState Hash Secret Digest
  sent : List Admitted

namespace SendState
variable [Inhabited Secret] [DecidableEq Hash] [DecidableEq Secret] [DecidableEq Digest]

/-- The email of an event, with the window of the row that it leaves. -/
def email (keys : MfaKeys Hash Password Secret Digest) (userId : Nat)
    (before after : FactorState Hash Secret Digest) :
    Nat × FactorEvent Hash Password Secret → List Admitted
  | (now, .operation operation) =>
      if operation.userId = userId ∧ operation.sends keys now before.db then
        ((after.db.accounts userId).map fun account => ⟨now, account.sendWindow⟩).toList
      else []
  | _ => []

def step (keys : MfaKeys Hash Password Secret Digest) (userId : Nat)
    (s : SendState Hash Secret Digest) (event : Nat × FactorEvent Hash Password Secret) :
    Option (SendState Hash Secret Digest) :=
  (s.factors.step keys event).map fun next =>
    { factors := next, sent := email keys userId s.factors next event ++ s.sent }

def initial (users : Nat → Option (UserRow Hash)) : SendState Hash Secret Digest where
  factors := .initial users
  sent := []

end SendState

end SubtitleTranslator.Auth
