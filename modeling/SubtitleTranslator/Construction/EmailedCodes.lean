import SubtitleTranslator.Construction.FactorRuns

namespace SubtitleTranslator.Auth
open Library Library.Text

variable {Hash Password Secret Digest : Type}

/-- These are the updates of a password login; an update that matches no row changes nothing. -/
inductive LoginWrite (Hash : Type) where
  | reserve (observed : UserRow Hash)
  | lockExhausted (reading : Nat)
  | succeed (observed : UserRow Hash) (rehashed : Option Hash)

def LoginWrite.apply [DecidableEq Hash] (row : UserRow Hash) : LoginWrite Hash → UserRow Hash
  | .reserve observed => (reserveAccountLoginAttempt observed row).getD row
  | .lockExhausted reading => lockExhaustedAccount reading row
  | .succeed observed rehashed => (recordSuccessfulLogin observed rehashed row).getD row

/-- This function is the DELETE of `delete_user`, which deletes the rows of the user as well. -/
def deleteUser (userId : Nat) (db : MfaDb Hash Secret Digest) : MfaDb Hash Secret Digest where
  users := Function.update db.users userId none
  accounts := Function.update db.accounts userId none
  challenges := db.challenges.filter fun challenge => challenge.userId ≠ userId

/-- This function is `purge_expired_challenges` with the ids that it selected. -/
def purgeSelected (now : Nat) (selected : List Nat) (db : MfaDb Hash Secret Digest) :
    MfaDb Hash Secret Digest :=
  { db with challenges := db.challenges.filter fun challenge =>
      ¬(challenge.id ∈ selected ∧ challenge.expires ≤ now) }

/-- The code that `deliver` sends for a reply, with its challenge. -/
def MfaReply.emailed : MfaReply Hash → Option (Nat × Str)
  | .challenged claims _ code _ => if code = [] then none else some (claims.cid, code)
  | .refused _ | .signedIn _ _ _ _ => none

/-- The tables, the clock, the drawn ids and the codes of the requests that send an email. -/
structure CodeState (Hash Secret Digest : Type) where
  db : MfaDb Hash Secret Digest
  now : Nat
  usedIds : List Nat
  pending : List (Nat × Str)

inductive CodeEvent (Hash Password Secret : Type) where
  | operation (operation : FactorOperation Hash Password Secret)
  | delivered (challengeId : Nat) (code : Str)
  /-- An email is not sent; the request forgets the code unless its transaction fails. -/
  | undelivered (challengeId : Nat) (code : Str) (forgotten : Bool)
  | purgeExpiredChallenges (selected : List Nat)
  | passwordLogin (userId : Nat) (write : LoginWrite Hash)
  | updateUser (userId : Nat) (change : UserChange Hash)
  | insertUser (userId : Nat) (passwordHash : Hash) (role : Role)
  | deleteUser (userId : Nat)

namespace CodeState
variable [Inhabited Secret] [DecidableEq Hash] [DecidableEq Digest]

/-- A challenge id is never drawn twice, and a code has six digits. -/
def freshDraws (s : CodeState Hash Secret Digest) (draws : MfaDraws Secret) : Bool :=
  draws.challengeId ∉ s.usedIds && draws.code.length = 6 && draws.code.all isAsciiDigit

/-- The email of a challenge is sent once. -/
def settle (s : CodeState Hash Secret Digest) (challengeId : Nat) : CodeState Hash Secret Digest :=
  { s with pending := s.pending.filter (·.1 ≠ challengeId) }

/-- This step is one transaction or the end of one email; the time does not decrease. -/
def step (keys : MfaKeys Hash Password Secret Digest) (s : CodeState Hash Secret Digest) :
    Nat × CodeEvent Hash Password Secret → Option (CodeState Hash Secret Digest)
  | (now, event) =>
      if now < s.now then none
      else
        match event with
        | .operation operation =>
            if operation.draws?.all s.freshDraws then
              let outcome := operation.run keys now s.db
              some
                { db := outcome.1
                  now := now
                  usedIds := (operation.draws?.map MfaDraws.challengeId).toList ++ s.usedIds
                  pending := outcome.2.emailed.toList ++ s.pending }
            else none
        | .delivered challengeId code =>
            if (challengeId, code) ∈ s.pending then some { s.settle challengeId with now := now }
            else none
        | .undelivered challengeId code forgotten =>
            if (challengeId, code) ∈ s.pending then
              some { s.settle challengeId with
                now := now
                db := if forgotten then forgetUnsentCode keys challengeId code s.db else s.db }
            else none
        | .purgeExpiredChallenges selected =>
            some { s with db := purgeSelected now selected s.db, now := now }
        | .passwordLogin userId write =>
            some { s with
              db := { s.db with
                users := Function.update s.db.users userId ((s.db.users userId).map (write.apply ·)) }
              now := now }
        | .updateUser userId change =>
            some { s with db := updateAccount userId change s.db, now := now }
        | .insertUser userId passwordHash role =>
            if (s.db.users userId).isNone then
              some { s with
                db := { s.db with
                  users := Function.update s.db.users userId (some (insertUser passwordHash role)) }
                now := now }
            else none
        | .deleteUser userId => some { s with db := Auth.deleteUser userId s.db, now := now }

/-- An installation starts without users. -/
def initial : CodeState Hash Secret Digest where
  db := ⟨fun _ => none, fun _ => none, []⟩
  now := 0
  usedIds := []
  pending := []

end CodeState

end SubtitleTranslator.Auth
