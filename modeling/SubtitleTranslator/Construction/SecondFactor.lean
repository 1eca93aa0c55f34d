import SubtitleTranslator.Construction.Mfa

namespace SubtitleTranslator.Auth
open Library Library.Text

/-- These operations issue access tokens. -/
inductive Issuer where
  | firstSetup
  | registration
  | passwordLogin
  | verifyLogin
  | confirm
  | disable
  | recovery
  deriving DecidableEq

/-- These operations verify a second factor that stays enrolled. -/
def Issuer.secondFactor : Issuer → Bool
  | .verifyLogin | .confirm | .recovery => true
  | .firstSetup | .registration | .passwordLogin | .disable => false

/-- A token is logged with the operation that issued it or the token it was refreshed from. -/
structure IssuedToken where
  claims : Claims
  issuer : Issuer

/-- These values name a token and its session and date it. -/
structure TokenDraws where
  uuid : Nat
  jti : Nat
  timestamp : Nat
  now : Nat

/-- These are the places where a request can be suspended. -/
inductive MfaStage (Hash : Type) where
  | idle
  /-- A sign-up has committed its account. -/
  | inserted (issuer : Issuer) (userId : Nat)
  /-- A sign-up has read the row of its account again. -/
  | reread (issuer : Issuer) (userId : Nat) (user : UserRow Hash)
  /-- A password login has committed and read the row. -/
  | loggedIn (userId : Nat) (user : UserRow Hash)
  | refreshing (token : IssuedToken) (user : UserRow Hash)

structure MfaState (Hash Secret Digest : Type) where
  db : MfaDb Hash Secret Digest
  /-- The users in the order of their sign-up. -/
  userIds : List Nat
  revoked : RevocationKey → Option Nat
  issued : List IssuedToken
  requests : Nat → MfaStage Hash

inductive MfaEvent (Hash Password Secret : Type) where
  | setupFirstAdmin (request userId : Nat) (passwordHash : Hash)
  | register (request userId : Nat) (passwordHash : Hash)
  | readAccount (request : Nat)
  | issueAccount (request : Nat) (token : TokenDraws)
  | passwordLogin (request userId : Nat)
  | beginLogin (request : Nat) (emailAvailable : Bool) (transport : Transport)
      (draws : MfaDraws Secret) (now : Nat) (token : TokenDraws)
  | verifyLogin (claims : ChallengeClaims) (code : Option Str) (now : Nat) (token : TokenDraws)
  | setup (claims : Claims) (stableKeys emailAvailable validAddress : Bool)
      (method : Option MfaMethod) (email : Str) (password : Password) (draws : MfaDraws Secret)
      (now : Nat) (token : TokenDraws)
  | confirm (claims : Claims) (challenge : ChallengeClaims) (code : Option Str)
      (transport : Transport) (draws : MfaDraws Secret) (now : Nat) (token : TokenDraws)
  | managementEmail (claims : Claims) (emailAvailable : Bool) (password : Password)
      (draws : MfaDraws Secret) (now : Nat) (token : TokenDraws)
  | changeMethod (regenerate : Bool) (claims : Claims) (challenge : Option ChallengeClaims)
      (password : Password) (code : Option Str) (transport : Transport)
      (draws : MfaDraws Secret) (now : Nat) (token : TokenDraws)
  | resend (challenge : ChallengeClaims) (emailAvailable : Bool) (draws : MfaDraws Secret)
      (now : Nat) (token : TokenDraws)
  | forgetUnsentCode (challengeId : Nat) (code : Str)
  | purgeExpiredChallenges (now : Nat)
  | revoke (key : RevocationKey) (expires : Nat)
  /-- A request with one of the issued tokens finds it current. -/
  | readValidity (request index : Nat)
  | mint (request : Nat) (token : TokenDraws)
  | updateUser (userId : Nat) (change : UserChange Hash)

variable {Hash Password Secret Digest : Type}

/-- This function is the UPDATE of `forget_unsent_code`. -/
def forgetUnsentCode [DecidableEq Digest] (keys : MfaKeys Hash Password Secret Digest)
    (challengeId : Nat) (code : Str) (db : MfaDb Hash Secret Digest) : MfaDb Hash Secret Digest :=
  { db with
    challenges := db.challenges.map fun challenge =>
      if challenge.id = challengeId ∧
          challenge.codeHash = some (keys.digestCode challengeId code) then
        { challenge with codeHash := none }
      else challenge }

/-- This function is `purge_expired_challenges`. -/
def purgeExpiredChallenges (now : Nat) (db : MfaDb Hash Secret Digest) : MfaDb Hash Secret Digest :=
  { db with challenges := db.challenges.filter fun challenge => now < challenge.expires }

/-- An administrator update writes the row, and an unlock also clears the budgets. -/
def updateAccount (userId : Nat) (change : UserChange Hash) (db : MfaDb Hash Secret Digest) :
    MfaDb Hash Secret Digest :=
  let db := { db with
    users := Function.update db.users userId ((db.users userId).map (updateUser change)) }
  if change.unlock then
    db.changeAccount userId fun row => (row.setBudget .login 0 0).setBudget .manage 0 0
  else db

namespace MfaState

def setRequest (s : MfaState Hash Secret Digest) (request : Nat) (stage : MfaStage Hash) :
    MfaState Hash Secret Digest :=
  { s with requests := Function.update s.requests request stage }

def insertAccount (s : MfaState Hash Secret Digest) (request userId : Nat) (passwordHash : Hash)
    (role : Role) (issuer : Issuer) : MfaState Hash Secret Digest :=
  { s.setRequest request (.inserted issuer userId) with
    userIds := userId :: s.userIds
    db := { s.db with
      users := Function.update s.db.users userId (some (insertUser passwordHash role)) } }

/-- The request presents a signed access token. -/
def presented (s : MfaState Hash Secret Digest) (claims : Claims) : Bool :=
  s.issued.any fun token => token.claims = claims

/-- The reply `finish_login` issues a token for the row of the operation. -/
def settle (config : SessionConfig) (s : MfaState Hash Secret Digest) (issuer : Issuer)
    (draws : TokenDraws) (outcome : MfaDb Hash Secret Digest × MfaReply Hash) :
    MfaState Hash Secret Digest :=
  { s with
    db := outcome.1
    issued :=
      match outcome.2 with
      | .signedIn userId user _ _ =>
          ⟨issueToken config userId user none none draws.uuid draws.jti draws.timestamp draws.now,
            issuer⟩ :: s.issued
      | .refused _ | .challenged _ _ _ _ => s.issued }

variable [Inhabited Secret] [DecidableEq Hash] [DecidableEq Digest]

/-- This step runs one transaction, one read or one issue. -/
def step (config : SessionConfig) (keys : MfaKeys Hash Password Secret Digest)
    (s : MfaState Hash Secret Digest) :
    MfaEvent Hash Password Secret → Option (MfaState Hash Secret Digest)
  | .setupFirstAdmin request userId passwordHash =>
      match s.requests request with
      | .idle =>
          if s.userIds = [] ∧ (s.db.users userId).isNone then
            some (s.insertAccount request userId passwordHash .admin .firstSetup)
          else none
      | _ => none
  | .register request userId passwordHash =>
      match s.requests request with
      | .idle =>
          if s.userIds ≠ [] ∧ (s.db.users userId).isNone then
            some (s.insertAccount request userId passwordHash .user .registration)
          else none
      | _ => none
  | .readAccount request =>
      match s.requests request with
      | .inserted issuer userId =>
          (s.db.users userId).map fun user => s.setRequest request (.reread issuer userId user)
      | _ => none
  | .issueAccount request token =>
      match s.requests request with
      | .reread issuer userId user =>
          some { s.setRequest request .idle with
            issued :=
              ⟨issueToken config userId user none none token.uuid token.jti token.timestamp
                token.now, issuer⟩ :: s.issued }
      | _ => none
  | .passwordLogin request userId =>
      match s.requests request with
      | .idle => (s.db.users userId).map fun user => s.setRequest request (.loggedIn userId user)
      | _ => none
  | .beginLogin request emailAvailable transport draws now token =>
      match s.requests request with
      | .loggedIn userId user =>
          some ((s.setRequest request .idle).settle config .passwordLogin token
            (beginLogin keys draws now emailAvailable s.db userId user transport))
      | _ => none
  | .verifyLogin claims code now token =>
      some (s.settle config .verifyLogin token (verifyLogin keys now s.db claims code))
  | .setup claims stableKeys emailAvailable validAddress method email password draws now token =>
      if s.presented claims then
        some (s.settle config .passwordLogin token
          (setup keys draws now stableKeys emailAvailable validAddress s.db claims method email
            password))
      else none
  | .confirm claims challenge code transport draws now token =>
      if s.presented claims then
        some (s.settle config .confirm token
          (confirm keys draws now s.db claims challenge code transport))
      else none
  | .managementEmail claims emailAvailable password draws now token =>
      if s.presented claims then
        some (s.settle config .passwordLogin token
          (managementEmail keys draws now emailAvailable s.db claims password))
      else none
  | .changeMethod regenerate claims challenge password code transport draws now token =>
      if s.presented claims then
        some (s.settle config (if regenerate then .recovery else .disable) token
          (changeMethod keys draws now regenerate s.db claims challenge password code transport))
      else none
  | .resend challenge emailAvailable draws now token =>
      some (s.settle config .passwordLogin token
        (resend keys draws now emailAvailable s.db challenge))
  | .forgetUnsentCode challengeId code =>
      some { s with db := forgetUnsentCode keys challengeId code s.db }
  | .purgeExpiredChallenges now => some { s with db := purgeExpiredChallenges now s.db }
  | .revoke key expires => some { s with revoked := revokeTokenKey key expires s.revoked }
  | .readValidity request index =>
      match s.requests request, s.issued[index]? with
      | .idle, some token =>
          (currentTokenUser s.revoked s.db.users token.claims).map fun user =>
            s.setRequest request (.refreshing token user)
      | _, _ => none
  | .mint request token =>
      match s.requests request with
      | .refreshing presented user =>
          some { s.setRequest request .idle with
            issued :=
              ⟨refreshedSessionToken config presented.claims user token.uuid token.jti
                token.timestamp token.now, presented.issuer⟩ :: s.issued }
      | _ => none
  | .updateUser userId change => some { s with db := updateAccount userId change s.db }

/-- An empty installation has no user and no token. -/
def initial : MfaState Hash Secret Digest where
  db := ⟨fun _ => none, fun _ => none, []⟩
  userIds := []
  revoked := fun _ => none
  issued := []
  requests := fun _ => .idle

end MfaState

end SubtitleTranslator.Auth
