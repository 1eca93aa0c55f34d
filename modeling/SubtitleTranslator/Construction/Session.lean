import SubtitleTranslator.Construction.Login

namespace SubtitleTranslator.Auth
open Library

/-- These settings bound the lifetime of tokens and sessions. -/
structure SessionConfig where
  /-- The value of `JWT_ACCESS_MINUTES`. -/
  accessMinutes : Nat
  /-- The value of `SESSION_MAX_HOURS`. -/
  maxHours : Nat

/-- The setting `JWT_ACCESS_TOKEN_EXPIRES` is at least five minutes. -/
def SessionConfig.accessExpires (config : SessionConfig) : Nat :=
  max 5 config.accessMinutes * 60000000

/-- The setting is `SESSION_MAX_AGE`. -/
def SessionConfig.maxAge (config : SessionConfig) : Nat := config.maxHours * 3600000000

/-- These are the claims of an access token that the application reads. -/
structure Claims where
  sub : Nat
  ver : Nat
  jti : Nat
  /-- A token from before session ids has no `sid`. -/
  sid : Option Nat
  sst : Option Nat
  iat : Nat
  exp : Nat
  deriving DecidableEq

/-- The keys of `revoked_tokens` are the ids of tokens and the prefixed ids of sessions. -/
inductive RevocationKey where
  | token (jti : Nat)
  | session (sessionId : Nat)
  deriving DecidableEq

/-- This function is `session_started`; every issued token has an `iat`. -/
def sessionStarted (claims : Claims) : Nat := claims.sst.getD claims.iat

/-- This function is `token_session_id`. -/
def tokenSessionId (claims : Claims) : Nat := claims.sid.getD claims.jti

/-- This function is `token_revocation_keys`. -/
def tokenRevocationKeys (claims : Claims) : List RevocationKey :=
  [.token claims.jti, .session (tokenSessionId claims)]

variable {Hash : Type}

/-- This function is `issue_token`. The first clock reading sets the lifetime, and the library
counts it from the second; `uuid` names a new session and `jti` the token. -/
def issueToken (config : SessionConfig) (userId : Nat) (user : UserRow Hash)
    (sessionId started : Option Nat) (uuid jti timestamp now : Nat) : Claims :=
  let sessionStart := started.getD (toTimestamp timestamp)
  let remaining := ofTimestamp sessionStart + config.maxAge - timestamp
  { sub := userId
    ver := user.tokenVersion
    jti := jti
    sid := some (sessionId.getD uuid)
    sst := some sessionStart
    iat := toTimestamp now
    exp := toTimestamp (now + max 1000000 (min config.accessExpires remaining)) }

/-- This function is `current_token_user`. -/
def currentTokenUser (revoked : RevocationKey → Option Nat) (users : Nat → Option (UserRow Hash))
    (claims : Claims) : Option (UserRow Hash) :=
  if (tokenRevocationKeys claims).any fun key => (revoked key).isSome then none
  else (users claims.sub).filter fun user => user.active && claims.ver == user.tokenVersion

/-- The response hook refreshes a cookie in its last ten minutes, unless the session ends first. -/
def refreshDue (config : SessionConfig) (claims : Claims) (now : Nat) : Bool :=
  ofTimestamp claims.exp < now + 600000000 ∧
    ¬ofTimestamp (sessionStarted claims) + config.maxAge ≤ ofTimestamp claims.exp

/-- This function is the token part of `refreshed_session_token`. -/
def refreshedSessionToken (config : SessionConfig) (claims : Claims) (user : UserRow Hash)
    (uuid jti timestamp now : Nat) : Claims :=
  issueToken config claims.sub user (some (tokenSessionId claims)) (some (sessionStarted claims))
    uuid jti timestamp now

/-- The rows that decide whether a token is current. -/
structure TokenStore (Hash : Type) where
  revoked : RevocationKey → Option Nat
  users : Nat → Option (UserRow Hash)

/-- These are the clock readings of a response that refreshes its cookie. -/
structure RefreshReadings where
  verifiedAt : Nat
  dueAt : Nat
  issuedAt : Nat
  verifiedFirst : verifiedAt ≤ dueAt
  issuedLast : dueAt ≤ issuedAt

/-- This function is the cookie refresh of `security_headers`: the token that a response sets.
`eligible` tells that the endpoint refreshes cookies and the response has none; the token is
verified against one store and refreshed against a later one. -/
def responseToken (config : SessionConfig) (eligible : Bool) (readings : RefreshReadings)
    (verified current : TokenStore Hash) (claims : Claims) (uuid jti : Nat) : Option Claims :=
  if eligible ∧ readings.verifiedAt < ofTimestamp claims.exp ∧
      (currentTokenUser verified.revoked verified.users claims).isSome ∧
        refreshDue config claims readings.dueAt then
    (currentTokenUser current.revoked current.users claims).map fun user =>
      refreshedSessionToken config claims user uuid jti readings.issuedAt readings.issuedAt
  else none

/-- The tokens of a session, the latest first: a sign-in or a token of an earlier version, and one
refresh after the other. The index is the clock reading of the latest issue. -/
inductive SessionChain (Hash : Type) (config : SessionConfig) : Nat → List Claims → Prop where
  | signIn (userId : Nat) (user : UserRow Hash) (uuid jti issuedAt : Nat) :
      SessionChain Hash config issuedAt
        [issueToken config userId user none none uuid jti issuedAt issuedAt]
  | legacy (claims : Claims) (absent : claims.sst = none) (reading : Nat) :
      SessionChain Hash config reading [claims]
  | refresh {reading : Nat} {claims token : Claims} {rest : List Claims}
      (chain : SessionChain Hash config reading (claims :: rest)) {eligible : Bool}
      {readings : RefreshReadings} (later : reading ≤ readings.verifiedAt)
      {verified current : TokenStore Hash} {uuid jti : Nat}
      (set : responseToken config eligible readings verified current claims uuid jti = some token) :
      SessionChain Hash config readings.issuedAt (token :: claims :: rest)

/-- This function is `revoke_token_key`: a stored row stays as it is. -/
def revokeTokenKey (key : RevocationKey) (expires : Nat) (revoked : RevocationKey → Option Nat) :
    RevocationKey → Option Nat :=
  Function.update revoked key (some ((revoked key).getD expires))

/-- The bound that `logout` computes for a session from a clock reading. -/
def sessionRevocationExpires (config : SessionConfig) (claims : Claims) (reading : Nat) : Nat :=
  toTimestamp (max (ofTimestamp claims.exp) (reading + config.accessExpires) + 60000000)

/-- The startup deletes the rows that expired before its timestamp. -/
def deleteExpired (timestamp : Nat) (revoked : RevocationKey → Option Nat) :
    RevocationKey → Option Nat :=
  fun key => (revoked key).filter fun expires => ¬expires < timestamp

/-- These are the places where a request can be suspended. -/
inductive SessionStage (Hash : Type) where
  | idle
  /-- A sign-in has read the row that it issues a token for. -/
  | signingIn (userId : Nat) (user : UserRow Hash)
  | authenticated (claims : Claims)
  /-- A refresh has read that its token is current. -/
  | refreshing (claims : Claims) (user : UserRow Hash) (readAt : Nat)
  /-- A logout has revoked the token. -/
  | loggingOut (claims : Claims)
  /-- A logout has read the clock for the session row. -/
  | revoking (claims : Claims) (reading : Nat)
  deriving DecidableEq

/-- The state of the tokens, of the revocation table and of the requests. -/
structure SessionState (Hash : Type) where
  clock : Nat
  users : Nat → Option (UserRow Hash)
  /-- The tokens that were signed so far. -/
  issued : List Claims
  revoked : RevocationKey → Option Nat
  requests : Nat → SessionStage Hash
  /-- The sessions whose logout has committed. -/
  loggedOut : List Nat

inductive SessionEvent (Hash : Type) where
  | tick (instant : Nat)
  | readUser (request userId : Nat)
  | signIn (request uuid jti timestamp : Nat)
  /-- A request presents a token. -/
  | authenticate (request : Nat) (claims : Claims)
  | readValidity (request : Nat)
  | mint (request uuid jti timestamp : Nat)
  | revokeToken (request : Nat)
  | readClock (request : Nat)
  | revokeSession (request : Nat)
  | finish (request : Nat)
  | updateUser (userId : Nat) (change : UserChange Hash)
  | rotateSession (userId : Nat)
  | deleteUser (userId : Nat)
  /-- A starting process deletes expired rows; its timestamp can be old. -/
  | cleanup (reading : Nat)

namespace SessionState

def setRequest (s : SessionState Hash) (request : Nat) (stage : SessionStage Hash) :
    SessionState Hash :=
  { s with requests := Function.update s.requests request stage }

/-- No token carries the identifier. -/
def unused (s : SessionState Hash) (uuid : Nat) : Bool :=
  s.issued.all fun token => token.jti ≠ uuid ∧ token.sid ≠ some uuid

/-- A request with this token is let in: the token is signed, not expired and still current. -/
def accepts (s : SessionState Hash) (claims : Claims) : Bool :=
  claims ∈ s.issued ∧ s.clock < ofTimestamp claims.exp ∧
    (currentTokenUser s.revoked s.users claims).isSome

/-- This step moves the requests and the stores that they share. -/
def step (config : SessionConfig) (s : SessionState Hash) :
    SessionEvent Hash → Option (SessionState Hash)
  | .tick instant => if s.clock ≤ instant then some { s with clock := instant } else none
  | .readUser request userId =>
      match s.requests request, s.users userId with
      | .idle, some user => some (s.setRequest request (.signingIn userId user))
      | _, _ => none
  | .signIn request uuid jti timestamp =>
      match s.requests request with
      | .signingIn userId user =>
          if s.unused uuid ∧ s.unused jti ∧ uuid ≠ jti ∧ timestamp ≤ s.clock then
            some { s.setRequest request .idle with
              issued := issueToken config userId user none none uuid jti timestamp s.clock ::
                s.issued }
          else none
      | _ => none
  | .authenticate request claims =>
      match s.requests request with
      | .idle => if s.accepts claims then some (s.setRequest request (.authenticated claims)) else none
      | _ => none
  | .readValidity request =>
      match s.requests request with
      | .authenticated claims =>
          if refreshDue config claims s.clock then
            match currentTokenUser s.revoked s.users claims with
            | some user => some (s.setRequest request (.refreshing claims user s.clock))
            | none => some (s.setRequest request .idle)
          else some (s.setRequest request .idle)
      | _ => none
  | .mint request uuid jti timestamp =>
      match s.requests request with
      | .refreshing claims user readAt =>
          if s.unused jti ∧ readAt ≤ timestamp ∧ timestamp ≤ s.clock then
            some { s.setRequest request .idle with
              issued := refreshedSessionToken config claims user uuid jti timestamp s.clock ::
                s.issued }
          else none
      | _ => none
  | .revokeToken request =>
      match s.requests request with
      | .authenticated claims =>
          some { s.setRequest request (.loggingOut claims) with
            revoked := revokeTokenKey (.token claims.jti) claims.exp s.revoked }
      | _ => none
  | .readClock request =>
      match s.requests request with
      | .loggingOut claims => some (s.setRequest request (.revoking claims s.clock))
      | _ => none
  | .revokeSession request =>
      match s.requests request with
      | .revoking claims reading =>
          some { s.setRequest request .idle with
            revoked := revokeTokenKey (.session (tokenSessionId claims))
              (sessionRevocationExpires config claims reading) s.revoked
            loggedOut := tokenSessionId claims :: s.loggedOut }
      | _ => none
  | .finish request =>
      match s.requests request with
      | .authenticated _ => some (s.setRequest request .idle)
      | _ => none
  | .updateUser userId change =>
      some { s with
        users := Function.update s.users userId ((s.users userId).map (updateUser change)) }
  | .rotateSession userId =>
      some { s with
        users := Function.update s.users userId ((s.users userId).map rotateVersion) }
  | .deleteUser userId => some { s with users := Function.update s.users userId none }
  | .cleanup reading =>
      if reading ≤ s.clock then
        some { s with revoked := deleteExpired (toTimestamp reading) s.revoked }
      else none

/-- A start has tokens from earlier versions, no request and no logout. -/
def initial (clock : Nat) (users : Nat → Option (UserRow Hash)) (legacy : List Claims) :
    SessionState Hash where
  clock := clock
  users := users
  issued := legacy
  revoked := fun _ => none
  requests := fun _ => .idle
  loggedOut := []

end SessionState

end SubtitleTranslator.Auth
