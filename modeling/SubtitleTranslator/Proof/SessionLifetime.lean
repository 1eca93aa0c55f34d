import SubtitleTranslator.Proof.Revocation

namespace SubtitleTranslator.Auth
open Library

section Lifetime
variable {Hash : Type} {config : SessionConfig}

/-- The absolute deadline of the session of a token, in whole seconds. -/
def sessionDeadline (config : SessionConfig) (claims : Claims) : Nat :=
  sessionStarted claims + config.maxHours * 3600

theorem ofTimestamp_sessionDeadline (config : SessionConfig) (claims : Claims) :
    ofTimestamp (sessionDeadline config claims) =
      ofTimestamp (sessionStarted claims) + config.maxAge := by
  simp only [sessionDeadline, ofTimestamp, SessionConfig.maxAge]
  omega

/-- A lifetime that is cut at a deadline ends with the deadline, or after one second. -/
theorem toTimestamp_le_deadline (instant lifetime deadline : Nat) :
    toTimestamp (instant + max 1000000 (min lifetime (ofTimestamp deadline - instant))) ≤
      max deadline (toTimestamp instant + 1) := by
  have second : toTimestamp (instant + 1000000) = toTimestamp instant + 1 :=
    Nat.add_div_right instant (by decide)
  have whole : toTimestamp (ofTimestamp deadline) = deadline :=
    Nat.mul_div_cancel_left deadline (by decide)
  rcases Nat.le_total (min lifetime (ofTimestamp deadline - instant)) 1000000 with short | long
  · rw [max_eq_left short, second]
    exact le_max_right _ _
  · rw [max_eq_right long]
    refine le_max_of_le_left ?_
    have ends : instant + min lifetime (ofTimestamp deadline - instant) ≤ ofTimestamp deadline := by
      have := min_le_right lifetime (ofTimestamp deadline - instant)
      omega
    exact (toTimestamp_mono ends).trans_eq whole

/-- A token that is issued at one reading ends with its session, or one second after the reading. -/
theorem issueToken_exp_le_deadline (config : SessionConfig) (userId : Nat) (user : UserRow Hash)
    (sessionId started : Option Nat) (uuid jti issuedAt : Nat) :
    let token := issueToken config userId user sessionId started uuid jti issuedAt issuedAt
    token.exp ≤ max (sessionDeadline config token) (token.iat + 1) := by
  intro token
  have cut := toTimestamp_le_deadline issuedAt config.accessExpires (sessionDeadline config token)
  rw [ofTimestamp_sessionDeadline] at cut
  exact cut

/-- A token that ends with its session or later is never refreshed. -/
theorem responseToken_eq_none {eligible : Bool} {readings : RefreshReadings}
    {verified current : TokenStore Hash} {claims : Claims} {uuid jti : Nat}
    (ended : sessionDeadline config claims ≤ claims.exp) :
    responseToken config eligible readings verified current claims uuid jti = none := by
  have refused : refreshDue config claims readings.dueAt = false := by
    have reached : ofTimestamp (sessionDeadline config claims) ≤ ofTimestamp claims.exp :=
      Nat.mul_le_mul_left _ ended
    rw [ofTimestamp_sessionDeadline] at reached
    simp [refreshDue, reached]
  rw [responseToken, if_neg]
  simp [refused]

/-- A token keeps the session, its start and the version of the token before it. -/
structure KeepsSession (earlier later : Claims) : Prop where
  sid : later.sid = some (earlier.sid.getD earlier.jti)
  sst : later.sst = some (earlier.sst.getD earlier.iat)
  ver : later.ver = earlier.ver
  sub : later.sub = earlier.sub

/-- A refresh keeps the session, and its token ends with the session or after one second. -/
theorem of_responseToken {eligible : Bool} {readings : RefreshReadings}
    {verified current : TokenStore Hash} {claims token : Claims} {uuid jti : Nat}
    (set : responseToken config eligible readings verified current claims uuid jti = some token) :
    KeepsSession claims token ∧ token.exp ≤ max (sessionDeadline config token) (token.iat + 1) := by
  rw [responseToken] at set
  split at set
  · obtain ⟨user, found, rfl⟩ := Option.map_eq_some_iff.mp set
    refine ⟨⟨rfl, rfl, ?_, rfl⟩, issueToken_exp_le_deadline ..⟩
    show user.tokenVersion = claims.ver
    exact (currentTokenUser_some found).2.symm
  · cases set

theorem KeepsSession.deadline {earlier later : Claims} (kept : KeepsSession earlier later) :
    sessionDeadline config later = sessionDeadline config earlier := by
  rw [sessionDeadline, sessionDeadline, sessionStarted, kept.sst]
  rfl

/-- Every token of a chain with a session start ends with the session, or one second after its
issue. -/
def Bounded (config : SessionConfig) (token : Claims) : Prop :=
  token.sst.isSome → token.exp ≤ max (sessionDeadline config token) (token.iat + 1)

theorem SessionChain.bounded {reading : Nat} {tokens : List Claims}
    (chain : SessionChain Hash config reading tokens) : ∀ token ∈ tokens, Bounded config token := by
  induction chain with
  | signIn userId user uuid jti issuedAt =>
      rw [List.forall_mem_singleton]
      exact fun _ => issueToken_exp_le_deadline config userId user none none uuid jti issuedAt
  | legacy claims absent reading =>
      rw [List.forall_mem_singleton]
      intro present
      rw [absent] at present
      cases present
  | refresh chain later set ih =>
      exact List.forall_mem_cons.mpr ⟨fun _ => (of_responseToken set).2, ih⟩

theorem SessionChain.keeps {reading : Nat} {tokens : List Claims}
    (chain : SessionChain Hash config reading tokens) :
    tokens.IsChain fun later earlier => KeepsSession earlier later := by
  induction chain with
  | signIn => exact List.isChain_singleton _
  | legacy => exact List.isChain_singleton _
  | refresh chain later set ih => exact List.isChain_cons_cons.mpr ⟨(of_responseToken set).1, ih⟩

/-- Only the latest token of a chain can reach the deadline. -/
theorem SessionChain.ended {reading : Nat} {tokens : List Claims}
    (chain : SessionChain Hash config reading tokens) :
    ∀ token ∈ tokens.tail, token.exp < sessionDeadline config token := by
  induction chain with
  | signIn => exact List.forall_mem_nil _
  | legacy => exact List.forall_mem_nil _
  | @refresh reading claims token rest chain eligible readings later verified current uuid jti set ih =>
      rw [List.tail_cons, List.forall_mem_cons]
      refine ⟨?_, ih⟩
      by_contra reached
      rw [responseToken_eq_none (Nat.le_of_not_lt reached)] at set
      cases set

/-- The lifetime of a session is absolute: each token keeps the session of the one before it, ends
with the session or one second after its issue, and is not refreshed once it ends with the session,
so that only the latest token can go on after the deadline. -/
theorem session_lifetime_absolute {reading : Nat} {tokens : List Claims}
    (chain : SessionChain Hash config reading tokens) :
    (tokens.IsChain fun later earlier => KeepsSession earlier later) ∧
      (∀ token ∈ tokens, token.sst.isSome →
        token.exp ≤ max (sessionDeadline config token) (token.iat + 1)) ∧
      (∀ token ∈ tokens, sessionDeadline config token ≤ token.exp →
        ∀ eligible readings (verified current : TokenStore Hash) uuid jti,
          responseToken config eligible readings verified current token uuid jti = none) ∧
      ∀ token ∈ tokens.tail, token.exp < sessionDeadline config token :=
  ⟨chain.keeps, chain.bounded, fun _ _ ended _ _ _ _ _ _ => responseToken_eq_none ended,
    chain.ended⟩

end Lifetime

/-- A session of one hour, a token of five minutes, and a response that is sent after the deadline. -/
def hourConfig : SessionConfig := ⟨5, 1⟩

def hourUser : UserRow Unit := insertUser () .user

def hourStore : TokenStore Unit := ⟨fun _ => none, fun _ => some hourUser⟩

def lateReadings : RefreshReadings :=
  ⟨299000000, 299000000, 3601000000, by decide, by decide⟩

def earlyToken : Claims := issueToken hourConfig 7 hourUser none none 1 2 0 0

def overdueToken : Claims := ⟨7, 0, 3, some 1, some 0, 3601, 3602⟩

theorem session_lifetime_absolute_example :
    ([overdueToken, earlyToken].IsChain fun later earlier => KeepsSession earlier later) ∧
      (∀ token ∈ [overdueToken, earlyToken], token.sst.isSome →
        token.exp ≤ max (sessionDeadline hourConfig token) (token.iat + 1)) ∧
      (∀ token ∈ [overdueToken, earlyToken], sessionDeadline hourConfig token ≤ token.exp →
        ∀ eligible readings (verified current : TokenStore Unit) uuid jti,
          responseToken hourConfig eligible readings verified current token uuid jti = none) ∧
      ∀ token ∈ [overdueToken, earlyToken].tail, token.exp < sessionDeadline hourConfig token := by
  have set : responseToken hourConfig true lateReadings hourStore hourStore earlyToken 4 3 =
      some overdueToken := by decide +kernel
  exact session_lifetime_absolute
    ((SessionChain.signIn 7 hourUser 1 2 0).refresh (Nat.zero_le _) set)

end SubtitleTranslator.Auth
