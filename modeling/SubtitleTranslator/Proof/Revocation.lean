import SubtitleTranslator.Construction.Session

namespace SubtitleTranslator.Auth
open Library

section Tokens
variable {Hash : Type}

theorem toTimestamp_mono {earlier later : Nat} (ordered : earlier ≤ later) :
    toTimestamp earlier ≤ toTimestamp later :=
  Nat.div_le_div_right ordered

/-- A whole second has passed when its timestamp is reached. -/
theorem ofTimestamp_le_of_le {timestamp now : Nat} (reached : timestamp ≤ toTimestamp now) :
    ofTimestamp timestamp ≤ now := by
  unfold ofTimestamp toTimestamp at *
  omega

/-- The lifetime of a token is at most the access lifetime. -/
def WithinLifetime (config : SessionConfig) (claims : Claims) : Prop :=
  claims.exp ≤ toTimestamp (ofTimestamp (claims.iat + 1) + config.accessExpires)

theorem accessExpires_ge (config : SessionConfig) : 1000000 ≤ config.accessExpires := by
  unfold SessionConfig.accessExpires
  omega

/-- A token that is issued at a clock reading expires within the access lifetime. -/
theorem issueToken_exp_le (config : SessionConfig) (userId : Nat) (user : UserRow Hash)
    (sessionId started : Option Nat) (uuid jti timestamp now : Nat) :
    (issueToken config userId user sessionId started uuid jti timestamp now).exp ≤
      toTimestamp (now + config.accessExpires) := by
  have minimum := accessExpires_ge config
  rw [issueToken]
  exact toTimestamp_mono (Nat.add_le_add_left (max_le minimum (min_le_left _ _)) now)

theorem issueToken_withinLifetime (config : SessionConfig) (userId : Nat) (user : UserRow Hash)
    (sessionId started : Option Nat) (uuid jti timestamp now : Nat) :
    WithinLifetime config
      (issueToken config userId user sessionId started uuid jti timestamp now) := by
  have second : now ≤ ofTimestamp (toTimestamp now + 1) := by
    rw [ofTimestamp, toTimestamp]
    omega
  have expires := issueToken_exp_le config userId user sessionId started uuid jti timestamp now
  exact expires.trans (toTimestamp_mono (Nat.add_le_add_right second _))

/-- The bound of a logout covers the tokens of the minute after its clock reading. -/
theorem le_sessionRevocationExpires {config : SessionConfig} {claims : Claims}
    {reading instant : Nat} (soon : instant ≤ reading + 60000000) :
    toTimestamp (instant + config.accessExpires) ≤
      sessionRevocationExpires config claims reading := by
  rw [sessionRevocationExpires]
  apply toTimestamp_mono
  have := le_max_right (ofTimestamp claims.exp) (reading + config.accessExpires)
  omega

/-- A token from before the clock reading of a logout expires before the bound of the logout. -/
theorem exp_le_sessionRevocationExpires {config : SessionConfig} {token claims : Claims}
    {reading : Nat} (lifetime : WithinLifetime config token)
    (earlier : token.iat < toTimestamp reading) :
    token.exp ≤ sessionRevocationExpires config claims reading := by
  have issued : ofTimestamp (token.iat + 1) ≤ reading := ofTimestamp_le_of_le earlier
  exact Nat.le_trans lifetime (le_sessionRevocationExpires (Nat.le_add_right_of_le issued))

/-- A token that is minted at most one minute after the clock reading of a logout expires
before the bound of the logout. -/
theorem exp_le_of_prompt_mint {config : SessionConfig} {claims presented : Claims}
    {user : UserRow Hash} {uuid jti timestamp now reading : Nat}
    (prompt : now ≤ reading + 60000000) :
    (refreshedSessionToken config claims user uuid jti timestamp now).exp ≤
      sessionRevocationExpires config presented reading :=
  Nat.le_trans (issueToken_exp_le ..) (le_sessionRevocationExpires prompt)

/-- A stored row stays as it is. -/
theorem revokeTokenKey_of_some {key other : RevocationKey} {expires bound : Nat}
    {revoked : RevocationKey → Option Nat} (stored : revoked other = some bound) :
    revokeTokenKey key expires revoked other = some bound := by
  by_cases same : other = key
  · subst same
    rw [revokeTokenKey, Function.update_self, stored, Option.getD_some]
  · rw [revokeTokenKey, Function.update_of_ne same, stored]

theorem revokeTokenKey_of_none {key : RevocationKey} {expires : Nat}
    {revoked : RevocationKey → Option Nat} (free : revoked key = none) :
    revokeTokenKey key expires revoked key = some expires := by
  rw [revokeTokenKey, Function.update_self, free, Option.getD_none]

theorem revokeTokenKey_of_ne {key other : RevocationKey} (different : other ≠ key)
    (expires : Nat) (revoked : RevocationKey → Option Nat) :
    revokeTokenKey key expires revoked other = revoked other :=
  Function.update_of_ne different ..

/-- A revoked session has no current token. -/
theorem currentTokenUser_of_revoked {revoked : RevocationKey → Option Nat}
    {users : Nat → Option (UserRow Hash)} {claims : Claims} {bound : Nat}
    (stored : revoked (.session (tokenSessionId claims)) = some bound) :
    currentTokenUser revoked users claims = none := by
  unfold currentTokenUser
  rw [if_pos]
  simp [tokenRevocationKeys, stored]

/-- A current token has the version of its user. -/
theorem currentTokenUser_some {revoked : RevocationKey → Option Nat}
    {users : Nat → Option (UserRow Hash)} {claims : Claims} {user : UserRow Hash}
    (current : currentTokenUser revoked users claims = some user) :
    users claims.sub = some user ∧ claims.ver = user.tokenVersion := by
  unfold currentTokenUser at current
  split at current
  · cases current
  · rw [Option.filter_eq_some_iff] at current
    simp only [Bool.and_eq_true, beq_iff_eq] at current
    exact ⟨current.1, current.2.2⟩

/-- An update never takes the token version back. -/
theorem tokenVersion_le_updateUser (change : UserChange Hash) (row : UserRow Hash) :
    row.tokenVersion ≤ (updateUser change row).tokenVersion := by
  unfold updateUser
  dsimp only
  split <;> omega

end Tokens

namespace SessionState
variable {Hash : Type}

@[simp] theorem setRequest_self (s : SessionState Hash) (request : Nat)
    (stage : SessionStage Hash) : (s.setRequest request stage).requests request = stage :=
  Function.update_self ..

@[simp] theorem setRequest_of_ne (s : SessionState Hash) {request other : Nat}
    (different : other ≠ request) (stage : SessionStage Hash) :
    (s.setRequest request stage).requests other = s.requests other :=
  Function.update_of_ne different ..

/-- The token that a suspended request relies on. -/
def heldClaims : SessionStage Hash → Option Claims
  | .authenticated claims | .refreshing claims _ _ | .loggingOut claims | .revoking claims _ =>
      some claims
  | .idle | .signingIn _ _ => none

/-- A token is out of use when it has expired or when the row of its session outlives it. -/
def Dead (s : SessionState Hash) (token : Claims) : Prop :=
  token.exp ≤ toTimestamp s.clock ∨
    ∃ bound, s.revoked (.session (tokenSessionId token)) = some bound ∧ token.exp ≤ bound + 1

/-- An unused identifier names no session. -/
theorem tokenSessionId_ne_of_unused {s : SessionState Hash} {uuid : Nat}
    (fresh : s.unused uuid = true) {token : Claims} (member : token ∈ s.issued) :
    tokenSessionId token ≠ uuid := by
  obtain ⟨jti, sid⟩ := of_decide_eq_true (List.all_eq_true.mp fresh token member)
  rw [tokenSessionId]
  cases named : token.sid with
  | none => exact jti
  | some sessionId => exact fun same => sid (named.trans (congrArg some same))

/-- Every token of a session that has logged out is out of use. -/
structure RevocationInvariant (config : SessionConfig) (s : SessionState Hash) : Prop where
  lifetime : ∀ token ∈ s.issued, WithinLifetime config token
  held : ∀ request claims, heldClaims (s.requests request) = some claims → claims ∈ s.issued
  known : ∀ session ∈ s.loggedOut, ∃ token ∈ s.issued, tokenSessionId token = session
  logged : ∀ session bound, s.revoked (.session session) = some bound → session ∈ s.loggedOut
  dead : ∀ token ∈ s.issued, tokenSessionId token ∈ s.loggedOut → s.Dead token

/-- The row that a logout commits outlives the tokens that its session got since the clock
reading, and the tokens that the session gets later are outlived by the stored row. -/
def rowsOutliveTokens (config : SessionConfig) (s : SessionState Hash) :
    SessionEvent Hash → Bool
  | .revokeSession request =>
      match s.requests request with
      | .revoking claims reading =>
          (s.revoked (.session (tokenSessionId claims))).isSome || s.issued.all fun token =>
            tokenSessionId token = tokenSessionId claims → toTimestamp reading ≤ token.iat →
              token.exp ≤ sessionRevocationExpires config claims reading + 1
      | _ => true
  | .mint request uuid jti timestamp =>
      match s.requests request with
      | .refreshing claims user _ =>
          tokenSessionId claims ∉ s.loggedOut ||
            (s.revoked (.session (tokenSessionId claims))).any fun bound =>
              (refreshedSessionToken config claims user uuid jti timestamp s.clock).exp ≤ bound + 1
      | _ => true
  | _ => true

/-- A step that issues no token and ends no session keeps the invariant when it keeps the
session rows of unexpired tokens. -/
theorem RevocationInvariant.frame {config : SessionConfig} {s next : SessionState Hash}
    (before : s.RevocationInvariant config) (issued : next.issued = s.issued)
    (loggedOut : next.loggedOut = s.loggedOut)
    (held : ∀ request claims, heldClaims (next.requests request) = some claims →
      claims ∈ s.issued)
    (rows : ∀ session bound, next.revoked (.session session) = some bound →
      ∃ earlier, s.revoked (.session session) = some earlier)
    (dead : ∀ token ∈ s.issued, s.Dead token → next.Dead token) :
    next.RevocationInvariant config := by
  refine ⟨?_, ?_, ?_, ?_, ?_⟩
  · rw [issued]
    exact before.lifetime
  · rw [issued]
    exact held
  · rw [issued, loggedOut]
    exact before.known
  · intro session bound stored
    obtain ⟨earlier, was⟩ := rows _ _ stored
    rw [loggedOut]
    exact before.logged _ _ was
  · intro token member out
    rw [issued] at member
    rw [loggedOut] at out
    exact dead _ member (before.dead _ member out)

/-- A request that moves holds its old token, a signed one, or none. -/
theorem RevocationInvariant.setRequest {config : SessionConfig} {s : SessionState Hash}
    (before : s.RevocationInvariant config) {request : Nat} {stage : SessionStage Hash}
    (signed : ∀ claims, heldClaims stage = some claims → claims ∈ s.issued)
    (other : Nat) (claims : Claims)
    (held : heldClaims ((s.setRequest request stage).requests other) = some claims) :
    claims ∈ s.issued := by
  by_cases same : other = request
  · subst same
    rw [setRequest_self] at held
    exact signed claims held
  · rw [setRequest_of_ne s same] at held
    exact before.held _ _ held

/-- A change of one request keeps the invariant. -/
theorem RevocationInvariant.move {config : SessionConfig} {s : SessionState Hash}
    (before : s.RevocationInvariant config) {request : Nat} {stage : SessionStage Hash}
    (signed : ∀ claims, heldClaims stage = some claims → claims ∈ s.issued) :
    (s.setRequest request stage).RevocationInvariant config :=
  before.frame rfl rfl (before.setRequest signed) (fun _ bound stored => ⟨bound, stored⟩)
    (fun _ _ dead => dead)

/-- A new token keeps the invariant when it is dead or its session has not logged out. -/
theorem RevocationInvariant.issue {config : SessionConfig} {s : SessionState Hash}
    (before : s.RevocationInvariant config) {request : Nat} {token : Claims}
    (lifetime : WithinLifetime config token)
    (spent : tokenSessionId token ∈ s.loggedOut → s.Dead token) :
    RevocationInvariant config
      { s.setRequest request .idle with issued := token :: s.issued } := by
  refine ⟨?_, ?_, ?_, before.logged, ?_⟩
  · rintro other (_ | ⟨_, member⟩)
    · exact lifetime
    · exact before.lifetime _ member
  · intro other claims held
    have signed : claims ∈ s.issued := before.setRequest
      (show ∀ claims, heldClaims (.idle : SessionStage Hash) = some claims → _ from nofun)
      other claims held
    exact List.mem_cons_of_mem _ signed
  · intro session out
    obtain ⟨known, member, same⟩ := before.known session out
    exact ⟨known, List.mem_cons_of_mem _ member, same⟩
  · rintro other (_ | ⟨_, member⟩) out
    · exact spent out
    · exact before.dead _ member out

/-- The commit of a session row ends the use of every token of the session. -/
theorem RevocationInvariant.revokeSession {config : SessionConfig} {s : SessionState Hash}
    (before : s.RevocationInvariant config) {request reading : Nat} {claims : Claims}
    (holder : s.requests request = .revoking claims reading)
    (outlives : s.revoked (.session (tokenSessionId claims)) = none →
      ∀ token ∈ s.issued, tokenSessionId token = tokenSessionId claims →
        toTimestamp reading ≤ token.iat →
        token.exp ≤ sessionRevocationExpires config claims reading + 1) :
    RevocationInvariant config { s.setRequest request .idle with
      revoked := revokeTokenKey (.session (tokenSessionId claims))
        (sessionRevocationExpires config claims reading) s.revoked
      loggedOut := tokenSessionId claims :: s.loggedOut } := by
  have signed : claims ∈ s.issued := before.held request claims (by rw [holder]; rfl)
  refine ⟨before.lifetime, before.setRequest nofun, ?_, ?_, ?_⟩
  · rintro session (_ | ⟨_, out⟩)
    · exact ⟨claims, signed, rfl⟩
    · exact before.known _ out
  · intro session bound stored
    by_cases same : session = tokenSessionId claims
    · exact same ▸ List.mem_cons_self
    · have other : RevocationKey.session session ≠ .session (tokenSessionId claims) := by
        simpa using same
      dsimp only at stored
      rw [revokeTokenKey_of_ne other] at stored
      exact List.mem_cons_of_mem _ (before.logged _ _ stored)
  · intro token member out
    by_cases same : tokenSessionId token = tokenSessionId claims
    · cases row : s.revoked (.session (tokenSessionId claims)) with
      | some bound =>
          rcases before.dead token member (same ▸ before.logged _ _ row) with
            expired | ⟨earlier, stored, small⟩
          · exact .inl expired
          · exact .inr ⟨earlier, revokeTokenKey_of_some stored, small⟩
      | none =>
          refine .inr ⟨sessionRevocationExpires config claims reading, ?_, ?_⟩
          · rw [same]
            exact revokeTokenKey_of_none row
          · rcases Nat.lt_or_ge token.iat (toTimestamp reading) with early | late
            · exact Nat.le_succ_of_le
                (exp_le_sessionRevocationExpires (before.lifetime _ member) early)
            · exact outlives row token member same late
    · rcases before.dead token member ((List.mem_cons.mp out).resolve_left same) with
        expired | ⟨bound, stored, small⟩
      · exact .inl expired
      · exact .inr ⟨bound, revokeTokenKey_of_some stored, small⟩

/-- The startup deletes only rows that no unexpired token needs. -/
theorem RevocationInvariant.cleanup {config : SessionConfig} {s : SessionState Hash}
    (before : s.RevocationInvariant config) {reading : Nat} (past : reading ≤ s.clock) :
    RevocationInvariant config
      { s with revoked := deleteExpired (toTimestamp reading) s.revoked } := by
  refine before.frame rfl rfl before.held ?_ ?_
  · intro session bound stored
    exact ⟨bound, (Option.filter_eq_some_iff.mp stored).1⟩
  · rintro token _ (expired | ⟨bound, stored, small⟩)
    · exact .inl expired
    · by_cases old : bound < toTimestamp reading
      · exact .inl (Nat.le_trans small (Nat.le_trans old (toTimestamp_mono past)))
      · refine .inr ⟨bound, Option.filter_eq_some_iff.mpr ⟨stored, ?_⟩, small⟩
        exact decide_eq_true old

/-- Each step under the condition keeps the invariant. -/
theorem RevocationInvariant.step {config : SessionConfig} {s next : SessionState Hash}
    {event : SessionEvent Hash} (before : s.RevocationInvariant config)
    (outlive : s.rowsOutliveTokens config event = true)
    (stepped : step config s event = some next) :
    next.RevocationInvariant config := by
  cases event with
  | tick instant =>
      simp only [SessionState.step] at stepped
      split at stepped <;> cases stepped
      rename_i later
      refine before.frame rfl rfl before.held (fun _ bound stored => ⟨bound, stored⟩) ?_
      rintro token _ (expired | covered)
      · exact .inl (Nat.le_trans expired (toTimestamp_mono later))
      · exact .inr covered
  | readUser request userId =>
      simp only [SessionState.step] at stepped
      split at stepped <;> cases stepped
      exact before.move nofun
  | signIn request uuid jti timestamp =>
      simp only [SessionState.step] at stepped
      split at stepped
      · split at stepped <;> cases stepped
        rename_i fresh
        refine before.issue (issueToken_withinLifetime ..) fun out => ?_
        obtain ⟨token, member, same⟩ := before.known _ out
        exact absurd same (tokenSessionId_ne_of_unused fresh.1 member)
      · cases stepped
  | authenticate request claims =>
      simp only [SessionState.step] at stepped
      split at stepped
      · split at stepped <;> cases stepped
        rename_i accepted
        refine before.move ?_
        rintro _ ⟨⟩
        exact (of_decide_eq_true accepted).1
      · cases stepped
  | readValidity request =>
      simp only [SessionState.step] at stepped
      split at stepped
      · rename_i claims holder
        have signed : claims ∈ s.issued := before.held request claims (by rw [holder]; rfl)
        split at stepped
        · split at stepped <;> cases stepped
          · refine before.move ?_
            rintro _ ⟨⟩
            exact signed
          · exact before.move nofun
        · cases stepped
          exact before.move nofun
      · cases stepped
  | mint request uuid jti timestamp =>
      simp only [SessionState.step] at stepped
      split at stepped
      · rename_i claims user readAt holder
        split at stepped <;> cases stepped
        refine before.issue (issueToken_withinLifetime ..) fun out => .inr ?_
        simp only [rowsOutliveTokens, holder, Bool.or_eq_true, decide_eq_true_eq,
          Option.any_eq_true] at outlive
        exact outlive.resolve_left (not_not_intro out)
      · cases stepped
  | revokeToken request =>
      simp only [SessionState.step] at stepped
      split at stepped <;> cases stepped
      rename_i claims holder
      have signed : claims ∈ s.issued := before.held request claims (by rw [holder]; rfl)
      have other (session : Nat) : revokeTokenKey (.token claims.jti) claims.exp s.revoked
          (.session session) = s.revoked (.session session) := by
        rw [revokeTokenKey_of_ne]
        nofun
      refine before.frame rfl rfl (before.setRequest ?_) ?_ ?_
      · rintro _ ⟨⟩
        exact signed
      · intro session bound stored
        exact ⟨bound, (other session).symm.trans stored⟩
      · rintro token _ (expired | ⟨bound, stored, small⟩)
        · exact .inl expired
        · exact .inr ⟨bound, (other _).trans stored, small⟩
  | readClock request =>
      simp only [SessionState.step] at stepped
      split at stepped <;> cases stepped
      rename_i claims holder
      refine before.move ?_
      rintro _ ⟨⟩
      exact before.held request claims (by rw [holder]; rfl)
  | revokeSession request =>
      simp only [SessionState.step] at stepped
      split at stepped <;> cases stepped
      rename_i claims reading holder
      refine before.revokeSession holder fun free token member same late => ?_
      simp only [rowsOutliveTokens, holder, free, Option.isSome_none, Bool.false_or] at outlive
      exact of_decide_eq_true (List.all_eq_true.mp outlive token member) same late
  | finish request =>
      simp only [SessionState.step] at stepped
      split at stepped <;> cases stepped
      exact before.move nofun
  | updateUser userId change =>
      cases stepped
      exact before.frame rfl rfl before.held (fun _ bound stored => ⟨bound, stored⟩)
        (fun _ _ dead => dead)
  | rotateSession userId =>
      cases stepped
      exact before.frame rfl rfl before.held (fun _ bound stored => ⟨bound, stored⟩)
        (fun _ _ dead => dead)
  | deleteUser userId =>
      cases stepped
      exact before.frame rfl rfl before.held (fun _ bound stored => ⟨bound, stored⟩)
        (fun _ _ dead => dead)
  | cleanup reading =>
      simp only [SessionState.step] at stepped
      split at stepped <;> cases stepped
      exact before.cleanup ‹_›

/-- A token that is out of use is not let in. -/
theorem Dead.accepts_eq_false {s : SessionState Hash} {token : Claims} (dead : s.Dead token) :
    s.accepts token = false := by
  refine decide_eq_false ?_
  rintro ⟨_, unexpired, current⟩
  rcases dead with expired | ⟨bound, stored, _⟩
  · exact Nat.lt_irrefl _ (Nat.lt_of_lt_of_le unexpired (ofTimestamp_le_of_le expired))
  · rw [currentTokenUser_of_revoked stored] at current
    cases current

/-- A start has only tokens within the lifetime and no logout. -/
theorem initial_revocation {config : SessionConfig} {clock : Nat}
    {users : Nat → Option (UserRow Hash)} {legacy : List Claims}
    (lifetime : ∀ token ∈ legacy, WithinLifetime config token) :
    (initial clock users legacy).RevocationInvariant config :=
  ⟨lifetime, nofun, nofun, nofun, nofun⟩

/-- A session stays logged out. -/
theorem mem_loggedOut_step {config : SessionConfig} {s next : SessionState Hash}
    {event : SessionEvent Hash} {session : Nat} (out : session ∈ s.loggedOut)
    (stepped : step config s event = some next) : session ∈ next.loggedOut := by
  cases event with
  | revokeSession request =>
      simp only [step] at stepped
      split at stepped <;> cases stepped
      exact List.mem_cons_of_mem _ out
  | tick _ | readUser _ _ | signIn _ _ _ _ | authenticate _ _ | readValidity _ | mint _ _ _ _
  | revokeToken _ | readClock _ | finish _ | updateUser _ _ | rotateSession _ | deleteUser _
  | cleanup _ =>
      have kept : next.loggedOut = s.loggedOut := by
        simp only [step] at stepped
        repeat' split at stepped
        all_goals cases stepped
        all_goals rfl
      rwa [kept]

/-- No token of a session that has logged out is let in. -/
theorem RevocationInvariant.accepts_eq_false {config : SessionConfig} {s : SessionState Hash}
    (invariant : s.RevocationInvariant config) {token : Claims}
    (out : tokenSessionId token ∈ s.loggedOut) : s.accepts token = false := by
  by_cases signed : token ∈ s.issued
  · exact (invariant.dead token signed out).accepts_eq_false
  · exact decide_eq_false fun accepted => signed accepted.1

/-- A user's row has at least the given version. -/
def VersionFrom (userId version : Nat) (s : SessionState Hash) : Prop :=
  ∀ user, s.users userId = some user → version ≤ user.tokenVersion

/-- A change of one row that keeps its version keeps the bound. -/
theorem VersionFrom.update {userId version changed : Nat} {s : SessionState Hash}
    (before : s.VersionFrom userId version) {change : UserRow Hash → UserRow Hash}
    (grows : ∀ user, user.tokenVersion ≤ (change user).tokenVersion) :
    VersionFrom userId version { s with
      users := Function.update s.users changed ((s.users changed).map change) } := by
  intro user stored
  by_cases same : userId = changed
  · subst same
    simp only [Function.update_self, Option.map_eq_some_iff] at stored
    obtain ⟨earlier, was, rfl⟩ := stored
    exact Nat.le_trans (before earlier was) (grows earlier)
  · simp only [Function.update_of_ne same] at stored
    exact before user stored

/-- No step takes a version back. -/
theorem VersionFrom.step {userId version : Nat} {config : SessionConfig}
    {s next : SessionState Hash} {event : SessionEvent Hash}
    (before : s.VersionFrom userId version) (stepped : step config s event = some next) :
    next.VersionFrom userId version := by
  cases event with
  | updateUser changed change =>
      cases stepped
      exact before.update (tokenVersion_le_updateUser change)
  | rotateSession changed =>
      cases stepped
      exact before.update fun user => Nat.le_succ _
  | deleteUser changed =>
      cases stepped
      intro user stored
      by_cases same : userId = changed
      · subst same
        simp at stored
      · simp only [Function.update_of_ne same] at stored
        exact before user stored
  | tick _ | readUser _ _ | signIn _ _ _ _ | authenticate _ _ | readValidity _ | mint _ _ _ _
  | revokeToken _ | readClock _ | revokeSession _ | finish _ | cleanup _ =>
      have users : next.users = s.users := by
        simp only [SessionState.step] at stepped
        repeat' split at stepped
        all_goals cases stepped
        all_goals rfl
      rw [VersionFrom, users]
      exact before

/-- A token with an older version is not let in. -/
theorem VersionFrom.accepts_eq_false {s : SessionState Hash} {token : Claims} {version : Nat}
    (from_ : s.VersionFrom token.sub version) (older : token.ver < version) :
    s.accepts token = false := by
  refine decide_eq_false ?_
  rintro ⟨_, _, current⟩
  obtain ⟨user, found⟩ := Option.isSome_iff_exists.mp current
  obtain ⟨stored, same⟩ := currentTokenUser_some found
  have := from_ user stored
  omega

end SessionState

section Runs
variable {Hash : Type} {config : SessionConfig}

/-- Revocation is final in every run whose session rows outlive the tokens they stand for:
once a logout has committed no token of its session is let in, and once a version bump has
committed no token with an older version is let in. -/
theorem revocation_is_final {clock : Nat} {users : Nat → Option (UserRow Hash)}
    {legacy : List Claims} (lifetime : ∀ token ∈ legacy, WithinLifetime config token)
    {events later : List (SessionEvent Hash)} {s last : SessionState Hash}
    (outlive : Machine.Meets (SessionState.step config)
      (fun s event => s.rowsOutliveTokens config event = true) (.initial clock users legacy)
      (events ++ later))
    (reached : Machine.run (SessionState.step config) (.initial clock users legacy) events = some s)
    (continued : Machine.run (SessionState.step config) s later = some last) :
    (∀ session ∈ s.loggedOut, ∀ token, tokenSessionId token = session →
      last.accepts token = false) ∧
      ∀ userId user, s.users userId = some user → ∀ token : Claims, token.sub = userId →
        token.ver < user.tokenVersion → last.accepts token = false := by
  constructor
  · rintro session out token rfl
    have invariant : last.RevocationInvariant config :=
      Machine.run_invariant_of_meets (SessionState.RevocationInvariant config)
        (fun _ _ _ before outlive stepped => before.step outlive stepped)
        (SessionState.initial_revocation lifetime) outlive
        ((Machine.run_append _).mpr ⟨s, reached, continued⟩)
    have still : tokenSessionId token ∈ last.loggedOut :=
      Machine.run_invariant (fun now => tokenSessionId token ∈ now.loggedOut)
        (fun _ _ _ before stepped => SessionState.mem_loggedOut_step before stepped)
        out continued
    exact invariant.accepts_eq_false still
  · rintro _ user stored token rfl older
    have from_ : s.VersionFrom token.sub user.tokenVersion := fun other same =>
      Nat.le_of_eq (by rw [Option.some.inj (stored.symm.trans same)])
    have still : last.VersionFrom token.sub user.tokenVersion :=
      Machine.run_invariant (SessionState.VersionFrom token.sub user.tokenVersion)
        (fun _ _ _ before stepped => before.step stepped) from_ continued
    exact still.accepts_eq_false older

/-- A refresh issues its token within one minute of its validity read. -/
def SessionState.mintsPromptly (s : SessionState Hash) : SessionEvent Hash → Bool
  | .mint request _ _ _ =>
      match s.requests request with
      | .refreshing _ _ readAt => s.clock ≤ readAt + 60000000
      | _ => true
  | _ => true

end Runs

/-- Tokens live for half an hour and sessions for half a day. -/
def exampleConfig : SessionConfig := ⟨30, 12⟩

/-- Every user has a new account, and no token was issued. -/
def exampleStart : SessionState Unit :=
  .initial 0 (fun _ => some (insertUser () .user)) []

/-- The first token of session `10`, from its sign-in. -/
def firstToken : Claims := ⟨0, 0, 11, some 10, some 0, 0, 1800⟩

/-- User `0` signs in and logs out at once. -/
def promptLogout : List (SessionEvent Unit) :=
  [.readUser 0 0, .signIn 0 10 11 0, .authenticate 1 firstToken, .revokeToken 1, .readClock 1,
    .revokeSession 1]

theorem promptLogout_run :
    (Machine.run (Machine.restrict (SessionState.step exampleConfig)
      (SessionState.rowsOutliveTokens exampleConfig)) exampleStart
      (promptLogout ++ [.tick 1799000000, .cleanup 1799000000])).isSome = true ∧
    (Machine.run (SessionState.step exampleConfig) exampleStart promptLogout).map
      SessionState.loggedOut = some [10] := by
  decide +kernel

theorem revocation_is_final_example :
    ∃ s last, Machine.run (SessionState.step exampleConfig) exampleStart promptLogout = some s ∧
      s.loggedOut = [10] ∧
      Machine.run (SessionState.step exampleConfig) s [.tick 1799000000, .cleanup 1799000000] =
        some last ∧
      last.accepts firstToken = false := by
  obtain ⟨last, ran⟩ := Option.isSome_iff_exists.mp promptLogout_run.1
  obtain ⟨ranAll, outlive⟩ := Machine.run_restrict ran
  obtain ⟨s, reached, continued⟩ := (Machine.run_append _).mp ranAll
  have out : s.loggedOut = [10] := by
    simpa [reached] using promptLogout_run.2
  refine ⟨s, last, reached, out, continued, ?_⟩
  refine (revocation_is_final ?_ outlive reached continued).1 10 ?_ firstToken rfl
  · exact nofun
  · rw [out]
    exact List.mem_singleton_self 10

/-- The second token of session `10`, from a refresh. -/
def secondToken : Claims := ⟨0, 0, 12, some 10, some 0, 1250, 3050⟩

/-- The third token of session `10`, from a refresh that was in flight at the logout. -/
def lateToken : Claims := ⟨0, 0, 13, some 10, some 0, 1369, 3169⟩

/-- A logout reads the clock at 1300 s and commits its session row at 1311 s; a refresh of the
first token reads its validity at 1310 s and mints at 1369 s. -/
def slowLogout : List (SessionEvent Unit) :=
  [.readUser 0 0, .signIn 0 10 11 0,
    .tick 1250000000, .authenticate 1 firstToken, .readValidity 1, .mint 1 0 12 1250000000,
    .tick 1300000000, .authenticate 2 secondToken, .revokeToken 2, .readClock 2,
    .tick 1310000000, .authenticate 3 firstToken, .readValidity 3,
    .tick 1311000000, .revokeSession 2]

/-- The refresh mints, and a startup deletes the session row while the new token is alive. -/
def lateMint : List (SessionEvent Unit) :=
  [.tick 1369000000, .mint 3 0 13 1369000000, .tick 3165000000, .cleanup 3165000000]

theorem slowLogout_run :
    (Machine.run (Machine.restrict (SessionState.step exampleConfig)
      SessionState.mintsPromptly) exampleStart (slowLogout ++ lateMint)).map
        (·.accepts lateToken) = some true ∧
    (Machine.run (SessionState.step exampleConfig) exampleStart slowLogout).map
      SessionState.loggedOut = some [10] := by
  decide +kernel

/-- A token of a session that has logged out is let in, although its refresh was prompt. -/
theorem slowLogout_is_not_final :
    ∃ s last, Machine.Meets (SessionState.step exampleConfig)
        (fun s event => s.mintsPromptly event = true) exampleStart (slowLogout ++ lateMint) ∧
      Machine.run (SessionState.step exampleConfig) exampleStart slowLogout = some s ∧
      tokenSessionId lateToken ∈ s.loggedOut ∧
      Machine.run (SessionState.step exampleConfig) s lateMint = some last ∧
      last.accepts lateToken = true := by
  obtain ⟨last, ran, accepted⟩ := Option.map_eq_some_iff.mp slowLogout_run.1
  obtain ⟨ranAll, prompt⟩ := Machine.run_restrict ran
  obtain ⟨s, reached, continued⟩ := (Machine.run_append _).mp ranAll
  have out : s.loggedOut = [10] := by
    simpa [reached] using slowLogout_run.2
  refine ⟨s, last, prompt, reached, ?_, continued, accepted⟩
  rw [out]
  exact List.mem_singleton_self 10

end SubtitleTranslator.Auth
