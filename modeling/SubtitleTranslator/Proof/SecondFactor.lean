import SubtitleTranslator.Construction.SecondFactor
import SubtitleTranslator.Proof.Revocation

namespace SubtitleTranslator.Auth
open Library Library.Text

section Operations
variable {Hash Password Secret Digest : Type}

/-- The change keeps every user row and every enrolled method. -/
structure MfaDb.Quiet (db next : MfaDb Hash Secret Digest) : Prop where
  users : next.users = db.users
  method : ∀ userId, next.method userId = db.method userId

theorem MfaDb.Quiet.refl (db : MfaDb Hash Secret Digest) : db.Quiet db :=
  ⟨rfl, fun _ => rfl⟩

theorem MfaDb.Quiet.trans {first second third : MfaDb Hash Secret Digest}
    (before : first.Quiet second) (after : second.Quiet third) : first.Quiet third :=
  ⟨after.users.trans before.users, fun userId => (after.method userId).trans (before.method userId)⟩

/-- A change of the challenges is quiet. -/
theorem MfaDb.quiet_challenges (db : MfaDb Hash Secret Digest)
    (challenges : List (Challenge Secret Digest)) : db.Quiet { db with challenges := challenges } :=
  ⟨rfl, fun _ => rfl⟩

theorem MfaDb.method_changeAccount_of_ne (db : MfaDb Hash Secret Digest) {userId other : Nat}
    (change : MfaAccount Secret Digest → MfaAccount Secret Digest) (different : other ≠ userId) :
    (db.changeAccount userId change).method other = db.method other := by
  simp only [MfaDb.method, MfaDb.changeAccount, Function.update_of_ne different]

/-- A change of an account that keeps its method is quiet. -/
theorem MfaDb.quiet_changeAccount (db : MfaDb Hash Secret Digest) (userId : Nat)
    {change : MfaAccount Secret Digest → MfaAccount Secret Digest}
    (kept : ∀ row, (change row).method = row.method) :
    db.Quiet (db.changeAccount userId change) := by
  refine ⟨rfl, fun other => ?_⟩
  by_cases same : other = userId
  · subst same
    simp only [MfaDb.method, MfaDb.changeAccount, Function.update_self]
    cases db.accounts other with
    | none => rfl
    | some row => exact kept row
  · exact db.method_changeAccount_of_ne change same

/-- A change of an account that clears its method leaves no method. -/
theorem MfaDb.method_changeAccount_none (db : MfaDb Hash Secret Digest) (userId : Nat)
    {change : MfaAccount Secret Digest → MfaAccount Secret Digest}
    (cleared : ∀ row, (change row).method = none) :
    (db.changeAccount userId change).method userId = none := by
  simp only [MfaDb.method, MfaDb.changeAccount, Function.update_self]
  cases db.accounts userId with
  | none => rfl
  | some row => exact cleared row

theorem setBudget_method (account : MfaAccount Secret Digest) (scope : Scope)
    (failures lockedUntil : Nat) :
    (account.setBudget scope failures lockedUntil).method = account.method := by
  cases scope <;> rfl

/-- The lock returns the current rows and changes no factor. -/
theorem MfaDb.lockAccount_spec [Inhabited Secret] (db : MfaDb Hash Secret Digest)
    (userId version : Nat) :
    db.Quiet (db.lockAccount userId version).1 ∧
      ∀ user account, (db.lockAccount userId version).2 = some (user, account) →
        db.users userId = some user ∧ user.tokenVersion = version ∧
          (db.lockAccount userId version).1.accounts userId = some account := by
  unfold MfaDb.lockAccount
  cases stored : db.users userId with
  | none => exact ⟨.refl db, nofun⟩
  | some user =>
      by_cases current : user.active = true ∧ user.tokenVersion = version
      · simp only [if_pos current]
        cases row : db.accounts userId with
        | some account =>
            refine ⟨.refl db, fun _ _ same => ?_⟩
            cases same
            exact ⟨rfl, current.2, row⟩
        | none =>
            refine ⟨⟨rfl, fun other => ?_⟩, fun _ _ same => ?_⟩
            · by_cases same : other = userId
              · subst same
                simp [MfaDb.method, row, MfaAccount.empty]
              · simp [MfaDb.method, Function.update_of_ne same]
            · cases same
              exact ⟨rfl, current.2, Function.update_self ..⟩
      · simp only [if_neg current]
        exact ⟨.refl db, nofun⟩

/-- These are the effects of an operation on users, factors and tokens; `verified` says that
the operation verified a factor that stays enrolled. -/
inductive MfaEffect (verified : Bool) (db : MfaDb Hash Secret Digest) :
    MfaDb Hash Secret Digest × MfaReply Hash → Prop where
  | refused (next : MfaDb Hash Secret Digest) (error : MfaError) (quiet : db.Quiet next) :
      MfaEffect verified db (next, .refused error)
  | challenged (next : MfaDb Hash Secret Digest) (claims : ChallengeClaims) (method : MfaMethod)
      (code : Str) (warning : Option String) (quiet : db.Quiet next) :
      MfaEffect verified db (next, .challenged claims method code warning)
  | signedIn (next : MfaDb Hash Secret Digest) (userId : Nat) (user : UserRow Hash)
      (transport : Transport) (quiet : db.Quiet next) (current : db.users userId = some user)
      (factor : verified = true ∨ db.method userId = none) :
      MfaEffect verified db (next, .signedIn userId user transport [])
  | rotated (next : MfaDb Hash Secret Digest) (userId : Nat) (user : UserRow Hash)
      (transport : Transport) (codes : List Str) (current : db.users userId = some user)
      (users : next.users = Function.update db.users userId (some (rotateVersion user)))
      (others : ∀ other, other ≠ userId → next.method other = db.method other)
      (factor : verified = true ∨ next.method userId = none) :
      MfaEffect verified db (next, .signedIn userId (rotateVersion user) transport codes)

/-- An operation that starts after a quiet change has its effect from the start. -/
theorem MfaEffect.after {verified : Bool} {db middle : MfaDb Hash Secret Digest}
    {outcome : MfaDb Hash Secret Digest × MfaReply Hash} (quiet : db.Quiet middle)
    (effect : MfaEffect verified middle outcome) : MfaEffect verified db outcome := by
  cases effect with
  | refused next error later => exact .refused next error (quiet.trans later)
  | challenged next claims method code warning later =>
      exact .challenged next claims method code warning (quiet.trans later)
  | signedIn next userId user transport later current factor =>
      rw [quiet.users] at current
      rw [quiet.method] at factor
      exact .signedIn next userId user transport (quiet.trans later) current factor
  | rotated next userId user transport codes current users others factor =>
      rw [quiet.users] at current users
      exact .rotated next userId user transport codes current users
        (fun other different => (others other different).trans (quiet.method other)) factor

/-- A failed attempt only spends its budget. -/
theorem failed_effect (verified : Bool) (db : MfaDb Hash Secret Digest) (userId : Nat)
    (account : MfaAccount Secret Digest) (scope : Scope) (now : Nat) (error : MfaError) :
    MfaEffect verified db (failed db userId account scope now error) := by
  unfold failed
  split
  · refine .refused _ error (.trans (db.quiet_changeAccount userId ?_) (MfaDb.quiet_challenges _ _))
    exact fun row => setBudget_method ..
  · exact .refused _ error (db.quiet_changeAccount userId fun row => setBudget_method ..)

/-- An operation under the account lock has the effect of its body on the locked rows. -/
theorem withAccount_effect [Inhabited Secret] {verified : Bool} (db : MfaDb Hash Secret Digest)
    (userId version : Nat) (scope : Scope) (now : Nat)
    (body : MfaDb Hash Secret Digest → UserRow Hash → MfaAccount Secret Digest →
      MfaDb Hash Secret Digest × MfaReply Hash)
    (effect : ∀ db user account, db.users userId = some user →
      db.accounts userId = some account → MfaEffect verified db (body db user account)) :
    MfaEffect verified db (withAccount db userId version scope now body) := by
  obtain ⟨quiet, rows⟩ := db.lockAccount_spec userId version
  unfold withAccount
  generalize db.lockAccount userId version = locked at quiet rows
  obtain ⟨middle, found⟩ := locked
  cases found with
  | none => exact .refused middle _ quiet
  | some pair =>
      obtain ⟨user, account⟩ := pair
      obtain ⟨current, _, row⟩ := rows user account rfl
      dsimp only
      cases guardBudget account scope now with
      | some error => exact .refused middle error quiet
      | none => exact .after quiet (effect middle user account (quiet.users ▸ current) row)

theorem createChallenge_quiet (keys : MfaKeys Hash Password Secret Digest)
    (draws : MfaDraws Secret) (now : Nat) (db : MfaDb Hash Secret Digest) (userId : Nat)
    (user : UserRow Hash) (purpose : Purpose) (method : MfaMethod) (email : Str) (secret : Secret)
    (transport : Transport) (send : Bool) :
    db.Quiet (createChallenge keys draws now db userId user purpose method email secret transport
      send).1 :=
  MfaDb.quiet_challenges ..

/-- A reserved sending keeps the method of the account. -/
theorem emailLimit_method {account : MfaAccount Secret Digest} {now : Nat}
    {change : MfaAccount Secret Digest → MfaAccount Secret Digest}
    (allowed : emailLimit account now = .ok change) (row : MfaAccount Secret Digest) :
    (change row).method = row.method := by
  unfold emailLimit at allowed
  split at allowed
  · cases allowed
  · dsimp only at allowed
    split at allowed <;> cases allowed
    rfl

/-- A proved factor keeps the method of the account. -/
theorem checkFactor_method [DecidableEq Digest] {keys : MfaKeys Hash Password Secret Digest}
    {account : MfaAccount Secret Digest} {code : Option Str}
    {challenge : Option (Challenge Secret Digest)} {now : Nat}
    {change : MfaAccount Secret Digest → MfaAccount Secret Digest}
    (proved : checkFactor keys account code challenge now = .ok (some change))
    (row : MfaAccount Secret Digest) : (change row).method = row.method := by
  unfold checkFactor at proved
  split at proved
  · cases proved
  · dsimp only at proved
    split at proved
    · cases proved
      rfl
    · split at proved
      · cases step : totpStep keys account.secret _ account.lastStep now with
        | error _ =>
            rw [step] at proved
            cases proved
        | ok found =>
            rw [step] at proved
            cases found with
            | none => cases proved
            | some _ =>
                cases proved
                rfl
      · split at proved <;> cases proved
        rfl
      · cases proved

/-- A rotation for a locked row keeps the factors of the other users. -/
theorem rotateSession_effect {verified : Bool} {db middle : MfaDb Hash Secret Digest}
    {userId : Nat} {user : UserRow Hash} (transport : Transport) (codes : List Str)
    (current : db.users userId = some user) (users : middle.users = db.users)
    (others : ∀ other, other ≠ userId → middle.method other = db.method other)
    (factor : verified = true ∨ middle.method userId = none) :
    MfaEffect verified db (rotateSession middle userId user transport codes) :=
  .rotated _ userId user transport codes current (by rw [users]) others factor

section Effects
variable [Inhabited Secret]
  (keys : MfaKeys Hash Password Secret Digest) (draws : MfaDraws Secret) (now : Nat)

/-- A password login signs in only without a method. -/
theorem beginLogin_effect [DecidableEq Hash] (emailAvailable : Bool)
    (db : MfaDb Hash Secret Digest) (userId : Nat) (original : UserRow Hash) (transport : Transport) :
    MfaEffect false db (beginLogin keys draws now emailAvailable db userId original transport) := by
  obtain ⟨quiet, rows⟩ := db.lockAccount_spec userId original.tokenVersion
  unfold beginLogin
  generalize db.lockAccount userId original.tokenVersion = locked at quiet rows
  obtain ⟨middle, found⟩ := locked
  cases found with
  | none => exact .refused middle _ quiet
  | some pair =>
      obtain ⟨user, account⟩ := pair
      obtain ⟨current, _, row⟩ := rows user account rfl
      have enrolled : db.method userId = account.method := by
        rw [← quiet.method userId, MfaDb.method, row, Option.bind_some]
      dsimp only
      split
      · exact .refused middle _ quiet
      · cases factor : account.method with
        | none =>
            exact .signedIn middle userId user transport quiet current
              (.inr (enrolled.trans factor))
        | some method =>
            dsimp only
            cases guardBudget account .login now with
            | some error => exact .refused middle error quiet
            | none =>
                dsimp only
                have reserved : middle.Quiet
                    (if method = .email ∧ emailAvailable = true ∧
                        (emailLimit account now).toOption.isSome = true then
                      middle.changeAccount userId ((emailLimit account now).toOption.getD id)
                    else middle) := by
                  split
                  · refine middle.quiet_changeAccount userId fun row => ?_
                    cases limit : emailLimit account now with
                    | error _ => rfl
                    | ok change => exact emailLimit_method limit row
                  · exact .refl middle
                split
                · exact .challenged _ _ _ _ _ (quiet.trans reserved)
                · exact .challenged _ _ _ _ _
                    (quiet.trans (reserved.trans (createChallenge_quiet ..)))

/-- A login verification signs in with a verified factor. -/
theorem verifyLogin_effect [DecidableEq Digest] (db : MfaDb Hash Secret Digest)
    (claims : ChallengeClaims) (code : Option Str) : MfaEffect true db (verifyLogin keys now db claims code) := by
  unfold verifyLogin
  split
  · exact .refused db _ (.refl db)
  · refine withAccount_effect db _ _ _ _ _ fun db user account current row => ?_
    split
    · split
      · exact failed_effect ..
      · exact failed_effect ..
      · rename_i proved
        refine .signedIn _ _ user _ (.trans ?_ (MfaDb.quiet_challenges _ _)) current (.inl rfl)
        exact .trans (db.quiet_changeAccount _ (checkFactor_method proved))
          (MfaDb.quiet_changeAccount _ _ fun row => setBudget_method ..)
    · exact .refused db _ (.refl db)

/-- An enrollment that is not confirmed signs nobody in. -/
theorem setup_effect (verified stableKeys emailAvailable validAddress : Bool)
    (db : MfaDb Hash Secret Digest) (token : Claims) (method : Option MfaMethod) (email : Str)
    (password : Password) :
    MfaEffect verified db (setup keys draws now stableKeys emailAvailable validAddress db token
      method email password) := by
  unfold setup
  cases method with
  | none => exact .refused db _ (.refl db)
  | some method =>
      dsimp only
      split
      · exact .refused db _ (.refl db)
      · split
        · exact .refused db _ (.refl db)
        · split
          · exact .refused db _ (.refl db)
          · refine withAccount_effect db _ _ _ _ _ fun db user account current row => ?_
            split
            · exact failed_effect ..
            · split
              · exact .refused db _ (.refl db)
              · split
                · exact .refused db _ (.refl db)
                · rename_i change allowed
                  refine .challenged _ _ _ _ _ (.trans (db.quiet_changeAccount _ ?_)
                    (createChallenge_quiet ..))
                  intro row
                  split at allowed
                  · exact emailLimit_method allowed row
                  · cases allowed
                    rfl

/-- A confirmation rotates the session with a verified factor. -/
theorem confirm_effect [DecidableEq Digest] (db : MfaDb Hash Secret Digest) (token : Claims)
    (claims : ChallengeClaims) (code : Option Str) (transport : Transport) :
    MfaEffect true db (confirm keys draws now db token claims code transport) := by
  unfold confirm
  split
  · exact .refused db _ (.refl db)
  · refine withAccount_effect db _ _ _ _ _ fun db user account current row => ?_
    split
    · dsimp only
      split
      · exact failed_effect ..
      · exact failed_effect ..
      · refine rotateSession_effect transport _ current rfl (fun other different => ?_) (.inl rfl)
        rw [newRecoveryCodes, MfaDb.method_changeAccount_of_ne _ _ different,
          MfaDb.method_changeAccount_of_ne _ _ different,
          MfaDb.method_changeAccount_of_ne _ _ different]
    · exact .refused db _ (.refl db)

/-- A management code signs nobody in. -/
theorem managementEmail_effect (verified emailAvailable : Bool) (db : MfaDb Hash Secret Digest)
    (token : Claims) (password : Password) :
    MfaEffect verified db (managementEmail keys draws now emailAvailable db token password) := by
  unfold managementEmail
  refine withAccount_effect db _ _ _ _ _ fun db user account current row => ?_
  split
  · exact failed_effect ..
  · split
    · exact .refused db _ (.refl db)
    · split
      · exact .refused db _ (.refl db)
      · rename_i change allowed
        exact .challenged _ _ _ _ _ (.trans
          (db.quiet_changeAccount _ (emailLimit_method allowed)) (createChallenge_quiet ..))

/-- New recovery codes and a disabled method rotate the session; only the codes leave a
factor. -/
theorem changeMethod_effect [DecidableEq Digest] (regenerate : Bool)
    (db : MfaDb Hash Secret Digest) (token : Claims) (presented : Option ChallengeClaims) (password : Password) (code : Option Str)
    (transport : Transport) :
    MfaEffect regenerate db (changeMethod keys draws now regenerate db token presented password
      code transport) := by
  unfold changeMethod
  refine withAccount_effect db _ _ _ _ _ fun db user account current row => ?_
  split
  · exact .refused db _ (.refl db)
  · split
    · exact failed_effect ..
    · dsimp only
      split
      · exact failed_effect ..
      · exact failed_effect ..
      · rename_i change proved
        cases regenerate with
        | true =>
            refine rotateSession_effect transport _ current rfl (fun other different => ?_)
              (.inl rfl)
            rw [newRecoveryCodes, MfaDb.method_changeAccount_of_ne _ _ different,
              MfaDb.method_changeAccount_of_ne _ _ different,
              MfaDb.method_changeAccount_of_ne _ _ different]
        | false =>
            refine rotateSession_effect transport _ current rfl (fun other different => ?_)
              (.inr (MfaDb.method_changeAccount_none _ _ fun row => rfl))
            rw [MfaDb.method_changeAccount_of_ne _ _ different,
              MfaDb.method_changeAccount_of_ne _ _ different,
              MfaDb.method_changeAccount_of_ne _ _ different]

/-- A new code signs nobody in. -/
theorem resend_effect (verified emailAvailable : Bool) (db : MfaDb Hash Secret Digest)
    (claims : ChallengeClaims) :
    MfaEffect verified db (resend keys draws now emailAvailable db claims) := by
  unfold resend
  refine withAccount_effect db _ _ _ _ _ fun db user account current row => ?_
  split
  · exact .refused db _ (.refl db)
  · split
    · exact .refused db _ (.refl db)
    · split
      · exact .refused db _ (.refl db)
      · split
        · exact .refused db _ (.refl db)
        · rename_i change allowed
          exact .challenged _ _ _ _ _ (.trans
            (db.quiet_changeAccount _ (emailLimit_method allowed)) (createChallenge_quiet ..))

end Effects

end Operations

namespace MfaDb
variable {Hash Secret Digest : Type}

/-- Every user stays, and a method changes only together with the token version. -/
def Grows (db next : MfaDb Hash Secret Digest) : Prop :=
  ∀ userId current, db.users userId = some current → ∃ later, next.users userId = some later ∧
    (current.tokenVersion < later.tokenVersion ∨
      later.tokenVersion = current.tokenVersion ∧ next.method userId = db.method userId)

theorem Quiet.grows {db next : MfaDb Hash Secret Digest} (quiet : db.Quiet next) :
    db.Grows next := by
  intro userId current stored
  exact ⟨current, by rw [quiet.users, stored], .inr ⟨rfl, quiet.method userId⟩⟩

/-- A version is admitted when it is not new, and, if it is the current one, when it comes with
a second factor or the user has no method. -/
def Admits (db : MfaDb Hash Secret Digest) (userId version : Nat) (verified : Bool) : Prop :=
  ∃ current, db.users userId = some current ∧ version ≤ current.tokenVersion ∧
    (version = current.tokenVersion → verified = true ∨ db.method userId = none)

/-- A version that was admitted stays admitted. -/
theorem Admits.grow {db next : MfaDb Hash Secret Digest} {userId version : Nat}
    {verified : Bool} (admits : db.Admits userId version verified) (grows : db.Grows next) :
    next.Admits userId version verified := by
  obtain ⟨current, stored, past, factor⟩ := admits
  obtain ⟨later, storedLater, newer | ⟨same, method⟩⟩ := grows userId current stored
  · exact ⟨later, storedLater, by omega, fun equal => by omega⟩
  · refine ⟨later, storedLater, by omega, fun equal => ?_⟩
    rw [method]
    exact factor (by omega)

/-- The row of a user is admitted when the user has no method. -/
theorem admits_of_method_none {db : MfaDb Hash Secret Digest} {userId : Nat}
    {user : UserRow Hash} (verified : Bool) (stored : db.users userId = some user)
    (free : verified = true ∨ db.method userId = none) :
    db.Admits userId user.tokenVersion verified :=
  ⟨user, stored, Nat.le_refl _, fun _ => free⟩

end MfaDb

section Growth
variable {Hash Secret Digest : Type}

/-- Every operation keeps the users and admits the version that it signs in. -/
theorem MfaEffect.grows {verified : Bool} {db : MfaDb Hash Secret Digest}
    {outcome : MfaDb Hash Secret Digest × MfaReply Hash} (effect : MfaEffect verified db outcome) :
    db.Grows outcome.1 := by
  cases effect with
  | refused next error quiet => exact quiet.grows
  | challenged next claims method code warning quiet => exact quiet.grows
  | signedIn next userId user transport quiet current factor => exact quiet.grows
  | rotated next userId user transport codes current users others factor =>
      intro other row stored
      by_cases same : other = userId
      · subst same
        cases current.symm.trans stored
        refine ⟨rotateVersion user, ?_, .inl (Nat.lt_succ_self _)⟩
        rw [users, Function.update_self]
      · refine ⟨row, ?_, .inr ⟨rfl, others other same⟩⟩
        rw [users, Function.update_of_ne same, stored]

theorem MfaEffect.admits {verified : Bool} {db next : MfaDb Hash Secret Digest} {userId : Nat}
    {user : UserRow Hash} {transport : Transport} {codes : List Str}
    (effect : MfaEffect verified db (next, .signedIn userId user transport codes)) :
    next.Admits userId user.tokenVersion verified := by
  cases effect with
  | signedIn _ _ _ _ quiet current factor =>
      refine MfaDb.admits_of_method_none verified (quiet.users ▸ current) ?_
      rwa [quiet.method]
  | rotated _ _ _ _ _ current users others factor =>
      refine MfaDb.admits_of_method_none verified ?_ factor
      rw [users, Function.update_self]

/-- An administrator update bumps a version or keeps it, and keeps every method. -/
theorem updateAccount_grows (db : MfaDb Hash Secret Digest) (userId : Nat)
    (change : UserChange Hash) : db.Grows (updateAccount userId change db) := by
  have updated : db.Grows { db with
      users := Function.update db.users userId ((db.users userId).map (updateUser change)) } := by
    intro other row stored
    by_cases same : other = userId
    · subst same
      refine ⟨updateUser change row, by simp [stored], ?_⟩
      rcases Nat.lt_or_eq_of_le (tokenVersion_le_updateUser change row) with newer | equal
      · exact .inl newer
      · exact .inr ⟨equal.symm, rfl⟩
    · exact ⟨row, by simp [Function.update_of_ne same, stored], .inr ⟨rfl, rfl⟩⟩
  unfold updateAccount
  dsimp only
  split
  · have quiet := MfaDb.quiet_changeAccount { db with
      users := Function.update db.users userId ((db.users userId).map (updateUser change)) } userId
      (show ∀ row : MfaAccount Secret Digest,
        ((row.setBudget .login 0 0).setBudget .manage 0 0).method = row.method from
        fun row => (setBudget_method ..).trans (setBudget_method ..))
    intro other row stored
    obtain ⟨later, storedLater, kept⟩ := updated other row stored
    refine ⟨later, quiet.users ▸ storedLater, ?_⟩
    rw [quiet.method]
    exact kept
  · exact updated

end Growth

namespace MfaState
variable {Hash Password Secret Digest : Type}

@[simp] theorem setRequest_self (s : MfaState Hash Secret Digest) (request : Nat)
    (stage : MfaStage Hash) : (s.setRequest request stage).requests request = stage :=
  Function.update_self ..

@[simp] theorem setRequest_of_ne (s : MfaState Hash Secret Digest) {request other : Nat}
    (different : other ≠ request) (stage : MfaStage Hash) :
    (s.setRequest request stage).requests other = s.requests other :=
  Function.update_of_ne different ..

/-- A request is about to issue a token for this user and version. -/
def grant : MfaStage Hash → Option (Nat × Nat × Bool)
  | .reread issuer userId user => some (userId, user.tokenVersion, issuer.secondFactor)
  | .refreshing token user => some (token.claims.sub, user.tokenVersion, token.issuer.secondFactor)
  | .idle | .inserted _ _ | .loggedIn _ _ => none

/-- Every token and every token that a request is about to issue is admitted. -/
structure FactorInvariant (s : MfaState Hash Secret Digest) : Prop where
  tokens : ∀ token ∈ s.issued,
    s.db.Admits token.claims.sub token.claims.ver token.issuer.secondFactor
  granted : ∀ request userId version verified,
    grant (s.requests request) = some (userId, version, verified) →
    s.db.Admits userId version verified

/-- A sign-up reads its row again while the account has no method. -/
def rereadsUnenrolled (s : MfaState Hash Secret Digest) : MfaEvent Hash Password Secret → Bool
  | .readAccount request =>
      match s.requests request with
      | .inserted _ userId => (s.db.method userId).isNone
      | _ => true
  | _ => true

/-- A step that grows the tables and adds only admitted tokens and grants keeps the invariant. -/
theorem FactorInvariant.grow {s next : MfaState Hash Secret Digest} (before : s.FactorInvariant)
    (grows : s.db.Grows next.db)
    (tokens : ∀ token ∈ next.issued, token ∈ s.issued ∨
      next.db.Admits token.claims.sub token.claims.ver token.issuer.secondFactor)
    (granted : ∀ request userId version verified,
      grant (next.requests request) = some (userId, version, verified) →
      grant (s.requests request) = some (userId, version, verified) ∨
        next.db.Admits userId version verified) : next.FactorInvariant := by
  constructor
  · intro token member
    rcases tokens token member with earlier | admitted
    · exact (before.tokens token earlier).grow grows
    · exact admitted
  · intro request userId version verified held
    rcases granted request userId version verified held with earlier | admitted
    · exact (before.granted _ _ _ _ earlier).grow grows
    · exact admitted

/-- A request that moves keeps the grants of the others. -/
theorem grant_setRequest {s : MfaState Hash Secret Digest} {db : MfaDb Hash Secret Digest}
    {request : Nat} {stage : MfaStage Hash}
    (admitted : ∀ userId version verified, grant stage = some (userId, version, verified) →
      db.Admits userId version verified)
    (other userId version : Nat) (verified : Bool)
    (held : grant ((s.setRequest request stage).requests other) = some (userId, version, verified)) :
    grant (s.requests other) = some (userId, version, verified) ∨
      db.Admits userId version verified := by
  by_cases same : other = request
  · subst same
    rw [setRequest_self] at held
    exact .inr (admitted _ _ _ held)
  · rw [setRequest_of_ne s same] at held
    exact .inl held

/-- A settled operation with its effect keeps the invariant. -/
theorem FactorInvariant.settle {config : SessionConfig} {s : MfaState Hash Secret Digest}
    (before : s.FactorInvariant) (issuer : Issuer) (draws : TokenDraws)
    {outcome : MfaDb Hash Secret Digest × MfaReply Hash}
    (effect : MfaEffect issuer.secondFactor s.db outcome) :
    (s.settle config issuer draws outcome).FactorInvariant := by
  refine before.grow effect.grows ?_ (fun _ _ _ _ held => .inl held)
  intro token member
  obtain ⟨next, reply⟩ := outcome
  cases reply with
  | refused error => exact .inl member
  | challenged claims method code warning => exact .inl member
  | signedIn userId user transport codes =>
      rcases List.mem_cons.mp member with rfl | earlier
      · exact .inr effect.admits
      · exact .inl earlier

/-- A sign-up adds a user and changes no factor. -/
theorem FactorInvariant.insertAccount {s : MfaState Hash Secret Digest}
    (before : s.FactorInvariant) (request : Nat) {userId : Nat} (passwordHash : Hash) (role : Role)
    (issuer : Issuer) (free : (s.db.users userId).isNone = true) :
    (s.insertAccount request userId passwordHash role issuer).FactorInvariant := by
  refine before.grow ?_ (fun _ member => .inl member) (grant_setRequest nofun)
  intro other row stored
  have different : other ≠ userId := by
    rintro rfl
    rw [stored] at free
    cases free
  exact ⟨row, (Function.update_of_ne different ..).trans stored, .inr ⟨rfl, rfl⟩⟩

/-- A request that issues its grant keeps the invariant. -/
theorem FactorInvariant.issue {s : MfaState Hash Secret Digest} (before : s.FactorInvariant)
    {request userId version : Nat} {verified : Bool} {token : IssuedToken}
    (granted : grant (s.requests request) = some (userId, version, verified))
    (sub : token.claims.sub = userId) (ver : token.claims.ver = version)
    (factor : token.issuer.secondFactor = verified) :
    FactorInvariant { s.setRequest request .idle with issued := token :: s.issued } := by
  refine before.grow (MfaDb.Quiet.refl s.db).grows ?_ (grant_setRequest nofun)
  rintro other (_ | ⟨_, member⟩)
  · rw [sub, ver, factor]
    exact .inr (before.granted _ _ _ _ granted)
  · exact .inl member

/-- A change of the tables that keeps users, versions and methods keeps the invariant. -/
theorem FactorInvariant.quiet {s : MfaState Hash Secret Digest} (before : s.FactorInvariant)
    {db : MfaDb Hash Secret Digest} (quiet : s.db.Quiet db) :
    FactorInvariant { s with db := db } :=
  before.grow quiet.grows (fun _ member => .inl member) (fun _ _ _ _ held => .inl held)

/-- A request that moves without a grant keeps the invariant. -/
theorem FactorInvariant.move {s : MfaState Hash Secret Digest} (before : s.FactorInvariant)
    (request : Nat) {stage : MfaStage Hash}
    (admitted : ∀ userId version verified, grant stage = some (userId, version, verified) →
      s.db.Admits userId version verified) :
    (s.setRequest request stage).FactorInvariant :=
  before.grow (MfaDb.Quiet.refl s.db).grows (fun _ member => .inl member)
    (grant_setRequest admitted)

variable [Inhabited Secret] [DecidableEq Hash] [DecidableEq Digest]

/-- Each step under the condition keeps the invariant. -/
theorem FactorInvariant.step {config : SessionConfig} {keys : MfaKeys Hash Password Secret Digest}
    {s next : MfaState Hash Secret Digest} {event : MfaEvent Hash Password Secret}
    (before : s.FactorInvariant) (unenrolled : s.rereadsUnenrolled event = true)
    (stepped : step config keys s event = some next) : next.FactorInvariant := by
  cases event with
  | setupFirstAdmin request userId passwordHash =>
      simp only [MfaState.step] at stepped
      split at stepped
      · split at stepped <;> cases stepped
        rename_i free
        exact before.insertAccount request passwordHash .admin .firstSetup free.2
      · cases stepped
  | register request userId passwordHash =>
      simp only [MfaState.step] at stepped
      split at stepped
      · split at stepped <;> cases stepped
        rename_i free
        exact before.insertAccount request passwordHash .user .registration free.2
      · cases stepped
  | readAccount request =>
      simp only [MfaState.step] at stepped
      split at stepped
      · rename_i issuer userId holder
        obtain ⟨user, stored, rfl⟩ := Option.map_eq_some_iff.mp stepped
        simp only [rereadsUnenrolled, holder, Option.isNone_iff_eq_none] at unenrolled
        refine before.move request ?_
        rintro _ _ _ ⟨⟩
        exact MfaDb.admits_of_method_none _ stored (.inr unenrolled)
      · cases stepped
  | issueAccount request token =>
      simp only [MfaState.step] at stepped
      split at stepped <;> cases stepped
      rename_i issuer userId user holder
      exact before.issue (congrArg grant holder) rfl rfl rfl
  | passwordLogin request userId =>
      simp only [MfaState.step] at stepped
      split at stepped
      · obtain ⟨user, _, rfl⟩ := Option.map_eq_some_iff.mp stepped
        exact before.move request nofun
      · cases stepped
  | beginLogin request emailAvailable transport draws now token =>
      simp only [MfaState.step] at stepped
      split at stepped <;> cases stepped
      have moved : (s.setRequest request .idle).FactorInvariant := before.move request nofun
      exact moved.settle .passwordLogin token (beginLogin_effect ..)
  | verifyLogin claims code now token =>
      cases stepped
      exact before.settle .verifyLogin token (verifyLogin_effect ..)
  | setup claims stableKeys emailAvailable validAddress method email password draws now token =>
      simp only [MfaState.step] at stepped
      split at stepped <;> cases stepped
      exact before.settle .passwordLogin token (setup_effect ..)
  | confirm claims challenge code transport draws now token =>
      simp only [MfaState.step] at stepped
      split at stepped <;> cases stepped
      exact before.settle .confirm token (confirm_effect ..)
  | managementEmail claims emailAvailable password draws now token =>
      simp only [MfaState.step] at stepped
      split at stepped <;> cases stepped
      exact before.settle .passwordLogin token (managementEmail_effect ..)
  | changeMethod regenerate claims challenge password code transport draws now token =>
      simp only [MfaState.step] at stepped
      split at stepped <;> cases stepped
      cases regenerate with
      | true => exact before.settle .recovery token (changeMethod_effect _ _ _ true ..)
      | false => exact before.settle .disable token (changeMethod_effect _ _ _ false ..)
  | resend challenge emailAvailable draws now token =>
      cases stepped
      exact before.settle .passwordLogin token (resend_effect ..)
  | forgetUnsentCode challengeId code =>
      cases stepped
      exact before.quiet (MfaDb.quiet_challenges ..)
  | purgeExpiredChallenges now =>
      cases stepped
      exact before.quiet (MfaDb.quiet_challenges ..)
  | revoke key expires =>
      cases stepped
      exact ⟨before.tokens, before.granted⟩
  | readValidity request index =>
      simp only [MfaState.step] at stepped
      split at stepped
      · rename_i token _ presented
        obtain ⟨user, current, rfl⟩ := Option.map_eq_some_iff.mp stepped
        have admitted := before.tokens token (List.mem_of_getElem? presented)
        rw [(currentTokenUser_some current).2] at admitted
        refine before.move request ?_
        rintro _ _ _ ⟨⟩
        exact admitted
      · cases stepped
  | mint request token =>
      simp only [MfaState.step] at stepped
      split at stepped <;> cases stepped
      rename_i presented user holder
      exact before.issue (congrArg grant holder) rfl rfl rfl
  | updateUser userId change =>
      cases stepped
      exact before.grow (updateAccount_grows s.db userId change) (fun _ member => .inl member)
        (fun _ _ _ _ held => .inl held)

end MfaState

section Runs
variable {Hash Password Secret Digest : Type} [Inhabited Secret] [DecidableEq Hash]
  [DecidableEq Digest] {config : SessionConfig} {keys : MfaKeys Hash Password Secret Digest}

/-- In every run whose sign-ups read their rows again before an enrollment, the current tokens
of an account with a second factor come from an operation that verified one. -/
theorem second_factor_not_bypassed {events : List (MfaEvent Hash Password Secret)}
    {s : MfaState Hash Secret Digest}
    (unenrolled : Machine.Meets (MfaState.step config keys)
      (fun s event => s.rereadsUnenrolled event = true) .initial events)
    (reached : Machine.run (MfaState.step config keys) .initial events = some s) :
    ∀ token ∈ s.issued, ∀ user, s.db.users token.claims.sub = some user →
      s.db.method token.claims.sub ≠ none → token.claims.ver = user.tokenVersion →
      token.issuer.secondFactor = true := by
  have start : (MfaState.initial : MfaState Hash Secret Digest).FactorInvariant := ⟨nofun, nofun⟩
  have invariant : s.FactorInvariant :=
    Machine.run_invariant_of_meets MfaState.FactorInvariant
      (fun _ _ _ before unenrolled stepped => before.step unenrolled stepped)
      start unenrolled reached
  intro token member user stored enrolled current
  obtain ⟨row, found, _, factor⟩ := invariant.tokens token member
  cases stored.symm.trans found
  exact (factor current).resolve_right enrolled

/-- The codes of this example are always `123456`. -/
def exampleKeys : MfaKeys Nat Nat Nat (Nat × Str) where
  verifyPassword := fun hash password => hash == password
  totp := fun _ => some fun _ => ofString "123456"
  digestCode := fun challengeId code => (challengeId, code)
  digestRecovery := fun code => (0, code)

/-- The first token of user `1`, from a password login. -/
def passwordToken : Claims := ⟨1, 0, 31, some 30, some 0, 0, 1800⟩

/-- User `1` logs in with a password and enrolls an authenticator. -/
def enrollment : List (MfaEvent Nat Nat Nat) :=
  [.passwordLogin 2 1, .beginLogin 2 false .cookies ⟨0, [], 0, []⟩ 0 ⟨30, 31, 0, 0⟩,
    .setup passwordToken true false true (some .totp) [] 7 ⟨40, [], 9, []⟩ 0 ⟨0, 0, 0, 0⟩,
    .confirm passwordToken ⟨1, 0, 40, .enroll, 0, 600, some .cookies⟩ (some (ofString "123456"))
      .cookies ⟨41, [], 0, [ofString "aa"]⟩ 0 ⟨50, 51, 0, 0⟩]

/-- The first administrator signs up, and user `1` registers. -/
def signUps : List (MfaEvent Nat Nat Nat) :=
  [.setupFirstAdmin 0 0 3, .readAccount 0, .issueAccount 0 ⟨10, 11, 0, 0⟩, .register 1 1 7]

/-- The registration answers before the enrollment. -/
def answeredRegistration : List (MfaEvent Nat Nat Nat) :=
  signUps ++ [.readAccount 1, .issueAccount 1 ⟨20, 21, 0, 0⟩] ++ enrollment

/-- The registration reads its row again after the enrollment. -/
def lateRegistration : List (MfaEvent Nat Nat Nat) :=
  signUps ++ enrollment ++ [.readAccount 1, .issueAccount 1 ⟨20, 21, 0, 0⟩]

/-- These are the versions and issuers of the tokens of user `1`, with the current version. -/
def tokenReport (s : MfaState Nat Nat (Nat × Str)) :
    List (Nat × Issuer) × Option Nat × Option MfaMethod :=
  ((s.issued.filter fun token => token.claims.sub = 1).map fun token =>
    (token.claims.ver, token.issuer),
    (s.db.users 1).map UserRow.tokenVersion, s.db.method 1)

theorem answeredRegistration_run :
    (Machine.run (Machine.restrict (MfaState.step exampleConfig exampleKeys)
      MfaState.rereadsUnenrolled) .initial answeredRegistration).map tokenReport =
        some ([(1, .confirm), (0, .passwordLogin), (0, .registration)], some 1, some .totp) := by
  decide +kernel

theorem second_factor_not_bypassed_example :
    ∃ s, Machine.run (MfaState.step exampleConfig exampleKeys) .initial answeredRegistration =
        some s ∧
      tokenReport s =
        ([(1, .confirm), (0, .passwordLogin), (0, .registration)], some 1, some .totp) ∧
      ∀ token ∈ s.issued, ∀ user, s.db.users token.claims.sub = some user →
        s.db.method token.claims.sub ≠ none → token.claims.ver = user.tokenVersion →
        token.issuer.secondFactor = true := by
  obtain ⟨s, ran, report⟩ := Option.map_eq_some_iff.mp answeredRegistration_run
  obtain ⟨reached, unenrolled⟩ := Machine.run_restrict ran
  exact ⟨s, reached, report, second_factor_not_bypassed unenrolled reached⟩

/-- A current token without a second factor belongs to an account with a method. -/
def bypassed (s : MfaState Nat Nat (Nat × Str)) : Bool :=
  s.issued.any fun token => (s.db.users token.claims.sub).any fun user =>
    s.db.method token.claims.sub ≠ none ∧ token.claims.ver = user.tokenVersion ∧
      token.issuer.secondFactor = false

theorem lateRegistration_run :
    (Machine.run (MfaState.step exampleConfig exampleKeys) .initial lateRegistration).map
      bypassed = some true := by
  decide +kernel

/-- The registration issues a current token for an account with a second factor. -/
theorem lateRegistration_bypasses :
    ∃ s token user, Machine.run (MfaState.step exampleConfig exampleKeys) .initial
        lateRegistration = some s ∧
      token ∈ s.issued ∧ s.db.users token.claims.sub = some user ∧
      s.db.method token.claims.sub ≠ none ∧ token.claims.ver = user.tokenVersion ∧
      token.issuer.secondFactor = false := by
  obtain ⟨s, ran, found⟩ := Option.map_eq_some_iff.mp lateRegistration_run
  simp only [bypassed, List.any_eq_true, Option.any_eq_true, decide_eq_true_eq] at found
  obtain ⟨token, member, user, stored, current⟩ := found
  exact ⟨s, token, user, ran, member, stored, current⟩

end Runs

end SubtitleTranslator.Auth
