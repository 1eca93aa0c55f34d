import SubtitleTranslator.Construction.EmailedCodes
import SubtitleTranslator.Proof.CodeIssues

namespace SubtitleTranslator.Auth
open Library Library.Text

section Codes
variable {Hash Password Secret Digest : Type} [Inhabited Secret]

namespace CodeState
variable [DecidableEq Hash] [DecidableEq Digest] {keys : MfaKeys Hash Password Secret Digest}
  {s next : CodeState Hash Secret Digest}

/-- These are the events that end a sign-in code. -/
inductive Ends (keys : MfaKeys Hash Password Secret Digest) (claims : ChallengeClaims)
    (s : CodeState Hash Secret Digest) : Nat × CodeEvent Hash Password Secret → Prop where
  /-- A successful verification consumes the challenge. -/
  | consumed (now : Nat) (token : ChallengeClaims) (code : Option Str) (named : token.cid = claims.cid)
      (userId : Nat) (user : UserRow Hash) (transport : Transport) (codes : List Str)
      (signedIn : (verifyLogin keys now s.db token code).2 = .signedIn userId user transport codes) :
      Ends keys claims s (now, .operation (.verifyLogin token code))
  /-- The sign-in budget is exhausted by its fifth failure. -/
  | exhausted (now : Nat) (operation : FactorOperation Hash Password Secret)
      (owner : operation.userId = claims.sub) (login : operation.scope = .login)
      (failed : operation.check keys now s.db = some .failed)
      (fifth : 5 ≤ (s.db.row claims.sub).failures + 1) : Ends keys claims s (now, .operation operation)
  /-- A newer sign-in code is made, which the request goes on to send. -/
  | replaced (now : Nat) (operation : FactorOperation Hash Password Secret) (newer : ChallengeClaims)
      (method : MfaMethod) (code : Str) (warning : Option String)
      (issued : (operation.run keys now s.db).2 = .challenged newer method code warning)
      (sent : code ≠ []) (owner : newer.sub = claims.sub) (login : newer.purpose = .login) :
      Ends keys claims s (now, .operation operation)
  | reversioned (event : Nat × CodeEvent Hash Password Secret) (next : CodeState Hash Secret Digest)
      (stepped : step keys s event = some next) (user : UserRow Hash)
      (stored : next.db.users claims.sub = some user) (changed : user.tokenVersion ≠ claims.ver) :
      Ends keys claims s event
  | deactivated (event : Nat × CodeEvent Hash Password Secret) (next : CodeState Hash Secret Digest)
      (stepped : step keys s event = some next) (user : UserRow Hash)
      (stored : next.db.users claims.sub = some user) (inactive : user.active = false) :
      Ends keys claims s event
  | deleted (event : Nat × CodeEvent Hash Password Secret) (next : CodeState Hash Secret Digest)
      (stepped : step keys s event = some next) (missing : next.db.users claims.sub = none) :
      Ends keys claims s event

omit [Inhabited Secret] [DecidableEq Hash] [DecidableEq Digest] in
/-- Fresh draws have a new id and a code of six digits. -/
theorem freshDraws_spec {draws : MfaDraws Secret} (fresh : s.freshDraws draws = true) :
    draws.challengeId ∉ s.usedIds ∧ draws.code ≠ [] ∧ draws.code.length ≤ 64 ∧
      ∀ c ∈ draws.code, isAsciiDigit c = true := by
  rw [freshDraws, Bool.and_eq_true, Bool.and_eq_true, decide_eq_true_eq, decide_eq_true_eq,
    List.all_eq_true] at fresh
  obtain ⟨⟨unused, six⟩, digits⟩ := fresh
  refine ⟨unused, ?_, by omega, digits⟩
  intro empty
  rw [empty] at six
  cases six

/-- A user row stays current, gets a higher version, or is deleted with its challenges. -/
inductive UserMoves (userId : Nat) (user : UserRow Hash) (db : MfaDb Hash Secret Digest) : Prop where
  | kept (later : UserRow Hash) (stored : db.users userId = some later)
      (active : later.active = user.active) (version : later.tokenVersion = user.tokenVersion)
  | bumped (later : UserRow Hash) (stored : db.users userId = some later)
      (higher : user.tokenVersion < later.tokenVersion)
  | deleted (missing : db.users userId = none)
      (rows : ∀ challenge ∈ db.challenges, challenge.userId ≠ userId)

omit [Inhabited Secret] [DecidableEq Digest] in
theorem loginWrite_keeps (row : UserRow Hash) (write : LoginWrite Hash) :
    (write.apply row).active = row.active ∧ (write.apply row).tokenVersion = row.tokenVersion := by
  cases write with
  | reserve observed =>
      rw [LoginWrite.apply, reserveAccountLoginAttempt]
      split <;> exact ⟨rfl, rfl⟩
  | lockExhausted reading =>
      rw [LoginWrite.apply, lockExhaustedAccount]
      split <;> exact ⟨rfl, rfl⟩
  | succeed observed rehashed =>
      rw [LoginWrite.apply, recordSuccessfulLogin]
      split <;> exact ⟨rfl, rfl⟩

omit [Inhabited Secret] [DecidableEq Hash] [DecidableEq Digest] in
/-- A write of one user row moves the rows as it moves that row. -/
theorem userMoves_update {db : MfaDb Hash Secret Digest} {userId : Nat} {user : UserRow Hash}
    (other : Nat) (found : db.users userId = some user) {users : Nat → Option (UserRow Hash)}
    (write : UserRow Hash → UserRow Hash)
    (moves : (write user).active = user.active ∧ (write user).tokenVersion = user.tokenVersion ∨
      user.tokenVersion < (write user).tokenVersion)
    (written : users = Function.update db.users other ((db.users other).map write))
    (after : MfaDb Hash Secret Digest) (same : after.users = users) : UserMoves userId user after := by
  by_cases here : userId = other
  · subst here
    have stored : after.users userId = some (write user) := by
      rw [same, written, Function.update_self, found]
      rfl
    rcases moves with ⟨active, version⟩ | higher
    · exact .kept _ stored active version
    · exact .bumped _ stored higher
  · refine .kept user ?_ rfl rfl
    rw [same, written, Function.update_of_ne here, found]

/-- These are the moves of the step function at a time. -/
inductive Moves (keys : MfaKeys Hash Password Secret Digest) (s : CodeState Hash Secret Digest)
    (now : Nat) : CodeEvent Hash Password Secret → CodeState Hash Secret Digest → Prop where
  | operation (operation : FactorOperation Hash Password Secret)
      (fresh : ∀ draws ∈ operation.draws?, s.freshDraws draws = true) :
      Moves keys s now (.operation operation)
        ⟨(operation.run keys now s.db).1, now,
          (operation.draws?.map MfaDraws.challengeId).toList ++ s.usedIds,
          (operation.run keys now s.db).2.emailed.toList ++ s.pending⟩
  | delivered (challengeId : Nat) (code : Str) (waiting : (challengeId, code) ∈ s.pending) :
      Moves keys s now (.delivered challengeId code) { s.settle challengeId with now := now }
  | undelivered (challengeId : Nat) (code : Str) (forgotten : Bool)
      (waiting : (challengeId, code) ∈ s.pending) :
      Moves keys s now (.undelivered challengeId code forgotten)
        { s.settle challengeId with
          now := now
          db := if forgotten then forgetUnsentCode keys challengeId code s.db else s.db }
  | purge (selected : List Nat) :
      Moves keys s now (.purgeExpiredChallenges selected)
        { s with db := purgeSelected now selected s.db, now := now }
  | passwordLogin (userId : Nat) (write : LoginWrite Hash) :
      Moves keys s now (.passwordLogin userId write)
        { s with
          db := { s.db with
            users := Function.update s.db.users userId ((s.db.users userId).map (write.apply ·)) }
          now := now }
  | updateUser (userId : Nat) (change : UserChange Hash) :
      Moves keys s now (.updateUser userId change)
        { s with db := updateAccount userId change s.db, now := now }
  | insertUser (userId : Nat) (passwordHash : Hash) (role : Role)
      (free : s.db.users userId = none) :
      Moves keys s now (.insertUser userId passwordHash role)
        { s with
          db := { s.db with
            users := Function.update s.db.users userId (some (insertUser passwordHash role)) }
          now := now }
  | deleteUser (userId : Nat) :
      Moves keys s now (.deleteUser userId) { s with db := Auth.deleteUser userId s.db, now := now }

theorem step_cases {now : Nat} {event : CodeEvent Hash Password Secret}
    (stepped : step keys s (now, event) = some next) :
    s.now ≤ now ∧ Moves keys s now event next := by
  unfold step at stepped
  dsimp only at stepped
  split at stepped
  · cases stepped
  · next later =>
      refine ⟨Nat.le_of_not_lt later, ?_⟩
      cases event with
      | operation operation =>
          dsimp only at stepped
          split at stepped
          · next fresh =>
              cases stepped
              exact .operation operation fun draws drawn => by
                rw [Option.mem_def.mp drawn] at fresh
                exact fresh
          · cases stepped
      | delivered challengeId code =>
          dsimp only at stepped
          split at stepped
          · next waiting =>
              cases stepped
              exact .delivered challengeId code waiting
          · cases stepped
      | undelivered challengeId code forgotten =>
          dsimp only at stepped
          split at stepped
          · next waiting =>
              cases stepped
              exact .undelivered challengeId code forgotten waiting
          · cases stepped
      | purgeExpiredChallenges selected =>
          cases stepped
          exact .purge selected
      | passwordLogin userId write =>
          cases stepped
          exact .passwordLogin userId write
      | updateUser userId change =>
          cases stepped
          exact .updateUser userId change
      | insertUser userId passwordHash role =>
          dsimp only at stepped
          split at stepped
          · next free =>
              cases stepped
              exact .insertUser userId passwordHash role (Option.isNone_iff_eq_none.mp free)
          · cases stepped
      | deleteUser userId =>
          cases stepped
          exact .deleteUser userId

theorem Moves.user {now userId : Nat} {event : CodeEvent Hash Password Secret} {user : UserRow Hash}
    (found : s.db.users userId = some user) (moves : Moves keys s now event next) :
    UserMoves userId user next.db := by
  have unmoved (db : MfaDb Hash Secret Digest) (same : db.users = s.db.users) :
      UserMoves userId user db := .kept user (by rw [same, found]) rfl rfl
  cases moves with
  | operation operation fresh =>
      rcases operation.users_run keys now s.db with
        same | ⟨other, row, current, users, _⟩
      · exact unmoved _ same
      · refine userMoves_update other found rotateVersion (.inr (Nat.lt_succ_self _)) ?_ _ users
        rw [current]
        rfl
  | delivered challengeId code waiting => exact unmoved _ rfl
  | undelivered challengeId code forgotten waiting =>
      refine unmoved _ ?_
      dsimp only
      split <;> rfl
  | purge selected => exact unmoved _ rfl
  | passwordLogin other write =>
      exact userMoves_update other found (write.apply ·) (.inl (loginWrite_keeps user write)) rfl _ rfl
  | updateUser other change =>
      refine userMoves_update other found (Auth.updateUser change) ?_ rfl _ ?_
      · rw [Auth.updateUser]
        by_cases changed : change.role.isSome ∨ change.active.isSome ∨ change.passwordHash.isSome
        · rw [if_pos changed]
          exact .inr (Nat.lt_succ_self _)
        · rw [if_neg changed]
          refine .inl ⟨?_, rfl⟩
          have same : change.active = none := by
            rw [← Option.not_isSome_iff_eq_none]
            exact fun given => changed (.inr (.inl given))
          rw [same]
          rfl
      · rw [updateAccount]
        dsimp only
        split <;> rfl
  | insertUser other passwordHash role free =>
      refine .kept user ?_ rfl rfl
      have different : userId ≠ other := by
        rintro rfl
        rw [found] at free
        cases free
      exact (Function.update_of_ne different ..).trans found
  | deleteUser other =>
      by_cases here : userId = other
      · subst here
        refine .deleted (Function.update_self ..) fun challenge member => ?_
        have left := List.of_mem_filter member
        rwa [decide_eq_true_eq] at left
      · exact .kept user ((Function.update_of_ne here ..).trans found) rfl rfl

/-- A challenge after a step is an old one, with its code unless the code is forgotten in this step,
or a new one. -/
theorem Moves.challenges {now : Nat} {event : CodeEvent Hash Password Secret}
    {later : Challenge Secret Digest} (moves : Moves keys s now event next)
    (member : later ∈ next.db.challenges) :
    (∃ earlier ∈ s.db.challenges, earlier.id = later.id ∧ earlier.userId = later.userId ∧
      ((∀ code forgotten, event ≠ .undelivered later.id code forgotten) → earlier = later)) ∨
      later.id ∉ s.usedIds ∧ later.id ∈ next.usedIds := by
  have unmoved (kept : later ∈ s.db.challenges) : (∃ earlier ∈ s.db.challenges,
      earlier.id = later.id ∧ earlier.userId = later.userId ∧
        ((∀ code forgotten, event ≠ .undelivered later.id code forgotten) → earlier = later)) ∨
      later.id ∉ s.usedIds ∧ later.id ∈ next.usedIds :=
    .inl ⟨later, kept, rfl, rfl, fun _ => rfl⟩
  cases moves with
  | operation operation fresh =>
      rcases operation.challenges_run member with kept | ⟨draws, drawn, same⟩
      · exact unmoved kept
      · rw [same]
        refine .inr ⟨(freshDraws_spec (fresh draws drawn)).1, List.mem_append_left _ ?_⟩
        rw [Option.mem_def.mp drawn]
        exact List.mem_singleton_self _
  | delivered challengeId code waiting => exact unmoved member
  | undelivered challengeId code forgotten waiting =>
      dsimp only at member
      split at member
      · obtain ⟨earlier, before, rfl⟩ := List.mem_map.mp member
        refine .inl ⟨earlier, before, ?_, ?_, fun other => ?_⟩
        · split <;> rfl
        · split <;> rfl
        · by_cases forgets : earlier.id = challengeId ∧
              earlier.codeHash = some (keys.digestCode challengeId code)
          · rw [if_pos forgets] at other
            exact absurd rfl (forgets.1 ▸ other code forgotten)
          · rw [if_neg forgets]
      · exact unmoved member
  | purge selected => exact unmoved (List.mem_of_mem_filter member)
  | passwordLogin userId write => exact unmoved member
  | updateUser userId change =>
      refine unmoved ?_
      rw [updateAccount] at member
      dsimp only at member
      split at member <;> exact member
  | insertUser userId passwordHash role free => exact unmoved member
  | deleteUser userId => exact unmoved (List.mem_of_mem_filter member)

theorem Moves.now {time : Nat} {event : CodeEvent Hash Password Secret}
    (moves : Moves keys s time event next) : next.now = time := by
  cases moves <;> rfl

theorem Moves.usedIds {now : Nat} {event : CodeEvent Hash Password Secret}
    (moves : Moves keys s now event next) : s.usedIds ⊆ next.usedIds := by
  cases moves with
  | operation operation fresh => exact List.subset_append_right _ _
  | delivered | undelivered | purge | passwordLogin | updateUser | insertUser | deleteUser =>
      exact List.Subset.refl _

/-- A challenge with an id that was drawn before is an old one. -/
theorem Moves.old_challenge {now : Nat} {event : CodeEvent Hash Password Secret} {id : Nat}
    {later : Challenge Secret Digest} (moves : Moves keys s now event next)
    (member : later ∈ next.db.challenges) (named : later.id = id) (old : id ∈ s.usedIds) :
    ∃ earlier ∈ s.db.challenges, earlier.id = id ∧ earlier.userId = later.userId ∧
      ((∀ code forgotten, event ≠ .undelivered id code forgotten) → earlier = later) := by
  subst named
  rcases moves.challenges member with kept | ⟨new, _⟩
  · exact kept
  · exact absurd old new

omit [Inhabited Secret] [DecidableEq Hash] [DecidableEq Digest] in
/-- These are the columns of a sign-in challenge with an emailed code. -/
structure Carries (keys : MfaKeys Hash Password Secret Digest) (claims : ChallengeClaims) (code : Str)
    (challenge : Challenge Secret Digest) : Prop where
  owner : challenge.userId = claims.sub
  version : challenge.version = claims.ver
  expires : challenge.expires = claims.exp
  login : challenge.purpose = .login
  method : challenge.method = .email
  code : challenge.codeHash = some (keys.digestCode claims.cid code)

/-- An emailed code is accepted until it expires. -/
structure Live (keys : MfaKeys Hash Password Secret Digest) (claims : ChallengeClaims) (code : Str)
    (s : CodeState Hash Secret Digest) : Prop where
  used : claims.cid ∈ s.usedIds
  stored : ∃ challenge ∈ s.db.challenges, challenge.id = claims.cid
  only : ∀ challenge ∈ s.db.challenges, challenge.id = claims.cid → Carries keys claims code challenge
  current : ∃ user, s.db.users claims.sub = some user ∧ user.active = true ∧
    user.tokenVersion = claims.ver
  email : (s.db.row claims.sub).method = some .email
  unlocked : (s.db.row claims.sub).lockedUntil ≤ s.now

/-- An emailed code is never accepted again. -/
structure Spent (claims : ChallengeClaims) (s : CodeState Hash Secret Digest) : Prop where
  used : claims.cid ∈ s.usedIds
  owner : ∀ challenge ∈ s.db.challenges, challenge.id = claims.cid → challenge.userId = claims.sub
  spent : (∀ challenge ∈ s.db.challenges, challenge.id ≠ claims.cid) ∨
    ∃ user, s.db.users claims.sub = some user ∧ claims.ver < user.tokenVersion

section LiveStep
variable {claims : ChallengeClaims} {code : Str} {now : Nat}
  {operation : FactorOperation Hash Password Secret}

/-- An accepted change of the factors ends the codes of its user. -/
theorem Live.not_rotated (live : Live keys claims code s)
    (stepped : step keys s (now, .operation operation) = some next)
    (kept : ¬Ends keys claims s (now, .operation operation)) (proof : FactorProof Secret Digest)
    (passed : operation.check keys now s.db = some (.passed proof))
    (manage : operation.scope = .manage)
    (accepted : ∀ error, (operation.run keys now s.db).2 ≠ .refused error) :
    operation.userId ≠ claims.sub := by
  intro owner
  obtain ⟨user, found, active, version⟩ := live.current
  have moved := (step_cases stepped).2
  have rotates : Rotates s.db operation.userId (operation.run keys now s.db) := by
    rcases FactorOperation.passed_cases passed with ⟨token, submitted, rfl⟩ | ⟨_, rotates⟩
    · cases manage
    · exact rotates
  generalize outcome : operation.run keys now s.db = result at rotates accepted
  cases rotates with
  | refused after reply error refuses => exact accepted error refuses
  | rotated after row transport codes current users =>
      cases moved
      rw [owner, found] at current
      cases current
      refine kept (.reversioned _ _ stepped (rotateVersion user) ?_ ?_)
      · show (operation.run keys now s.db).1.users claims.sub = _
        rw [outcome]
        show after.users claims.sub = _
        rw [users, owner, Function.update_self]
      · rw [rotateVersion, version]
        exact Nat.succ_ne_self _

/-- The challenge of a live code stays through an operation that does not end the code. -/
theorem Live.stored_run (live : Live keys claims code s) (unexpired : now < claims.exp)
    (fresh : ∀ draws ∈ operation.draws?, s.freshDraws draws = true)
    (stepped : step keys s (now, .operation operation) = some next)
    (kept : ¬Ends keys claims s (now, .operation operation)) :
    ∃ challenge ∈ (operation.run keys now s.db).1.challenges, challenge.id = claims.cid := by
  obtain ⟨challenge, stored, named⟩ := live.stored
  obtain ⟨user, found, active, version⟩ := live.current
  have carries := live.only challenge stored named
  refine ⟨challenge, ?_, named⟩
  have effect := operation.effect keys now s.db
  have issues := FactorOperation.issues keys now s.db fun draws drawn => (freshDraws_spec (fresh draws drawn)).2.1
  have rotates := live.not_rotated stepped kept
  have others (left : List (Challenge Secret Digest))
      (removed : left = s.db.challenges.filter fun other => other.userId ≠ operation.userId)
      (other : operation.userId ≠ claims.sub) : challenge ∈ left := by
    rw [removed, List.mem_filter, decide_eq_true_eq, carries.owner]
    exact ⟨stored, other.symm⟩
  generalize outcome : operation.run keys now s.db = result at effect issues rotates ⊢
  generalize checked : operation.check keys now s.db = verdict at effect rotates
  generalize operation.consequences keys = entries at effect
  cases effect with
  | unchanged after reply row same =>
      dsimp only
      rw [same]
      exact stored
  | challenged after issued method sent warning draws drawn row keeps rows new owner id secret replaced =>
      rcases issues with never | ⟨draws, drawn, issues⟩
      · exact absurd rfl (never _ _ _ _)
      · cases issues with
        | reissued _ _ _ _ same =>
            dsimp only
            rw [same]
            exact stored
        | created _ row new _ _ _ current isActive owner ver id replaced carried free unsent =>
            dsimp only
            rw [replaced]
            refine mem_replaceChallenge stored (carries.expires ▸ unexpired) ?_
            intro sameOwner samePurpose
            rw [owner, carries.owner] at sameOwner
            rw [carries.login] at samePurpose
            by_cases silent : sent = []
            · rw [← sameOwner] at current unsent
              cases found.symm.trans current
              have ended := unsent silent samePurpose.symm live.email challenge stored carries.owner
                (carries.version.trans version.symm) carries.login carries.method
              rw [carries.expires] at ended
              exact absurd unexpired (Nat.not_lt.mpr ended)
            · exact kept (.replaced now operation _ method sent warning (by rw [outcome]) silent
                sameOwner.symm samePurpose.symm)
  | failed after error unlocked row revoked =>
      dsimp only
      rw [revoked]
      refine mem_spendChallenges stored carries.login ?_
      intro login owner fifth
      rw [carries.owner] at owner
      rw [← owner] at fifth
      exact kept (.exhausted now operation owner.symm login checked fifth)
  | verified after row transport login unlocked removedChallenge inStore proof accepts rows removed =>
      rcases FactorOperation.passed_cases checked with ⟨token, submitted, rfl⟩ | ⟨manage, _⟩
      · rcases verifyLogin_removes keys now s.db token submitted with ⟨error, refuses⟩ | ⟨_, left⟩
        · rw [show verifyLogin keys now s.db token submitted = _ from outcome] at refuses
          cases refuses
        · rw [show verifyLogin keys now s.db token submitted = _ from outcome] at left
          dsimp only at left ⊢
          rw [left, List.mem_filter, decide_eq_true_eq]
          refine ⟨stored, fun same => ?_⟩
          refine kept (.consumed now token submitted (same.symm.trans named) token.sub row transport [] ?_)
          exact congrArg Prod.snd outcome
      · rw [manage] at login
        cases login
  | enrolled after reply accepted manage unlocked draws drawn old inStore owner purpose proof step
      enrolls row removed => exact others _ removed (rotates proof rfl manage accepted)
  | regenerated after reply accepted manage unlocked draws drawn old inStore proof accepts row removed =>
      exact others _ removed (rotates proof rfl manage accepted)
  | disabled after reply accepted manage unlocked old inStore proof accepts row removed =>
      exact others _ removed (rotates proof rfl manage accepted)

/-- The account of a live code stays open through an operation that does not end the code. -/
theorem Live.row_run (live : Live keys claims code s) (later : s.now ≤ now)
    (stepped : step keys s (now, .operation operation) = some next)
    (kept : ¬Ends keys claims s (now, .operation operation)) :
    ((operation.run keys now s.db).1.row claims.sub).method = some .email ∧
      ((operation.run keys now s.db).1.row claims.sub).lockedUntil ≤ now := by
  have effect := operation.effect keys now s.db
  have rotates := live.not_rotated stepped kept
  have unlocked : (s.db.row claims.sub).lockedUntil ≤ now := live.unlocked.trans later
  -- The row of the code is the written one or an old one.
  have updated (row : MfaAccount Secret Digest)
      (written : operation.userId = claims.sub → row.method = some .email ∧ row.lockedUntil ≤ now) :
      (Function.update s.db.row operation.userId row claims.sub).method = some .email ∧
        (Function.update s.db.row operation.userId row claims.sub).lockedUntil ≤ now := by
    by_cases owner : operation.userId = claims.sub
    · rw [← owner, Function.update_self]
      exact written owner
    · rw [Function.update_of_ne fun same => owner same.symm]
      exact ⟨live.email, unlocked⟩
  generalize outcome : operation.run keys now s.db = result at effect rotates ⊢
  generalize checked : operation.check keys now s.db = verdict at effect rotates
  generalize operation.consequences keys = entries at effect
  cases effect with
  | unchanged after reply row same =>
      dsimp only
      rw [row]
      exact ⟨live.email, unlocked⟩
  | challenged after issued method sent warning draws drawn row keeps rows =>
      dsimp only
      rw [rows]
      refine updated row fun owner => ⟨?_, ?_⟩
      · rw [keeps.method, owner, live.email]
      · have same : row.lockedUntil = _ := keeps.lockedUntil .login
        rw [same, owner]
        exact unlocked
  | failed after error free row revoked =>
      dsimp only
      rw [row]
      refine updated _ fun owner => ⟨?_, ?_⟩
      · rw [spend_method, owner, live.email]
      · rw [owner]
        refine spend_unlocked unlocked fun login fifth => ?_
        exact kept (.exhausted now operation owner login checked fifth)
  | verified after user transport login free challenge stored proof accepts row removed =>
      dsimp only
      rw [row]
      refine updated _ fun owner => ⟨?_, Nat.zero_le _⟩
      rw [setBudget_method, owner]
      cases proof <;> exact live.email
  | enrolled after reply accepted manage free draws drawn old inStore owner purpose proof step enrolls row =>
      dsimp only
      rw [row]
      exact updated _ fun owner => absurd owner (rotates proof rfl manage accepted)
  | regenerated after reply accepted manage free draws drawn old inStore proof accepts row =>
      dsimp only
      rw [row]
      exact updated _ fun owner => absurd owner (rotates proof rfl manage accepted)
  | disabled after reply accepted manage free old inStore proof accepts row =>
      dsimp only
      rw [row]
      exact updated _ fun owner => absurd owner (rotates proof rfl manage accepted)

/-- A live code stays live through a step that neither ends it nor forgets it. -/
theorem Live.step {event : CodeEvent Hash Password Secret} (live : Live keys claims code s)
    (unexpired : now < claims.exp) (stepped : step keys s (now, event) = some next)
    (delivered : ∀ sent forgotten, event ≠ .undelivered claims.cid sent forgotten)
    (kept : ¬Ends keys claims s (now, event)) : Live keys claims code next := by
  obtain ⟨later, moves⟩ := step_cases stepped
  obtain ⟨challenge, stored, named⟩ := live.stored
  have carries := live.only challenge stored named
  have current : ∃ user, next.db.users claims.sub = some user ∧ user.active = true ∧
      user.tokenVersion = claims.ver := by
    cases found : next.db.users claims.sub with
    | none => exact absurd (.deleted _ next stepped found) kept
    | some user =>
        refine ⟨user, rfl, ?_, ?_⟩
        · by_contra inactive
          exact kept (.deactivated _ next stepped user found (by simpa using inactive))
        · by_contra changed
          exact kept (.reversioned _ next stepped user found changed)
  have only : ∀ challenge ∈ next.db.challenges, challenge.id = claims.cid →
      Carries keys claims code challenge := by
    intro other member same
    obtain ⟨earlier, before, sameId, _, unchanged⟩ := moves.old_challenge member same live.used
    rw [← unchanged delivered]
    exact live.only earlier before sameId
  have unmoved (db : MfaDb Hash Secret Digest) (same : db = next.db)
      (stored : ∃ challenge ∈ db.challenges, challenge.id = claims.cid)
      (row : db.row claims.sub = s.db.row claims.sub) (time : now = next.now) :
      Live keys claims code next := by
    subst same time
    refine ⟨moves.usedIds live.used, stored, only, current, ?_, ?_⟩
    · rw [row, live.email]
    · rw [row]
      exact live.unlocked.trans later
  cases moves with
  | operation operation fresh =>
      obtain ⟨email, unlocked⟩ := live.row_run later stepped kept
      exact ⟨List.mem_append_right _ live.used, live.stored_run unexpired fresh stepped kept, only,
        current, email, unlocked⟩
  | delivered challengeId sent waiting => exact unmoved _ rfl live.stored rfl rfl
  | undelivered challengeId sent forgotten waiting =>
      have different : challenge.id ≠ challengeId := by
        rintro rfl
        exact delivered sent forgotten (by rw [named])
      refine unmoved _ rfl ?_ ?_ rfl
      · dsimp only
        split
        · refine ⟨challenge, List.mem_map.mpr ⟨challenge, stored, ?_⟩, named⟩
          exact if_neg fun both => different both.1
        · exact live.stored
      · dsimp only
        split <;> rfl
  | purge selected =>
      refine unmoved _ rfl ⟨challenge, List.mem_filter.mpr ⟨stored, decide_eq_true ?_⟩, named⟩ rfl rfl
      rintro ⟨_, expired⟩
      rw [carries.expires] at expired
      exact absurd unexpired (Nat.not_lt.mpr expired)
  | passwordLogin userId write => exact unmoved _ rfl live.stored rfl rfl
  | updateUser userId change =>
      obtain ⟨challenges, method, lockedUntil⟩ := updateAccount_keeps userId change s.db claims.sub
      refine ⟨live.used, ?_, only, current, ?_, ?_⟩
      · show ∃ challenge ∈ (updateAccount userId change s.db).challenges, challenge.id = claims.cid
        rw [challenges]
        exact live.stored
      · exact method.trans live.email
      · exact lockedUntil.trans (live.unlocked.trans later)
  | insertUser userId passwordHash role free => exact unmoved _ rfl live.stored rfl rfl
  | deleteUser userId =>
      have other : claims.sub ≠ userId := by
        rintro rfl
        obtain ⟨user, found, _⟩ := current
        change Function.update s.db.users claims.sub none claims.sub = some user at found
        rw [Function.update_self] at found
        cases found
      refine unmoved _ rfl ⟨challenge, List.mem_filter.mpr ⟨stored, ?_⟩, named⟩ ?_ rfl
      · rw [decide_eq_true_eq, carries.owner]
        exact other
      · show (Function.update s.db.accounts userId none claims.sub).getD .empty = _
        rw [Function.update_of_ne other]
        rfl

/-- A spent code stays spent. -/
theorem Spent.step {event : CodeEvent Hash Password Secret} (spent : Spent claims s)
    (stepped : CodeState.step keys s (now, event) = some next) : Spent claims next := by
  obtain ⟨_, moves⟩ := step_cases stepped
  refine ⟨moves.usedIds spent.used, ?_, ?_⟩
  · intro challenge member same
    obtain ⟨old, before, named, owner, _⟩ := moves.old_challenge member same spent.used
    rw [← owner]
    exact spent.owner old before named
  · rcases spent.spent with gone | ⟨user, found, higher⟩
    · refine .inl fun challenge member same => ?_
      obtain ⟨old, before, named, _⟩ := moves.old_challenge member same spent.used
      exact gone old before named
    · cases moves.user found with
      | kept later stored active version => exact .inr ⟨later, stored, version ▸ higher⟩
      | bumped later stored rises => exact .inr ⟨later, stored, higher.trans rises⟩
      | deleted missing rows =>
          refine .inl fun challenge member same => ?_
          obtain ⟨old, before, named, owner, _⟩ := moves.old_challenge member same spent.used
          exact rows challenge member (owner.symm.trans (spent.owner old before named))

/-- The challenges with the id of a live code keep its owner. -/
theorem Live.owner_after {event : CodeEvent Hash Password Secret} (live : Live keys claims code s)
    (moves : Moves keys s now event next) {challenge : Challenge Secret Digest}
    (member : challenge ∈ next.db.challenges) (same : challenge.id = claims.cid) :
    challenge.userId = claims.sub := by
  obtain ⟨old, before, named, owner, _⟩ := moves.old_challenge member same live.used
  rw [← owner]
  exact (live.only old before named).owner

/-- A code without its challenge is spent. -/
theorem Live.spent_of_gone {event : CodeEvent Hash Password Secret} (live : Live keys claims code s)
    (moves : Moves keys s now event next)
    (gone : ∀ challenge ∈ next.db.challenges, challenge.id ≠ claims.cid) : Spent claims next where
  used := moves.usedIds live.used
  owner := fun _ member same => live.owner_after moves member same
  spent := .inl gone

/-- A code whose user is deleted, deactivated or has a new version is spent. -/
theorem Live.spent_of_changed {event : CodeEvent Hash Password Secret}
    (live : Live keys claims code s) (moves : Moves keys s now event next)
    (changed : ∀ later, next.db.users claims.sub = some later →
      ¬(later.active = true ∧ later.tokenVersion = claims.ver)) : Spent claims next := by
  obtain ⟨user, found, active, version⟩ := live.current
  refine ⟨moves.usedIds live.used, fun _ member same => live.owner_after moves member same, ?_⟩
  cases moves.user found with
  | kept later stored sameActive sameVersion =>
      exact absurd ⟨sameActive.trans active, sameVersion.trans version⟩ (changed later stored)
  | bumped later stored higher => exact .inr ⟨later, stored, version ▸ higher⟩
  | deleted missing rows =>
      exact .inl fun challenge member same =>
        rows challenge member (live.owner_after moves member same)

/-- The fifth failure of a sign-in in a row deletes the challenge of a live code. -/
theorem Live.gone_of_exhausted (live : Live keys claims code s)
    (owner : operation.userId = claims.sub) (login : operation.scope = .login)
    (failed : operation.check keys now s.db = some .failed)
    (fifth : 5 ≤ (s.db.row claims.sub).scopeFailures .login + 1) :
    ∀ challenge ∈ (operation.run keys now s.db).1.challenges, challenge.id ≠ claims.cid := by
  intro challenge member same
  have effect := operation.effect keys now s.db
  generalize operation.run keys now s.db = outcome at effect member
  generalize operation.consequences keys = entries at effect
  rw [failed] at effect
  cases effect with
  | failed after error unlocked row revoked =>
      rw [login, owner] at revoked
      rw [revoked, spendChallenges, if_pos fifth, List.mem_filter, decide_eq_true_eq] at member
      have carries := live.only challenge member.1 same
      exact member.2 ⟨carries.owner, by rw [carries.login]; rfl⟩

/-- A newer sign-in code deletes the challenge of a live code. -/
theorem Live.gone_of_replaced {newer : ChallengeClaims} {method : MfaMethod} {sent : Str}
    {warning : Option String} (live : Live keys claims code s)
    (fresh : ∀ draws ∈ operation.draws?, s.freshDraws draws = true)
    (issued : (operation.run keys now s.db).2 = .challenged newer method sent warning)
    (nonempty : sent ≠ []) (owner : newer.sub = claims.sub) (login : newer.purpose = .login) :
    ∀ challenge ∈ (operation.run keys now s.db).1.challenges, challenge.id ≠ claims.cid := by
  intro challenge member same
  have issues := FactorOperation.issues keys now s.db fun draws drawn =>
    (freshDraws_spec (fresh draws drawn)).2.1
  generalize operation.run keys now s.db = outcome at issues member issued
  rcases issues with never | ⟨draws, drawn, issues⟩
  · exact never _ _ _ _ issued
  · cases issues with
    | refused after error => cases issued
    | signedIn after user transport codes => cases issued
    | reissued after claims method warning same =>
        cases issued
        exact nonempty rfl
    | created after user new method code warning found active newOwner version id replaced =>
        cases issued
        rw [replaced, replaceChallenge, List.mem_cons, List.mem_filter, decide_eq_true_eq] at member
        rcases member with rfl | ⟨before, kept⟩
        · rw [same] at id
          exact (freshDraws_spec (fresh draws drawn)).1 (id ▸ live.used)
        · have carries := live.only challenge before same
          exact kept ⟨carries.owner.trans (owner.symm.trans newOwner.symm),
            .inl (carries.login.trans login.symm)⟩

/-- An event that ends a live code spends it. -/
theorem Live.ends {event : Nat × CodeEvent Hash Password Secret} (live : Live keys claims code s)
    (stepped : CodeState.step keys s event = some next) (ended : Ends keys claims s event) :
    Spent claims next := by
  obtain ⟨now, event⟩ := event
  obtain ⟨_, moves⟩ := step_cases stepped
  cases ended with
  | reversioned _ after stepped' later stored changed =>
      cases stepped.symm.trans stepped'
      refine live.spent_of_changed moves fun other found both => changed ?_
      cases stored.symm.trans found
      exact both.2
  | deactivated _ after stepped' later stored inactive =>
      cases stepped.symm.trans stepped'
      refine live.spent_of_changed moves fun other found both => ?_
      cases stored.symm.trans found
      rw [inactive] at both
      cases both.1
  | deleted _ after stepped' missing =>
      cases stepped.symm.trans stepped'
      refine live.spent_of_changed moves fun other found _ => ?_
      cases missing.symm.trans found
  | consumed _ token submitted named userId row transport codes signedIn =>
      apply live.spent_of_gone moves
      cases moves with
      | operation operation fresh =>
          intro challenge member
          change challenge ∈ (verifyLogin keys now s.db token submitted).1.challenges at member
          rcases verifyLogin_removes keys now s.db token submitted with ⟨error, refuses⟩ | ⟨_, left⟩
          · rw [refuses] at signedIn
            cases signedIn
          · rw [left, List.mem_filter, decide_eq_true_eq, named] at member
            exact member.2
  | exhausted _ operation owner login failed fifth =>
      apply live.spent_of_gone moves
      cases moves with
      | operation _ fresh => exact live.gone_of_exhausted owner login failed fifth
  | replaced _ operation newer method sent warning issued nonempty owner login =>
      apply live.spent_of_gone moves
      cases moves with
      | operation _ fresh => exact live.gone_of_replaced fresh issued nonempty owner login

/-- A sent sign-in code is live. -/
theorem live_of_sent {method : MfaMethod} {warning : Option String}
    (used : ∀ challenge ∈ s.db.challenges, challenge.id ∈ s.usedIds)
    (sent : CodeState.step keys s (now, .operation operation) = some next)
    (reply : (operation.run keys now s.db).2 = .challenged claims method code warning)
    (coded : code ≠ []) (login : claims.purpose = .login)
    (enrolled : s.db.method claims.sub = some .email) :
    Live keys claims code next ∧ code.length ≤ 64 ∧ ∀ c ∈ code, isAsciiDigit c = true := by
  obtain ⟨later, moves⟩ := step_cases sent
  cases moves with
  | operation _ fresh =>
      have issues := FactorOperation.issues keys now s.db fun draws drawn =>
        (freshDraws_spec (fresh draws drawn)).2.1
      have users := operation.users_run keys now s.db
      obtain ⟨method, lockedUntil⟩ := FactorOperation.row_of_asks reply claims.sub
      generalize operation.run keys now s.db = outcome at issues users reply method lockedUntil ⊢
      rcases issues with never | ⟨draws, drawn, issues⟩
      · exact absurd reply (never _ _ _ _)
      · cases issues with
        | refused after error => cases reply
        | signedIn after user transport codes => cases reply
        | reissued after other method warning same =>
            cases reply
            exact absurd rfl coded
        | created after user new isMethod text warning found active owner version id replaced carried
            unlocked unsent =>
            cases reply
            obtain ⟨rfl, email, hash⟩ := carried coded
            obtain ⟨unused, _, short, digits⟩ := freshDraws_spec (fresh draws drawn)
            have sameUsers : after.users = s.db.users := by
              rcases users with same | ⟨_, _, _, _, _, _, signs⟩
              · exact same
              · cases signs
            refine ⟨⟨?_, ⟨new, ?_, rfl⟩, ?_, ⟨user, ?_, active, rfl⟩, ?_, ?_⟩, short, digits⟩
            · refine List.mem_append_left _ ?_
              rw [Option.mem_def.mp drawn]
              exact List.mem_singleton.mpr id
            · dsimp only
              rw [replaced]
              exact List.mem_cons_self
            · intro challenge member named
              dsimp only at member
              rw [replaced, replaceChallenge, List.mem_cons] at member
              rcases member with rfl | old
              · exact ⟨owner, version, rfl, login, email, hash⟩
              · have before := used challenge (List.mem_of_mem_filter old)
                rw [named.trans id] at before
                exact absurd before unused
            · dsimp only
              rw [sameUsers]
              exact found
            · rw [method, MfaDb.row_method]
              exact enrolled
            · rw [lockedUntil]
              exact unlocked login

/-- The email of a code has ended. -/
structure Settled (challengeId : Nat) (s : CodeState Hash Secret Digest) : Prop where
  used : challengeId ∈ s.usedIds
  ended : ∀ waiting ∈ s.pending, waiting.1 ≠ challengeId

theorem mem_usedIds_step {event : Nat × CodeEvent Hash Password Secret}
    (used : ∀ challenge ∈ s.db.challenges, challenge.id ∈ s.usedIds)
    (stepped : CodeState.step keys s event = some next) :
    ∀ challenge ∈ next.db.challenges, challenge.id ∈ next.usedIds := by
  intro challenge member
  have moves := (step_cases stepped).2
  rcases moves.challenges member with ⟨earlier, before, same, _⟩ | ⟨_, new⟩
  · rw [← same]
    exact moves.usedIds (used earlier before)
  · exact new

/-- The email of a challenge ends once. -/
theorem Settled.step {challengeId : Nat} {event : CodeEvent Hash Password Secret}
    (settled : Settled challengeId s) (stepped : CodeState.step keys s (now, event) = some next) :
    Settled challengeId next ∧ (∀ sent, event ≠ .delivered challengeId sent) ∧
      ∀ sent forgotten, event ≠ .undelivered challengeId sent forgotten := by
  have moves := (step_cases stepped).2
  refine ⟨⟨moves.usedIds settled.used, ?_⟩, ?_, ?_⟩
  · cases moves with
    | operation operation fresh =>
        have issues := FactorOperation.issues keys now s.db fun draws drawn =>
          (freshDraws_spec (fresh draws drawn)).2.1
        intro waiting member
        dsimp only at member
        rw [List.mem_append] at member
        rcases member with new | old
        · generalize operation.run keys now s.db = outcome at issues new
          rcases issues with never | ⟨draws, drawn, issues⟩
          · obtain ⟨after, reply⟩ := outcome
            cases reply with
            | challenged claims method text warning => exact absurd rfl (never _ _ _ _)
            | refused | signedIn => cases new
          · cases issues with
            | refused after error => cases new
            | signedIn after user transport codes => cases new
            | reissued after claims method warning same => cases new
            | created after user fresh_ method text warning found active owner version id =>
                rw [Option.mem_toList, MfaReply.emailed] at new
                split at new
                · cases new
                · cases new
                  intro same
                  rw [← same] at settled
                  exact (freshDraws_spec (fresh draws drawn)).1 (id ▸ settled.used)
        · exact settled.ended waiting old
    | delivered other sent waiting =>
        exact fun entry member => settled.ended entry (List.mem_of_mem_filter member)
    | undelivered other sent forgotten waiting =>
        exact fun entry member => settled.ended entry (List.mem_of_mem_filter member)
    | purge | passwordLogin | updateUser | insertUser | deleteUser => exact settled.ended
  · rintro sent rfl
    cases moves with
    | delivered _ _ waiting => exact settled.ended _ waiting rfl
  · rintro sent forgotten rfl
    cases moves with
    | undelivered _ _ _ waiting => exact settled.ended _ waiting rfl

omit [Inhabited Secret] [DecidableEq Hash] [DecidableEq Digest] in
theorem settled_of_settle {challengeId : Nat} (used : challengeId ∈ s.usedIds)
    (ids : next.usedIds = s.usedIds) (left : next.pending = (s.settle challengeId).pending) :
    Settled challengeId next := by
  refine ⟨ids ▸ used, fun entry member => ?_⟩
  rw [left] at member
  have kept := List.of_mem_filter member
  rwa [decide_eq_true_eq] at kept

theorem settled_of_delivered {challengeId : Nat} {sent : Str} (used : challengeId ∈ s.usedIds)
    (stepped : CodeState.step keys s (now, .delivered challengeId sent) = some next) :
    Settled challengeId next := by
  cases (step_cases stepped).2 with
  | delivered => exact settled_of_settle used rfl rfl

theorem settled_of_undelivered {challengeId : Nat} {sent : Str} {forgotten : Bool}
    (used : challengeId ∈ s.usedIds)
    (stepped : CodeState.step keys s (now, .undelivered challengeId sent forgotten) = some next) :
    Settled challengeId next := by
  cases (step_cases stepped).2 with
  | undelivered => exact settled_of_settle used rfl rfl

end LiveStep

section Runs
variable {claims : ChallengeClaims} {code : Str} {now : Nat} {last : CodeState Hash Secret Digest}
  {events : List (Nat × CodeEvent Hash Password Secret)}

/-- After the end of an email there is no other end of it. -/
theorem Settled.run {challengeId : Nat} (settled : Settled challengeId s)
    (ran : Machine.run (CodeState.step keys) s events = some last) :
    ∀ event ∈ events, (∀ sent, event.2 ≠ .delivered challengeId sent) ∧
      ∀ sent forgotten, event.2 ≠ .undelivered challengeId sent forgotten := by
  induction events generalizing s with
  | nil => exact List.forall_mem_nil _
  | cons event rest ih =>
      obtain ⟨next, stepped, later⟩ := (Machine.run_cons _).mp ran
      obtain ⟨now, event⟩ := event
      obtain ⟨stays, here⟩ := settled.step stepped
      exact List.forall_mem_cons.mpr ⟨here, ih stays later⟩

/-- A code whose email is sent in a run is not forgotten in it. -/
theorem not_undelivered {challengeId : Nat} (used : challengeId ∈ s.usedIds)
    (ran : Machine.run (CodeState.step keys) s events = some last)
    (delivered : ∃ time, (time, .delivered challengeId code) ∈ events) :
    ∀ event ∈ events, ∀ sent forgotten, event.2 ≠ .undelivered challengeId sent forgotten := by
  obtain ⟨time, delivered⟩ := delivered
  induction events generalizing s with
  | nil => cases delivered
  | cons event rest ih =>
      obtain ⟨next, stepped, later⟩ := (Machine.run_cons _).mp ran
      rcases List.mem_cons.mp delivered with rfl | inRest
      · have settled := settled_of_delivered used stepped
        refine List.forall_mem_cons.mpr ⟨?_, fun event member => (settled.run later event member).2⟩
        intro sent forgotten impossible
        cases impossible
      · obtain ⟨now, event⟩ := event
        refine List.forall_mem_cons.mpr ⟨?_, ih ((step_cases stepped).2.usedIds used) later inRest⟩
        rintro sent forgotten rfl
        have settled := settled_of_undelivered used stepped
        exact (settled.run later _ inRest).1 code rfl

theorem run_later (ran : Machine.run (CodeState.step keys) s events = some last) : s.now ≤ last.now := by
  induction events generalizing s with
  | nil =>
      cases ran
      exact le_rfl
  | cons event rest ih =>
      obtain ⟨next, stepped, later⟩ := (Machine.run_cons _).mp ran
      obtain ⟨now, event⟩ := event
      obtain ⟨before, moves⟩ := step_cases stepped
      have reached : next.now = now := moves.now
      have rest := ih later
      omega

theorem Spent.run (spent : Spent claims s)
    (ran : Machine.run (CodeState.step keys) s events = some last) : Spent claims last :=
  Machine.run_invariant (Spent claims) (fun _ _ _ holds stepped => holds.step stepped) spent ran

/-- A live code stays live until the first event that ends it, and then it is spent. -/
theorem Live.run (live : Live keys claims code s)
    (ran : Machine.run (CodeState.step keys) s events = some last) (unexpired : last.now < claims.exp)
    (delivered : ∀ event ∈ events, ∀ sent forgotten, event.2 ≠ .undelivered claims.cid sent forgotten) :
    Machine.Meets (CodeState.step keys) (fun s event => ¬Ends keys claims s event) s events ∧
        Live keys claims code last ∨
      ¬Machine.Meets (CodeState.step keys) (fun s event => ¬Ends keys claims s event) s events ∧
        Spent claims last := by
  induction events generalizing s with
  | nil =>
      cases ran
      exact .inl ⟨trivial, live⟩
  | cons event rest ih =>
      obtain ⟨next, stepped, later⟩ := (Machine.run_cons _).mp ran
      obtain ⟨here, inRest⟩ := List.forall_mem_cons.mp delivered
      by_cases ended : Ends keys claims s event
      · exact .inr ⟨fun meets => meets.1 ended, (live.ends stepped ended).run later⟩
      · obtain ⟨now, event⟩ := event
        have reached : next.now = now := (step_cases stepped).2.now
        have before : next.now ≤ last.now := run_later later
        have stays := live.step (by omega) stepped here ended
        rcases ih stays later inRest with ⟨meets, still⟩ | ⟨broken, spent⟩
        · refine .inl ⟨⟨ended, fun other same => ?_⟩, still⟩
          cases stepped.symm.trans same
          exact meets
        · exact .inr ⟨fun meets => broken (meets.2 next stepped), spent⟩

end Runs

/-- The code is accepted with any token of its challenge. -/
def Accepted (keys : MfaKeys Hash Password Secret Digest) (db : MfaDb Hash Secret Digest) (now : Nat)
    (token : ChallengeClaims) (code : Str) : Prop :=
  ∃ user transport,
    (verifyLogin keys now db token (some code)).2 = .signedIn token.sub user transport []

section Verification
variable {claims : ChallengeClaims} {code : Str} {now : Nat}

omit [DecidableEq Hash] in
/-- A live code is accepted until it expires. -/
theorem Live.accepted (live : Live keys claims code s) (login : claims.purpose = .login)
    (later : s.now ≤ now) (unexpired : now < claims.exp) (short : code.length ≤ 64)
    (digits : ∀ c ∈ code, isAsciiDigit c = true) (iat : Nat) (tr : Option Transport) :
    Accepted keys s.db now { claims with iat := iat, tr := tr } code := by
  obtain ⟨user, found, active, version⟩ := live.current
  obtain ⟨locked, same, facts⟩ := MfaDb.lockAccount_current found active
  rw [version] at same
  have open_ : guardBudget (s.db.row claims.sub) .login now = none :=
    if_neg (Nat.not_lt.mpr (live.unlocked.trans later))
  have purpose : ¬(Purpose.login ≠ .login) := fun differs => differs rfl
  rw [Accepted, verifyLogin]
  dsimp only
  rw [login, if_neg purpose, withAccount, same]
  dsimp only
  rw [open_]
  dsimp only
  cases row : challengeRow locked { claims with purpose := .login, iat := iat, tr := tr } now with
  | none =>
      obtain ⟨challenge, stored, named⟩ := live.stored
      have carries := live.only challenge stored named
      have absent := List.find?_eq_none.mp row challenge (facts.challenges ▸ stored)
      refine absurd (decide_eq_true ?_) absent
      exact ⟨named, carries.owner, carries.version, carries.login, carries.expires ▸ unexpired⟩
  | some challenge =>
      have matched := List.find?_some row
      rw [decide_eq_true_eq] at matched
      have stored := List.mem_of_find?_eq_some row
      rw [facts.challenges] at stored
      have carries := live.only challenge stored matched.1
      have hash : challenge.codeHash = some (keys.digestCode challenge.id code) := by
        rw [matched.1]
        exact carries.code
      have proved : ∃ change, checkFactor keys (s.db.row claims.sub) (some code) (some challenge) now =
          .ok (some change) := checkFactor_emailed live.email carries.method hash short digits
      obtain ⟨change, proved⟩ := proved
      rw [live.email]
      dsimp only
      rw [proved]
      exact ⟨user, _, rfl⟩

omit [DecidableEq Hash] in
/-- A spent code is not accepted. -/
theorem Spent.not_accepted (spent : Spent claims s) (iat : Nat) (tr : Option Transport) :
    ¬Accepted keys s.db now { claims with iat := iat, tr := tr } code := by
  rintro ⟨user, transport, signed⟩
  rw [verifyLogin] at signed
  dsimp only at signed
  split at signed
  · cases signed
  · revert signed
    refine withAccount_cases (P := fun result => result.2 ≠ _)
      (fun next error impossible => nomatch impossible) ?_
    intro locked row facts version _
    rcases spent.spent with gone | ⟨current, found, higher⟩
    · have absent : challengeRow locked { claims with iat := iat, tr := tr } now = none := by
        refine List.find?_eq_none.mpr fun challenge stored matched => ?_
        rw [decide_eq_true_eq] at matched
        exact gone challenge (facts.challenges ▸ stored) matched.1
      rw [absent]
      intro impossible
      cases impossible
    · cases found.symm.trans facts.found
      exact absurd higher (Nat.not_lt.mpr version.le)

end Verification

/-- A sign-in code whose email was sent is accepted before it expires exactly when no event of the
run since then ended it. -/
theorem emailed_code_accepted_iff {s sent last : CodeState Hash Secret Digest}
    {history events : List (Nat × CodeEvent Hash Password Secret)} {time now : Nat}
    {operation : FactorOperation Hash Password Secret} {claims : ChallengeClaims}
    {method : MfaMethod} {code : Str} {warning : Option String}
    (reached : Machine.run (CodeState.step keys) initial history = some s)
    (issued : CodeState.step keys s (time, .operation operation) = some sent)
    (reply : (operation.run keys time s.db).2 = .challenged claims method code warning)
    (coded : code ≠ []) (login : claims.purpose = .login)
    (enrolled : s.db.method claims.sub = some .email)
    (ran : Machine.run (CodeState.step keys) sent events = some last)
    (delivered : ∃ time, (time, .delivered claims.cid code) ∈ events)
    (later : last.now ≤ now) (unexpired : now < claims.exp) (iat : Nat) (tr : Option Transport) :
    Accepted keys last.db now { claims with iat := iat, tr := tr } code ↔
      Machine.Meets (CodeState.step keys) (fun s event => ¬Ends keys claims s event) sent events := by
  have used : ∀ challenge ∈ s.db.challenges, challenge.id ∈ s.usedIds :=
    Machine.run_invariant (fun s => ∀ challenge ∈ s.db.challenges, challenge.id ∈ s.usedIds)
      (fun _ _ _ holds stepped => mem_usedIds_step holds stepped) (List.forall_mem_nil _) reached
  obtain ⟨live, short, digits⟩ := live_of_sent used issued reply coded login enrolled
  have unforgotten := not_undelivered live.used ran delivered
  rcases live.run ran (by omega) unforgotten with ⟨meets, still⟩ | ⟨broken, spent⟩
  · exact iff_of_true (still.accepted login later unexpired short digits iat tr) meets
  · exact iff_of_false (spent.not_accepted iat tr) broken

/-- An account enrolls an email address and signs in with a password. -/
def codeHistory : List (Nat × CodeEvent Nat Nat Nat) :=
  [(0, .insertUser 1 7 .user),
    (0, .operation (.setup true true true passwordToken (some .email) (ofString "a@b") 7
      ⟨40, ofString "123456", 0, []⟩)),
    (1, .operation (.confirm passwordToken ⟨1, 0, 40, .enroll, 0, 300, some .cookies⟩
      (some (ofString "123456")) .cookies ⟨41, ofString "000000", 0, [ofString "aa"]⟩))]

/-- A password login of the account. -/
def codeLogin (challengeId : Nat) : FactorOperation Nat Nat Nat :=
  .beginLogin true 1 ⟨7, .user, true, 1, 0, none⟩ .cookies ⟨challengeId, ofString "654321", 0, []⟩

/-- The email is sent, a second login is too early, and a guess fails. -/
def codeEvents : List (Nat × CodeEvent Nat Nat Nat) :=
  [(100, .delivered 42 (ofString "654321")), (110, .operation (codeLogin 43)),
    (120, .purgeExpiredChallenges [40, 42]),
    (130, .operation (.verifyLogin ⟨1, 1, 42, .login, 110, 400, some .header⟩
      (some (ofString "111111"))))]

/-- The user, the challenge, its end and the code of a sign-in that a reply asks for. -/
def askedFor : MfaReply Nat → List Nat × Str
  | .challenged claims _ code _ =>
      if claims.purpose = .login then ([claims.sub, claims.cid, claims.exp], code) else ([], [])
  | .refused _ | .signedIn _ _ _ _ => ([], [])

theorem codeEvents_run :
    ((Machine.run (CodeState.step exampleKeys) .initial codeHistory).bind fun s =>
      (CodeState.step exampleKeys s (100, .operation (codeLogin 42))).bind fun sent =>
        (Machine.run (CodeState.step exampleKeys) sent codeEvents).map fun last =>
          (s.db.method 1, askedFor ((codeLogin 42).run exampleKeys 100 s.db).2, last.now)) =
      some (some .email, ([1, 42, 400], ofString "654321"), 130) := by
  decide +kernel

theorem emailed_code_accepted_iff_example :
    ∃ s sent last claims method warning,
      Machine.run (CodeState.step exampleKeys) .initial codeHistory = some s ∧
      CodeState.step exampleKeys s (100, .operation (codeLogin 42)) = some sent ∧
      ((codeLogin 42).run exampleKeys 100 s.db).2 =
        .challenged claims method (ofString "654321") warning ∧
      Machine.run (CodeState.step exampleKeys) sent codeEvents = some last ∧
      (Accepted exampleKeys last.db 200 { claims with iat := 110, tr := some .header }
          (ofString "654321") ↔
        Machine.Meets (CodeState.step exampleKeys) (fun s event => ¬Ends exampleKeys claims s event)
          sent codeEvents) := by
  obtain ⟨s, reached, rest⟩ := Option.bind_eq_some_iff.mp codeEvents_run
  obtain ⟨sent, issued, rest⟩ := Option.bind_eq_some_iff.mp rest
  obtain ⟨last, ran, report⟩ := Option.map_eq_some_iff.mp rest
  simp only [Prod.mk.injEq] at report
  obtain ⟨method, asked, time⟩ := report
  cases reply : ((codeLogin 42).run exampleKeys 100 s.db).2 with
  | refused error =>
      rw [reply] at asked
      cases asked
  | signedIn userId user transport codes =>
      rw [reply] at asked
      cases asked
  | challenged claims kind code warning =>
      rw [reply, askedFor] at asked
      split at asked
      · next login =>
          simp only [Prod.mk.injEq, List.cons.injEq] at asked
          obtain ⟨⟨sub, cid, exp, _⟩, rfl⟩ := asked
          refine ⟨s, sent, last, claims, kind, warning, reached, issued, reply, ran, ?_⟩
          exact emailed_code_accepted_iff reached issued reply (by decide) login
            (by rw [sub, method]) ran ⟨100, by rw [cid]; exact List.mem_cons_self⟩ (by omega)
            (by omega) 110 (some .header)
      · cases asked

end CodeState

end Codes

end SubtitleTranslator.Auth
