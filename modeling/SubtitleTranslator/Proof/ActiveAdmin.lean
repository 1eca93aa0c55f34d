import SubtitleTranslator.Construction.Roster

namespace SubtitleTranslator.Auth
open Library

section Roster
variable {Hash : Type}

/-- A stage of a transaction that has written the roster row. -/
def RosterStage.holdsLock : RosterStage Hash → Bool
  | locked .. | rechecked .. | targeted .. | cleared .. => true
  | _ => false

/-- The change that a request is about to make, with its actor. -/
def RosterStage.pending? : RosterStage Hash → Option (Account Hash × Nat × RosterChange Hash)
  | acting actor target change | locked actor target change | rechecked actor target change
  | targeted actor _ target change | cleared actor target change => some (actor, target, change)
  | _ => none

/-- A stage after the actor was checked inside the lock. -/
def RosterStage.checked : RosterStage Hash → Bool
  | rechecked .. | targeted .. | cleared .. => true
  | _ => false

/-- An account is an active administrator now. -/
def ActiveAdmin (users : List (Account Hash)) (id : Nat) : Prop :=
  ∃ account ∈ users, account.id = id ∧ account.isActiveAdmin = true

/-- A change that its actor may make on the own account. -/
def Permitted (actor : Account Hash) (target : Nat) (change : RosterChange Hash) : Prop :=
  target = actor.id → change.refusesOwn = false

/-- What a step does to the accounts and to the requests. -/
inductive RosterEffect (s : RosterState Hash) : RosterState Hash → Prop where
  | stay : RosterEffect s s
  | answer (request : Nat) : RosterEffect s (s.answer request)
  | advance (request : Nat) (stage : RosterStage Hash)
      (holds : stage.holdsLock = true → (s.requests request).holdsLock = true)
      (permitted : ∀ actor target change, stage.pending? = some (actor, target, change) →
        Permitted actor target change ∨ (s.requests request).pending? = some (actor, target, change))
      (checked : stage.checked = true → ∀ actor target change,
        stage.pending? = some (actor, target, change) → ActiveAdmin s.users actor.id ∨
          (s.requests request).checked = true ∧
            (s.requests request).pending? = some (actor, target, change)) :
      RosterEffect s (s.setRequest request stage)
  | lock (request : Nat) (actor : Account Hash) (target : Nat) (change : RosterChange Hash)
      (free : s.lock = none) (acting : s.requests request = .acting actor target change) :
      RosterEffect s
        { s.setRequest request (.locked actor target change) with lock := some request }
  | found (request : Nat) (account : Account Hash) (first : s.setupComplete = false)
      (admin : account.isActiveAdmin = true) :
      RosterEffect s { s.answer request with
        users := s.users ++ [account]
        setupComplete := true
        founders := account.id :: s.founders }
  | insert (request : Nat) (account : Account Hash) :
      RosterEffect s { s.answer request with users := s.users ++ [account] }
  | change (request : Nat) (actor : Account Hash) (target : Nat) (change : RosterChange Hash)
      (cleared : s.requests request = .cleared actor target change) :
      RosterEffect s { s.answer request with users := change.write s.users target }
  | rotate (userId : Nat) :
      RosterEffect s { s with users := updateRow s.users userId rotateVersion }

/-- An insertion appends one active account. -/
theorem insertAccount_eq_some {users next : List (Account Hash)} {id username : Nat}
    {passwordHash : Hash} {role : Role}
    (inserted : insertAccount users id username passwordHash role = some next) :
    next = users ++ [⟨id, username, insertUser passwordHash role⟩] := by
  rw [insertAccount] at inserted
  split at inserted
  · cases inserted
  · exact (Option.some.inj inserted).symm

theorem insert_effect (s : RosterState Hash) (request id username : Nat) (passwordHash : Hash)
    (role : Role) : RosterEffect s (s.insert request id username passwordHash role) := by
  rw [RosterState.insert]
  split
  · rename_i users inserted
    rw [insertAccount_eq_some inserted]
    exact .insert request _
  · exact .answer request

/-- An account that is found is one of the accounts. -/
theorem findUser_eq_some {users : List (Account Hash)} {id : Nat} {account : Account Hash}
    (found : findUser users id = some account) : account ∈ users ∧ account.id = id :=
  ⟨List.mem_of_find?_eq_some found, by simpa using List.find?_some found⟩

theorem activeAdmin_of_actorStillAdmin {users : List (Account Hash)} {actor : Account Hash}
    (still : actorStillAdmin users actor = true) : ActiveAdmin users actor.id := by
  rw [actorStillAdmin] at still
  split at still
  · cases still
  · rename_i current found
    obtain ⟨member, same⟩ := findUser_eq_some found
    exact ⟨current, member, same, (of_decide_eq_true still).1⟩

/-- Every step has one of the effects. -/
theorem step_effect {s next : RosterState Hash} {event : RosterEvent Hash}
    (stepped : s.step event = some next) : RosterEffect s next := by
  cases event with
  | countUsers request id username passwordHash =>
      simp only [RosterState.step] at stepped
      split at stepped
      · split at stepped
        · cases stepped
          exact .advance request _ nofun nofun nofun
        · cases stepped
          exact .stay
      · cases stepped
  | insertFounder request =>
      simp only [RosterState.step] at stepped
      split at stepped
      · split at stepped
        · cases stepped
          exact .answer request
        · rename_i first
          split at stepped
          · rename_i users inserted
            cases stepped
            rw [insertAccount_eq_some inserted]
            exact .found request ⟨_, _, _⟩ (by simpa using first) rfl
          · cases stepped
            exact .answer request
      · cases stepped
  | validateRegistration request id username passwordHash enabled =>
      simp only [RosterState.step] at stepped
      split at stepped
      · split at stepped
        · cases stepped
          exact .advance request _ nofun nofun nofun
        · cases stepped
          exact .stay
      · cases stepped
  | register request =>
      simp only [RosterState.step] at stepped
      split at stepped
      · cases stepped
        exact insert_effect ..
      · cases stepped
  | requireAdmin request actorId wanted =>
      simp only [RosterState.step] at stepped
      split at stepped
      · split at stepped
        · cases stepped
          exact .advance request _ nofun nofun nofun
        · cases stepped
          exact .stay
      · cases stepped
  | create request =>
      simp only [RosterState.step] at stepped
      split at stepped
      · cases stepped
        exact insert_effect ..
      · cases stepped
  | readActor request =>
      simp only [RosterState.step] at stepped
      split at stepped
      · split at stepped
        · split at stepped
          · cases stepped
            exact .answer request
          · rename_i allowed
            cases stepped
            refine .advance request _ nofun ?_ nofun
            rintro _ _ _ ⟨⟩
            exact .inl fun own => by simpa [own] using allowed
        · cases stepped
          exact .answer request
      · cases stepped
  | lockAdminRoster request =>
      simp only [RosterState.step] at stepped
      split at stepped
      · rename_i acting free
        cases stepped
        exact .lock request _ _ _ free acting
      · cases stepped
  | recheckActor request =>
      simp only [RosterState.step] at stepped
      split at stepped
      · rename_i isLocked
        split at stepped
        · rename_i still
          cases stepped
          refine .advance request _ (fun _ => by rw [isLocked]; rfl) ?_ ?_
          · rintro _ _ _ ⟨⟩
            exact .inr (by rw [isLocked]; rfl)
          · rintro _ _ _ _ ⟨⟩
            exact .inl (activeAdmin_of_actorStillAdmin still)
        · cases stepped
          exact .answer request
      · cases stepped
  | readTarget request =>
      simp only [RosterState.step] at stepped
      split at stepped
      · rename_i isRechecked
        split at stepped
        · cases stepped
          refine .advance request _ (fun _ => by rw [isRechecked]; rfl) ?_ ?_
          · rintro _ _ _ ⟨⟩
            exact .inr (by rw [isRechecked]; rfl)
          · rintro _ _ _ _ ⟨⟩
            exact .inr (by rw [isRechecked]; exact ⟨rfl, rfl⟩)
        · cases stepped
          exact .answer request
      · cases stepped
  | countAdmins request =>
      simp only [RosterState.step] at stepped
      split at stepped
      · rename_i isTargeted
        split at stepped
        · cases stepped
          exact .answer request
        · cases stepped
          refine .advance request _ (fun _ => by rw [isTargeted]; rfl) ?_ ?_
          · rintro _ _ _ ⟨⟩
            exact .inr (by rw [isTargeted]; rfl)
          · rintro _ _ _ _ ⟨⟩
            exact .inr (by rw [isTargeted]; exact ⟨rfl, rfl⟩)
      · cases stepped
  | commit request activeJobs =>
      simp only [RosterState.step] at stepped
      split at stepped
      · rename_i isCleared
        split at stepped
        · cases stepped
          exact .answer request
        · cases stepped
          exact .change request _ _ _ isCleared
      · rename_i isCleared
        cases stepped
        exact .change request _ _ _ isCleared
      · cases stepped
  | rotateSession userId =>
      cases stepped
      exact .rotate userId
  | abort request =>
      cases stepped
      exact .answer request

/-- An update that keeps the role and the activation of a row keeps the administrators. -/
theorem ActiveAdmin.updated {users : List (Account Hash)} {id target : Nat}
    {change : UserRow Hash → UserRow Hash} (before : ActiveAdmin users id)
    (kept : target = id → ∀ row : UserRow Hash, row.role = .admin → row.active = true →
      (change row).role = .admin ∧ (change row).active = true) :
    ActiveAdmin (updateRow users target change) id := by
  obtain ⟨account, member, same, admin⟩ := before
  refine ⟨_, List.mem_map_of_mem member, ?_⟩
  split
  · rename_i isTarget
    have row := of_decide_eq_true admin
    obtain ⟨role, active⟩ := kept (isTarget.symm.trans same) account.row row.1 row.2
    exact ⟨same, decide_eq_true ⟨role, active⟩⟩
  · exact ⟨same, admin⟩

theorem ActiveAdmin.rotate {users : List (Account Hash)} {id : Nat} (userId : Nat)
    (before : ActiveAdmin users id) : ActiveAdmin (updateRow users userId rotateVersion) id :=
  before.updated fun _ _ role active => ⟨role, active⟩

theorem ActiveAdmin.append {users : List (Account Hash)} {id : Nat} (account : Account Hash)
    (before : ActiveAdmin users id) : ActiveAdmin (users ++ [account]) id := by
  obtain ⟨found, member, same⟩ := before
  exact ⟨found, List.mem_append_left _ member, same⟩

/-- A permitted change leaves its actor an active administrator. -/
theorem ActiveAdmin.write {users : List (Account Hash)} {actor : Account Hash} {target : Nat}
    {change : RosterChange Hash} (before : ActiveAdmin users actor.id)
    (permitted : Permitted actor target change) :
    ActiveAdmin (change.write users target) actor.id := by
  cases change with
  | delete =>
      obtain ⟨account, member, same, admin⟩ := before
      have other : account.id ≠ target := by
        intro own
        cases permitted (own.symm.trans same)
      exact ⟨account, List.mem_filter.mpr ⟨member, by simpa using other⟩, same, admin⟩
  | update change =>
      apply before.updated
      intro own row role active
      have harmless := permitted own
      simp only [RosterChange.refusesOwn, decide_eq_false_iff_not, not_or] at harmless
      simp only [updateUser]
      constructor
      · cases changed : change.role with
        | none => exact role
        | some new =>
            cases new with
            | user => exact absurd changed harmless.2
            | admin => rfl
      · cases changed : change.active with
        | none => exact active
        | some new =>
            cases new with
            | false => exact absurd changed harmless.1
            | true => rfl

/-- The stage of a request fits the lock and the accounts. -/
structure StageFits (lock : Option Nat) (users : List (Account Hash)) (request : Nat)
    (stage : RosterStage Hash) : Prop where
  holder : stage.holdsLock = true → lock = some request
  permitted : ∀ actor target change, stage.pending? = some (actor, target, change) →
    Permitted actor target change
  checked : stage.checked = true → ∀ actor target change,
    stage.pending? = some (actor, target, change) → ActiveAdmin users actor.id

theorem stageFits_idle (lock : Option Nat) (users : List (Account Hash)) (request : Nat) :
    StageFits lock users request .idle :=
  ⟨nofun, nofun, nofun⟩

theorem holdsLock_of_checked {stage : RosterStage Hash} (checked : stage.checked = true) :
    stage.holdsLock = true := by
  cases stage <;> first | rfl | cases checked

/-- The invariant of the accounts and the requests. -/
structure RosterInvariant (s : RosterState Hash) : Prop where
  unfounded : s.setupComplete = false → s.founders = []
  single : s.founders.length ≤ 1
  administered : s.founders ≠ [] → ∃ id, ActiveAdmin s.users id
  fits : ∀ request, StageFits s.lock s.users request (s.requests request)

/-- After a move, all stages fit when the new one does and the others still do. -/
theorem fits_setRequest {s : RosterState Hash} {request : Nat} {stage : RosterStage Hash}
    {lock : Option Nat} {users : List (Account Hash)} (own : StageFits lock users request stage)
    (others : ∀ other, other ≠ request → StageFits lock users other (s.requests other)) (other : Nat) :
    StageFits lock users other (Function.update s.requests request stage other) := by
  by_cases same : other = request
  · rw [same, Function.update_self]
    exact own
  · rw [Function.update_of_ne same]
    exact others other same

/-- An answer keeps the stages of the others when their administrators stay. -/
theorem RosterInvariant.fits_answer {s : RosterState Hash} (before : RosterInvariant s)
    (request : Nat) {users : List (Account Hash)}
    (kept : ∀ other id, other ≠ request → (s.requests other).checked = true →
      ActiveAdmin s.users id → ActiveAdmin users id) (other : Nat) :
    StageFits (s.answer request).lock users other ((s.answer request).requests other) := by
  apply fits_setRequest (stageFits_idle _ _ _)
  intro other different
  obtain ⟨holder, permitted, checked⟩ := before.fits other
  refine ⟨fun holds => ?_, permitted, fun isChecked actor target change pending =>
    kept other actor.id different isChecked (checked isChecked actor target change pending)⟩
  show (if s.lock = some request then none else s.lock) = some other
  rw [holder holds, if_neg (by simpa using different)]

/-- Every step keeps the invariant. -/
theorem RosterInvariant.step {s next : RosterState Hash} {event : RosterEvent Hash}
    (before : RosterInvariant s) (stepped : s.step event = some next) : RosterInvariant next := by
  have ⟨unfounded, single, administered, fits⟩ := before
  cases step_effect stepped with
  | stay => exact ⟨unfounded, single, administered, fits⟩
  | answer request =>
      exact ⟨unfounded, single, administered, before.fits_answer request fun _ _ _ _ admin => admin⟩
  | advance request stage holds permitted checked =>
      refine ⟨unfounded, single, administered, fits_setRequest ⟨?_, ?_, ?_⟩ fun other _ => fits other⟩
      · exact fun held => (fits request).holder (holds held)
      · exact fun actor target change pending => (permitted actor target change pending).elim id
          ((fits request).permitted actor target change)
      · exact fun isChecked actor target change pending =>
          (checked isChecked actor target change pending).elim id fun earlier =>
            (fits request).checked earlier.1 actor target change earlier.2
  | lock request actor target change free acting =>
      refine ⟨unfounded, single, administered, fits_setRequest ⟨fun _ => rfl, ?_, nofun⟩ ?_⟩
      · rintro _ _ _ ⟨⟩
        exact (fits request).permitted actor target change (by rw [acting]; rfl)
      · intro other _
        refine ⟨fun holds => ?_, (fits other).permitted, (fits other).checked⟩
        have held := (fits other).holder holds
        rw [free] at held
        cases held
  | found request account first admin =>
      refine ⟨nofun, ?_, fun _ => ⟨account.id, account,
        List.mem_append_right _ (List.mem_singleton_self _), rfl, admin⟩,
        before.fits_answer request fun _ _ _ _ earlier => earlier.append account⟩
      show (account.id :: s.founders).length ≤ 1
      rw [unfounded first]
      exact Nat.le_refl 1
  | insert request account =>
      exact ⟨unfounded, single, fun founded =>
        (administered founded).imp fun _ earlier => earlier.append account,
        before.fits_answer request fun _ _ _ _ earlier => earlier.append account⟩
  | change request actor target change cleared =>
      have own := fits request
      rw [cleared] at own
      have permitted := own.permitted actor target change rfl
      have admin := own.checked rfl actor target change rfl
      refine ⟨unfounded, single, fun _ => ⟨actor.id, admin.write permitted⟩,
        before.fits_answer request fun other _ different isChecked _ => ?_⟩
      -- No other request is inside the lock.
      have held := (fits other).holder (holdsLock_of_checked isChecked)
      rw [own.holder rfl] at held
      exact absurd (Option.some.inj held).symm different
  | rotate userId =>
      exact ⟨unfounded, single, fun founded =>
        (administered founded).imp fun _ admin => admin.rotate userId,
        fun other => ⟨(fits other).holder, (fits other).permitted,
          fun isChecked actor target change pending =>
            ((fits other).checked isChecked actor target change pending).rotate userId⟩⟩

theorem rosterInvariant_initial (setupComplete : Bool) :
    RosterInvariant (RosterState.initial setupComplete : RosterState Hash) where
  unfounded := fun _ => rfl
  single := Nat.zero_le 1
  administered := fun founded => absurd rfl founded
  fits := fun request => stageFits_idle none [] request

/-- At most one account comes from setups and bootstraps, and from its commit on there is an active
administrator. -/
theorem active_admin_kept {setupComplete : Bool} {events : List (RosterEvent Hash)}
    {last : RosterState Hash}
    (ran : Machine.run RosterState.step (RosterState.initial setupComplete) events = some last) :
    last.founders.length ≤ 1 ∧
      (last.founders ≠ [] → ∃ account ∈ last.users, account.row.role = .admin ∧
        account.row.active = true) := by
  have holds := Machine.run_invariant RosterInvariant (fun _ _ _ before stepped => before.step stepped)
    (rosterInvariant_initial setupComplete) ran
  refine ⟨holds.single, fun founded => ?_⟩
  obtain ⟨_, account, member, _, admin⟩ := holds.administered founded
  exact ⟨account, member, of_decide_eq_true admin⟩

end Roster

/-- Two setups and a bootstrap at once, then two administrators who remove each other. -/
def mutualRemoval : List (RosterEvent Unit) :=
  [.countUsers 0 10 20 (), .countUsers 1 11 21 (), .countUsers 2 12 22 (), .insertFounder 1,
    .insertFounder 0, .insertFounder 2, .requireAdmin 0 11 (.create 13 23 () .admin), .create 0,
    .requireAdmin 0 11 (.change 13 .delete), .requireAdmin 1 13 (.change 11 (.update { role := some .user })),
    .readActor 0, .readActor 1, .lockAdminRoster 1, .recheckActor 1, .readTarget 1, .countAdmins 1,
    .rotateSession 13, .commit 1 false, .lockAdminRoster 0, .recheckActor 0]

theorem active_admin_kept_example :
    ∃ last, Machine.run RosterState.step (RosterState.initial false) mutualRemoval = some last ∧
      last.founders = [11] ∧ last.users.map (fun account => (account.id, account.row.role)) =
        [(11, .user), (13, .admin)] ∧ last.founders.length ≤ 1 ∧
      (last.founders ≠ [] → ∃ account ∈ last.users, account.row.role = .admin ∧
        account.row.active = true) := by
  cases ran : Machine.run RosterState.step (RosterState.initial false) mutualRemoval with
  | none =>
      have accepted : (Machine.run RosterState.step (RosterState.initial false)
          mutualRemoval).isSome = true := by decide +kernel
      rw [ran] at accepted
      cases accepted
  | some last =>
      have seen : (Machine.run RosterState.step (RosterState.initial false) mutualRemoval).map
          (fun last => (last.founders, last.users.map fun account => (account.id, account.row.role))) =
            some ([11], [(11, .user), (13, .admin)]) := by decide +kernel
      rw [ran] at seen
      have ends := Option.some.inj seen
      exact ⟨last, rfl, congrArg Prod.fst ends, congrArg Prod.snd ends, active_admin_kept ran⟩

end SubtitleTranslator.Auth
