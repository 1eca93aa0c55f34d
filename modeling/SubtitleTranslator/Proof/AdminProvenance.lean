import SubtitleTranslator.Proof.ActiveAdmin

namespace SubtitleTranslator.Auth
open Library

section Roster
variable {Hash : Type}

/-- An account is an administrator, active or not. -/
def IsAdmin (users : List (Account Hash)) (id : Nat) : Prop :=
  ∃ account ∈ users, account.id = id ∧ account.row.role = .admin

theorem ActiveAdmin.isAdmin {users : List (Account Hash)} {id : Nat} (admin : ActiveAdmin users id) :
    IsAdmin users id := by
  obtain ⟨account, member, same, active⟩ := admin
  exact ⟨account, member, same, (of_decide_eq_true active).1⟩

/-- An account makes another one an administrator: its request was admitted and creates one, or it is
an active administrator now and promotes one. -/
inductive Grant (s : RosterState Hash) : RosterEvent Hash → Nat → Nat → Prop where
  | create {request actor id username : Nat} {passwordHash : Hash}
      (admitted : s.requests request = .admitted actor (.create id username passwordHash .admin)) :
      Grant s (.create request) actor id
  | promote {request target : Nat} {activeJobs : Bool} {actor : Account Hash}
      {change : UserChange Hash}
      (cleared : s.requests request = .cleared actor target (.update change))
      (role : change.role = some .admin) (still : ActiveAdmin s.users actor.id) :
      Grant s (.commit request activeJobs) actor.id target

/-- A chain of grants leads from the first account to an administrator; each grant was requested by
an account that was an administrator at some moment of the run before it. -/
inductive Rooted (setupComplete : Bool) (founders : List Nat) :
    List (RosterEvent Hash) → Nat → Prop where
  | founder {events : List (RosterEvent Hash)} {id : Nat} (first : id ∈ founders) :
      Rooted setupComplete founders events id
  | granted {events : List (RosterEvent Hash)} {earlier s : RosterState Hash}
      {event : RosterEvent Hash} {more : List (RosterEvent Hash)} {actor id : Nat}
      (passes : Machine.Passes RosterState.step (RosterState.initial setupComplete) events earlier)
      (admin : IsAdmin earlier.users actor) (rooted : Rooted setupComplete founders events actor)
      (ran : Machine.run RosterState.step (RosterState.initial setupComplete) events = some s)
      (grant : Grant s event actor id) :
      Rooted setupComplete founders (events ++ event :: more) id

/-- An insertion adds one account of the given role. -/
theorem isAdmin_of_insert {s : RosterState Hash} {request id username : Nat} {passwordHash : Hash}
    {role : Role} {other : Nat}
    (admin : IsAdmin (s.insert request id username passwordHash role).users other) :
    IsAdmin s.users other ∨ role = .admin ∧ other = id := by
  rw [RosterState.insert] at admin
  split at admin
  · rename_i users inserted
    rw [insertAccount_eq_some inserted] at admin
    obtain ⟨account, member, same, role⟩ := admin
    rcases List.mem_append.mp member with old | new
    · exact .inl ⟨account, old, same, role⟩
    · rw [List.mem_singleton.mp new] at same role
      exact .inr ⟨role, same.symm⟩
  · exact .inl admin

/-- A change makes an administrator of its target only, and only when it gives that role. -/
theorem isAdmin_of_write {users : List (Account Hash)} {target : Nat} {change : RosterChange Hash}
    {id : Nat} (admin : IsAdmin (change.write users target) id) :
    IsAdmin users id ∨ id = target ∧ ∃ update, change = .update update ∧ update.role = some .admin := by
  obtain ⟨account, member, same, role⟩ := admin
  cases change with
  | delete => exact .inl ⟨account, List.mem_of_mem_filter member, same, role⟩
  | update update =>
      obtain ⟨old, inUsers, rfl⟩ := List.mem_map.mp member
      split at same
      · rename_i isTarget
        rw [if_pos isTarget] at role
        cases given : update.role with
        | none =>
            have kept : old.row.role = .admin := by
              simpa [updateUser, given] using role
            exact .inl ⟨old, inUsers, same, kept⟩
        | some new =>
            have isNew : new = .admin := by
              simpa [updateUser, given] using role
            exact .inr ⟨same.symm.trans isTarget, update, rfl, by rw [given, isNew]⟩
      · rename_i other
        rw [if_neg other] at role
        exact .inl ⟨old, inUsers, same, role⟩

/-- Where the administrators after a step come from. -/
theorem isAdmin_of_step {s next : RosterState Hash} {event : RosterEvent Hash}
    (invariant : RosterInvariant s) (stepped : s.step event = some next) {id : Nat}
    (admin : IsAdmin next.users id) :
    IsAdmin s.users id ∨ id ∈ next.founders ∨ ∃ actor, Grant s event actor id := by
  cases event with
  | insertFounder request =>
      simp only [RosterState.step] at stepped
      split at stepped
      · split at stepped
        · cases stepped
          exact .inl admin
        · split at stepped
          · rename_i users inserted
            cases stepped
            rw [insertAccount_eq_some inserted] at admin
            obtain ⟨account, member, same, role⟩ := admin
            rcases List.mem_append.mp member with old | new
            · exact .inl ⟨account, old, same, role⟩
            · rw [List.mem_singleton.mp new] at same
              exact .inr (.inl (same ▸ List.mem_cons_self))
          · cases stepped
            exact .inl admin
      · cases stepped
  | register request =>
      simp only [RosterState.step] at stepped
      split at stepped
      · cases stepped
        rcases isAdmin_of_insert admin with old | ⟨role, _⟩
        · exact .inl old
        · cases role
      · cases stepped
  | create request =>
      simp only [RosterState.step] at stepped
      split at stepped
      · rename_i admitted
        cases stepped
        rcases isAdmin_of_insert admin with old | ⟨rfl, rfl⟩
        · exact .inl old
        · exact .inr (.inr ⟨_, .create admitted⟩)
      · cases stepped
  | commit request activeJobs =>
      simp only [RosterState.step] at stepped
      split at stepped
      · split at stepped
        · cases stepped
          exact .inl admin
        · cases stepped
          rcases @isAdmin_of_write _ s.users _ .delete id admin with old | ⟨_, _, ⟨⟩, _⟩
          exact .inl old
      · rename_i actor target change notDelete cleared
        cases stepped
        rcases @isAdmin_of_write _ s.users _ _ id admin with old | ⟨rfl, update, rfl, role⟩
        · exact .inl old
        · have fits := invariant.fits request
          rw [cleared] at fits
          exact .inr (.inr ⟨actor.id, .promote cleared role (fits.checked rfl _ _ _ rfl)⟩)
      · cases stepped
  | rotateSession userId =>
      cases stepped
      obtain ⟨account, member, same, role⟩ := admin
      obtain ⟨old, inUsers, rfl⟩ := List.mem_map.mp member
      refine .inl ⟨old, inUsers, ?_, ?_⟩
      · split at same <;> exact same
      · split at role <;> exact role
  | _ =>
      -- The other steps leave the accounts as they are.
      have same : next.users = s.users := by
        simp only [RosterState.step] at stepped
        repeat' split at stepped
        all_goals
          cases stepped
          try rfl
      exact .inl (same ▸ admin)

/-- A stage that a request moves to is its new stage, and the others keep theirs. -/
theorem requests_update {s : RosterState Hash} {request other : Nat} {stage old : RosterStage Hash}
    (moved : Function.update s.requests request stage other = old) :
    stage = old ∨ s.requests other = old := by
  by_cases same : other = request
  · subst same
    rw [Function.update_self] at moved
    exact .inl moved
  · rw [Function.update_of_ne same] at moved
    exact .inr moved

theorem requests_insert (s : RosterState Hash) (request id username : Nat) (passwordHash : Hash)
    (role : Role) : (s.insert request id username passwordHash role).requests =
      Function.update s.requests request .idle := by
  rw [RosterState.insert]
  split <;> rfl

/-- A request is admitted for an account that is an administrator at that moment. -/
theorem admitted_of_step {s next : RosterState Hash} {event : RosterEvent Hash}
    (stepped : s.step event = some next) {request actor : Nat} {wanted : AdminRequest Hash}
    (admitted : next.requests request = .admitted actor wanted) :
    s.requests request = .admitted actor wanted ∨ IsAdmin s.users actor := by
  cases event with
  | requireAdmin mover actorId asked =>
      simp only [RosterState.step] at stepped
      split at stepped
      · rename_i account _ found
        split at stepped
        · rename_i role
          cases stepped
          obtain ⟨member, same⟩ := findUser_eq_some found
          rcases requests_update admitted with new | old
          · cases new
            exact .inr ⟨account, member, same, role⟩
          · exact .inl old
        · cases stepped
          exact .inl admitted
      · cases stepped
  | _ =>
      -- No other step admits a request.
      refine .inl ?_
      simp only [RosterState.step] at stepped
      repeat' split at stepped
      all_goals first
        | cases stepped; exact admitted
        | cases stepped; exact (requests_update admitted).resolve_left fun same => by cases same
        | cases stepped
          rw [requests_insert] at admitted
          exact (requests_update admitted).resolve_left fun same => by cases same
        | cases stepped

theorem founders_of_step {s next : RosterState Hash} {event : RosterEvent Hash}
    (stepped : s.step event = some next) {id : Nat} (founder : id ∈ s.founders) :
    id ∈ next.founders := by
  cases step_effect stepped with
  | found request account first admin => exact List.mem_cons_of_mem _ founder
  | _ => exact founder

theorem Rooted.mono {setupComplete : Bool} {founders more : List Nat}
    {events : List (RosterEvent Hash)} {id : Nat} (rooted : Rooted setupComplete founders events id)
    (kept : ∀ id ∈ founders, id ∈ more) : Rooted setupComplete more events id := by
  induction rooted with
  | founder first => exact .founder (kept _ first)
  | granted passes admin _ ran grant ih => exact .granted passes admin ih ran grant

theorem Rooted.append {setupComplete : Bool} {founders : List Nat}
    {events : List (RosterEvent Hash)} {id : Nat} (rooted : Rooted setupComplete founders events id)
    (more : List (RosterEvent Hash)) : Rooted setupComplete founders (events ++ more) id := by
  cases rooted with
  | founder first => exact .founder first
  | granted passes admin rooted ran grant =>
      rw [List.append_assoc, List.cons_append]
      exact .granted passes admin rooted ran grant

/-- The administrators are rooted, and so is who has had a request admitted. -/
structure Traced (setupComplete : Bool) (events : List (RosterEvent Hash)) (s : RosterState Hash) :
    Prop where
  roster : RosterInvariant s
  admins : ∀ id, IsAdmin s.users id → Rooted setupComplete s.founders events id
  admitted : ∀ request actor wanted, s.requests request = .admitted actor wanted →
    Rooted setupComplete s.founders events actor ∧ ∃ earlier,
      Machine.Passes RosterState.step (RosterState.initial setupComplete) events earlier ∧
        IsAdmin earlier.users actor

end Roster

end SubtitleTranslator.Auth
