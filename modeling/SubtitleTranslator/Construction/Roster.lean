import SubtitleTranslator.Construction.Login

namespace SubtitleTranslator.Auth
open Library

/-- An account is a `users` row with its two unique keys. -/
structure Account (Hash : Type) where
  id : Nat
  username : Nat
  row : UserRow Hash
  deriving DecidableEq

variable {Hash : Type}

def Account.isActiveAdmin (account : Account Hash) : Bool :=
  account.row.role = .admin ∧ account.row.active

def findUser (users : List (Account Hash)) (id : Nat) : Option (Account Hash) :=
  users.find? (·.id = id)

/-- This function is `insert_user`; `none` is the IntegrityError of a key that is taken. -/
def insertAccount (users : List (Account Hash)) (id username : Nat) (passwordHash : Hash)
    (role : Role) : Option (List (Account Hash)) :=
  if users.any fun account => account.id = id ∨ account.username = username then none
  else some (users ++ [⟨id, username, insertUser passwordHash role⟩])

/-- The UPDATE of one row. -/
def updateRow (users : List (Account Hash)) (id : Nat) (change : UserRow Hash → UserRow Hash) :
    List (Account Hash) :=
  users.map fun account => if account.id = id then { account with row := change account.row } else account

/-- This function is `active_admin_count`. -/
def activeAdminCount (users : List (Account Hash)) : Nat := users.countP (·.isActiveAdmin)

/-- This function is `actor_still_admin`. -/
def actorStillAdmin (users : List (Account Hash)) (actor : Account Hash) : Bool :=
  match findUser users actor.id with
  | none => false
  | some current => current.isActiveAdmin ∧ current.row.tokenVersion = actor.row.tokenVersion

/-- An administrator updates or deletes an account. -/
inductive RosterChange (Hash : Type) where
  | update (change : UserChange Hash)
  | delete

namespace RosterChange

/-- These changes are refused on the account of the actor. -/
def refusesOwn : RosterChange Hash → Bool
  | update change => change.active = some false ∨ change.role = some .user
  | delete => true

/-- This value is `removes_admin` for the row that was read. -/
def removesAdmin (change : RosterChange Hash) (target : Account Hash) : Bool :=
  target.isActiveAdmin ∧ change.refusesOwn

/-- The accounts after the write. -/
def write (users : List (Account Hash)) (target : Nat) : RosterChange Hash → List (Account Hash)
  | update change => updateRow users target (updateUser change)
  | delete => users.filter (·.id ≠ target)

end RosterChange

/-- The requests that only an administrator may make. -/
inductive AdminRequest (Hash : Type) where
  | create (id username : Nat) (passwordHash : Hash) (role : Role)
  | change (target : Nat) (change : RosterChange Hash)

/-- These are the places where a request can be suspended. -/
inductive RosterStage (Hash : Type) where
  | idle
  /-- A setup or a bootstrap has counted no users in its transaction. -/
  | founding (id username : Nat) (passwordHash : Hash)
  /-- A registration has found a user. -/
  | registering (id username : Nat) (passwordHash : Hash)
  /-- The request has passed `admin_required`. -/
  | admitted (actorId : Nat) (request : AdminRequest Hash)
  /-- The request has read the row of its actor. -/
  | acting (actor : Account Hash) (target : Nat) (change : RosterChange Hash)
  | locked (actor : Account Hash) (target : Nat) (change : RosterChange Hash)
  /-- The actor was still an administrator inside the lock. -/
  | rechecked (actor : Account Hash) (target : Nat) (change : RosterChange Hash)
  /-- The row of the target was read. -/
  | targeted (actor row : Account Hash) (target : Nat) (change : RosterChange Hash)
  /-- The administrators were counted. -/
  | cleared (actor : Account Hash) (target : Nat) (change : RosterChange Hash)

structure RosterState (Hash : Type) where
  users : List (Account Hash)
  /-- The row `_auth_setup_complete` exists. -/
  setupComplete : Bool
  /-- The request whose transaction has written the roster row. -/
  lock : Option Nat
  requests : Nat → RosterStage Hash
  /-- The accounts that a setup or a bootstrap has created so far. -/
  founders : List Nat

inductive RosterEvent (Hash : Type) where
  /-- A setup or a bootstrap counts the users. -/
  | countUsers (request id username : Nat) (passwordHash : Hash)
  | insertFounder (request : Nat)
  /-- A registration reads `registration_enabled` and counts the users. -/
  | validateRegistration (request id username : Nat) (passwordHash : Hash) (enabled : Bool)
  | register (request : Nat)
  /-- A request of an administrator passes the check of `admin_required`. -/
  | requireAdmin (request actorId : Nat) (wanted : AdminRequest Hash)
  | create (request : Nat)
  | readActor (request : Nat)
  | lockAdminRoster (request : Nat)
  | recheckActor (request : Nat)
  | readTarget (request : Nat)
  | countAdmins (request : Nat)
  /-- The write commits, unless a deleted user has active jobs. -/
  | commit (request : Nat) (activeJobs : Bool)
  /-- An MFA change replaces the token version of a user. -/
  | rotateSession (userId : Nat)
  /-- A transaction fails. -/
  | abort (request : Nat)

namespace RosterState

def setRequest (s : RosterState Hash) (request : Nat) (stage : RosterStage Hash) :
    RosterState Hash :=
  { s with requests := Function.update s.requests request stage }

/-- A request answers, and its transaction ends. -/
def answer (s : RosterState Hash) (request : Nat) : RosterState Hash :=
  { s.setRequest request .idle with lock := if s.lock = some request then none else s.lock }

/-- A transaction inserts an account, or fails with an IntegrityError. -/
def insert (s : RosterState Hash) (request id username : Nat) (passwordHash : Hash) (role : Role) :
    RosterState Hash :=
  match insertAccount s.users id username passwordHash role with
  | some users => { s.answer request with users := users }
  | none => s.answer request

/-- This step moves the requests; a roster transaction is taken step by step under its lock. -/
def step (s : RosterState Hash) : RosterEvent Hash → Option (RosterState Hash)
  | .countUsers request id username passwordHash =>
      match s.requests request with
      | .idle =>
          if s.users = [] then some (s.setRequest request (.founding id username passwordHash))
          else some s
      | _ => none
  | .insertFounder request =>
      match s.requests request with
      | .founding id username passwordHash =>
          if s.setupComplete then some (s.answer request)
          else
            match insertAccount s.users id username passwordHash .admin with
            | some users =>
                some { s.answer request with
                  users := users
                  setupComplete := true
                  founders := id :: s.founders }
            | none => some (s.answer request)
      | _ => none
  | .validateRegistration request id username passwordHash enabled =>
      match s.requests request with
      | .idle =>
          if enabled ∧ s.users ≠ [] then
            some (s.setRequest request (.registering id username passwordHash))
          else some s
      | _ => none
  | .register request =>
      match s.requests request with
      | .registering id username passwordHash =>
          some (s.insert request id username passwordHash .user)
      | _ => none
  | .requireAdmin request actorId wanted =>
      match s.requests request, findUser s.users actorId with
      | .idle, some actor =>
          if actor.row.role = .admin then some (s.setRequest request (.admitted actorId wanted))
          else some s
      | _, _ => none
  | .create request =>
      match s.requests request with
      | .admitted _ (.create id username passwordHash role) =>
          some (s.insert request id username passwordHash role)
      | _ => none
  | .readActor request =>
      match s.requests request with
      | .admitted actorId (.change target change) =>
          match findUser s.users actorId with
          | some actor =>
              if target = actor.id ∧ change.refusesOwn then some (s.answer request)
              else some (s.setRequest request (.acting actor target change))
          | none => some (s.answer request)
      | _ => none
  | .lockAdminRoster request =>
      match s.requests request, s.lock with
      | .acting actor target change, none =>
          some { s.setRequest request (.locked actor target change) with lock := some request }
      | _, _ => none
  | .recheckActor request =>
      match s.requests request with
      | .locked actor target change =>
          if actorStillAdmin s.users actor then
            some (s.setRequest request (.rechecked actor target change))
          else some (s.answer request)
      | _ => none
  | .readTarget request =>
      match s.requests request with
      | .rechecked actor target change =>
          match findUser s.users target with
          | some row => some (s.setRequest request (.targeted actor row target change))
          | none => some (s.answer request)
      | _ => none
  | .countAdmins request =>
      match s.requests request with
      | .targeted actor row target change =>
          if change.removesAdmin row ∧ activeAdminCount s.users ≤ 1 then some (s.answer request)
          else some (s.setRequest request (.cleared actor target change))
      | _ => none
  | .commit request activeJobs =>
      match s.requests request with
      | .cleared _ target .delete =>
          if activeJobs then some (s.answer request)
          else some { s.answer request with users := RosterChange.delete.write s.users target }
      | .cleared _ target change =>
          some { s.answer request with users := change.write s.users target }
      | _ => none
  | .rotateSession userId => some { s with users := updateRow s.users userId rotateVersion }
  | .abort request => some (s.answer request)

/-- A start has no users; the setup row can be there from before. -/
def initial (setupComplete : Bool) : RosterState Hash where
  users := []
  setupComplete := setupComplete
  lock := none
  requests := fun _ => .idle
  founders := []

end RosterState

end SubtitleTranslator.Auth
