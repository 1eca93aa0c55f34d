import SubtitleTranslator.Library.Machine

namespace SubtitleTranslator.Auth
open Library

/-- This function is `isoformat(timespec="seconds")`: it cuts a clock reading in
microseconds to whole seconds. -/
def toTimestamp (instant : Nat) : Nat := instant / 1000000

/-- This function is `parse_timestamp`, from whole seconds to microseconds. -/
def ofTimestamp (timestamp : Nat) : Nat := 1000000 * timestamp

def loginFailureLimit : Nat := 5

def loginLockMinutes : Nat := 15

inductive Role where
  | user
  | admin
  deriving DecidableEq

/-- These are the columns of a `users` row that authentication reads or writes. -/
structure UserRow (Hash : Type) where
  passwordHash : Hash
  role : Role
  active : Bool
  tokenVersion : Nat
  failedLoginCount : Nat
  lockedUntil : Option Nat
  deriving DecidableEq

variable {Hash Password : Type}

/-- This row is what `insert_user` writes. -/
def insertUser (passwordHash : Hash) (role : Role) : UserRow Hash where
  passwordHash := passwordHash
  role := role
  active := true
  tokenVersion := 0
  failedLoginCount := 0
  lockedUntil := none

/-- The login path compares the stored lock with the clock. -/
def UserRow.locked (row : UserRow Hash) (now : Nat) : Bool :=
  row.lockedUntil.any fun until_ => now < ofTimestamp until_

/-- The guard matches the lock that was read before verification, or no lock. -/
def observedLockCondition (observed current : Option Nat) : Bool :=
  match observed with
  | none => current == none
  | some _ => current == none || current == observed

/-- The reservation is one conditional UPDATE; `none` means that no row matched. -/
def reserveAccountLoginAttempt (user row : UserRow Hash) : Option (UserRow Hash) :=
  if row.active ∧ row.failedLoginCount < loginFailureLimit ∧
      observedLockCondition user.lockedUntil row.lockedUntil then
    some { row with failedLoginCount := row.failedLoginCount + 1 }
  else none

/-- An exhausted account gets a timed lock, counted from a clock reading, and a new budget. -/
def lockExhaustedAccount (reading : Nat) (row : UserRow Hash) : UserRow Hash :=
  if loginFailureLimit ≤ row.failedLoginCount then
    { row with
      lockedUntil := some (toTimestamp (reading + loginLockMinutes * 60000000))
      failedLoginCount := 0 }
  else row

/-- The guarded UPDATE of a verified login; `none` means that no row matched. -/
def recordSuccessfulLogin [DecidableEq Hash] (user : UserRow Hash) (rehashed : Option Hash) (row : UserRow Hash) :
    Option (UserRow Hash) :=
  if row.active ∧ row.tokenVersion = user.tokenVersion ∧
      row.passwordHash = user.passwordHash ∧
      observedLockCondition user.lockedUntil row.lockedUntil then
    some { row with
      failedLoginCount := 0
      lockedUntil := none
      passwordHash := rehashed.getD row.passwordHash }
  else none

/-- The accepted fields of one `PATCH /api/users/<user_id>` payload. -/
structure UserChange (Hash : Type) where
  role : Option Role := none
  active : Option Bool := none
  passwordHash : Option Hash := none
  unlock : Bool := false

/-- This function is the UPDATE of `update_user`. -/
def updateUser (change : UserChange Hash) (row : UserRow Hash) : UserRow Hash where
  passwordHash := change.passwordHash.getD row.passwordHash
  role := change.role.getD row.role
  active := change.active.getD row.active
  tokenVersion :=
    if change.role.isSome ∨ change.active.isSome ∨ change.passwordHash.isSome then
      row.tokenVersion + 1
    else row.tokenVersion
  failedLoginCount := if change.unlock then 0 else row.failedLoginCount
  lockedUntil := if change.unlock then none else row.lockedUntil

/-- This function is the UPDATE of `rotate_session`, which an MFA change runs. -/
def rotateVersion (row : UserRow Hash) : UserRow Hash :=
  { row with tokenVersion := row.tokenVersion + 1 }

/-- A reservation is named by its budget interval and its place in the interval. -/
abbrev Reservation := Nat × Nat

/-- These are the places where a login request can be suspended. -/
inductive LoginStage (Hash : Type) where
  /-- The request has not read the row, or it has answered. -/
  | idle
  | observed (user : UserRow Hash)
  /-- The request found no lock in force. -/
  | unlocked (user : UserRow Hash)
  | reserved (user : UserRow Hash) (reservation : Reservation)
  /-- The password did not match on a reservation. -/
  | failing
  /-- The request has read the clock for the lock. -/
  | locking (reading : Nat)
  /-- The password matched on a reservation. -/
  | verified (user : UserRow Hash)
  deriving DecidableEq

/-- The state of one account, its login requests and the history of its budget. -/
structure LoginState (Hash : Type) where
  clock : Nat
  row : UserRow Hash
  requests : Nat → LoginStage Hash
  /-- The number of resets of `failed_login_count` so far. -/
  interval : Nat
  /-- The reservations that were made so far. -/
  reservations : List Reservation
  /-- The reservations on which a password was checked against the real hash. -/
  checks : List Reservation

inductive LoginEvent (Password Hash : Type) where
  | tick (instant : Nat)
  /-- A request reads the row. -/
  | read (request : Nat)
  /-- The request compares the lock with the clock; `validInput` is the shape of its payload. -/
  | check (request : Nat) (validInput : Bool)
  | reserve (request : Nat)
  | verify (request : Nat) (password : Password)
  /-- A failed request reads the clock before the lock UPDATE. -/
  | readClock (request : Nat)
  | lockExhausted (request : Nat)
  /-- A verified request runs its guarded UPDATE; a stale hash is replaced. -/
  | succeed (request : Nat) (rehashed : Option Hash)
  | update (change : UserChange Hash)
  /-- An MFA change replaces the token version. -/
  | rotateSession

/-- The login request that an event moves. -/
def LoginEvent.request? : LoginEvent Password Hash → Option Nat
  | .read request | .check request _ | .reserve request | .verify request _
  | .readClock request | .lockExhausted request | .succeed request _ => some request
  | .tick _ | .update _ | .rotateSession => none

namespace LoginState

def setRequest (s : LoginState Hash) (request : Nat) (stage : LoginStage Hash) :
    LoginState Hash :=
  { s with requests := Function.update s.requests request stage }

@[simp] theorem setRequest_self (s : LoginState Hash) (request : Nat) (stage : LoginStage Hash) :
    (s.setRequest request stage).requests request = stage :=
  Function.update_self ..

@[simp] theorem setRequest_of_ne (s : LoginState Hash) {request other : Nat}
    (different : other ≠ request) (stage : LoginStage Hash) :
    (s.setRequest request stage).requests other = s.requests other :=
  Function.update_of_ne different ..

/-- This step moves one account, `verify` being the password hasher. -/
def step [DecidableEq Hash] (verify : Hash → Password → Bool) (s : LoginState Hash) :
    LoginEvent Password Hash → Option (LoginState Hash)
  | .tick instant => if s.clock ≤ instant then some { s with clock := instant } else none
  | .read request =>
      match s.requests request with
      | .idle => some (s.setRequest request (.observed s.row))
      | _ => none
  | .check request validInput =>
      match s.requests request with
      | .observed user =>
          if validInput ∧ user.active ∧ ¬user.locked s.clock then
            some (s.setRequest request (.unlocked user))
          else some (s.setRequest request .idle)
      | _ => none
  | .reserve request =>
      match s.requests request with
      | .unlocked user =>
          match reserveAccountLoginAttempt user s.row with
          | some row =>
              some { s.setRequest request
                  (.reserved user (s.interval, s.row.failedLoginCount)) with
                row := row
                reservations := (s.interval, s.row.failedLoginCount) :: s.reservations }
          | none => some (s.setRequest request .idle)
      | _ => none
  | .verify request password =>
      match s.requests request with
      | .reserved user reservation =>
          some { s.setRequest request
              (if verify user.passwordHash password then .verified user else .failing) with
            checks := reservation :: s.checks }
      | _ => none
  | .readClock request =>
      match s.requests request with
      | .failing => some (s.setRequest request (.locking s.clock))
      | _ => none
  | .lockExhausted request =>
      match s.requests request with
      | .locking reading =>
          some { s.setRequest request .idle with
            row := lockExhaustedAccount reading s.row
            interval :=
              if loginFailureLimit ≤ s.row.failedLoginCount then s.interval + 1
              else s.interval }
      | _ => none
  | .succeed request rehashed =>
      match s.requests request with
      | .verified user =>
          match recordSuccessfulLogin user rehashed s.row with
          | some row =>
              some { s.setRequest request .idle with row := row, interval := s.interval + 1 }
          | none => some (s.setRequest request .idle)
      | _ => none
  | .update change =>
      some { s with
        row := updateUser change s.row
        interval := if change.unlock then s.interval + 1 else s.interval }
  | .rotateSession => some { s with row := rotateVersion s.row }

/-- A new account has no requests and no history. -/
def initial (clock : Nat) (passwordHash : Hash) (role : Role) : LoginState Hash where
  clock := clock
  row := insertUser passwordHash role
  requests := fun _ => .idle
  interval := 0
  reservations := []
  checks := []

end LoginState

end SubtitleTranslator.Auth
