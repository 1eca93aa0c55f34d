import SubtitleTranslator.Construction.JobTables
import SubtitleTranslator.Construction.Settings

namespace SubtitleTranslator.Server
open Library Library.Text Settings
open Jobs (JobState JobEvent recoverJob)

/-- The cipher of the stored secrets; its random part is a parameter. -/
structure Fernet where
  encrypt : Nat → Str → Str
  decrypt : Str → Option Str
  correct : ∀ random text, decrypt (encrypt random text) = some text

def isEncrypted (value : Str) : Bool := (ofString "enc:v1:").isPrefixOf value

/-- This function is `decrypt_secret`; `none` is an exception. -/
def Fernet.decryptSecret (fernet : Fernet) (value : Str) : Option Str :=
  if isEncrypted value then fernet.decrypt (value.drop 7) else some value

/-- A server is one process, or a supervisor that forks workers. -/
inductive Role where
  | supervisor
  | alone
  | worker
  deriving DecidableEq

/-- The rows that a startup seeds. -/
def Role.defaults (env : Environment) : Role → List (Str × Str)
  | .supervisor => []
  | .alone | .worker => env.defaults

/-- This is the parameter `recover_jobs`. -/
def Role.recoverJobs : Role → Bool
  | .supervisor | .alone => true
  | .worker => false

/-- These are the places of a process between two statements of its startup. -/
inductive Phase where
  /-- The process runs `_seed_and_recover`, and may have read which defaults are missing. -/
  | seeding (attempt : Nat) (missing : Option (List (Str × Str)))
  /-- The process runs `encrypt_existing_api_keys`, and may have read the secrets. -/
  | encrypting (attempt : Nat) (found : Option (List (Str × Str)))
  | supervising
  | serving
  deriving DecidableEq

structure Process where
  role : Role
  phase : Phase
  deriving DecidableEq

/-- The process may recover the jobs. -/
def Process.recovering (process : Process) : Bool :=
  match process.phase with
  | .seeding _ _ => process.role.recoverJobs
  | _ => false

/-- A job and the process of its worker. -/
structure ServerJob where
  state : JobState
  process : Nat

/-- The database and the processes, which are numbered in the order of their starts. -/
structure ServerState where
  panel : PanelState
  jobs : Nat → Option ServerJob
  processes : Nat → Option Process
  /-- The number of the processes that have started. -/
  started : Nat
  /-- The first process of this run of the server. -/
  first : Nat

inductive ServerEvent where
  /-- The server starts when none of its processes is left. -/
  | launch (supervised : Bool)
  | fork
  | readSettings (process : Nat)
  | commitSeed (process : Nat)
  /-- A statement of the startup fails. -/
  | databaseError (process : Nat)
  | readSecrets (process : Nat)
  | commitSecrets (process : Nat) (random : Nat)
  | saveSettings (process : Nat) (random : Nat) (payload : Payload)
  | deleteKey (process : Nat) (provider : Str)
  | createJob (process : Nat) (job : Nat)
  | job (process : Nat) (job : Nat) (event : JobEvent)
  | crash (process : Nat)
  | shutdown

/-- A worker takes its steps in its own process, and a signal reaches it there. -/
def takenIn (own : Bool) : JobEvent → Bool
  | .cancel _ => true
  | .signal sameProcess | .delete _ _ sameProcess => sameProcess == own
  | _ => own

/-- The startup finalizes a job that no worker runs any more. -/
def ServerJob.recover (job : ServerJob) : ServerJob :=
  { job with state := { job.state with row := job.state.row.map recoverJob } }

namespace ServerState

def setProcess (s : ServerState) (p : Nat) (process : Option Process) : ServerState :=
  { s with processes := Function.update s.processes p process }

def serves (s : ServerState) (p : Nat) : Bool :=
  (s.processes p).any fun process => process.phase = .serving

/-- This function is `retry_database_race` after a failed attempt. -/
def retry (s : ServerState) (p : Nat) (role : Role) (attempt : Nat) (phase : Nat → Phase) :
    ServerState :=
  s.setProcess p (if attempt + 1 < 8 then some ⟨role, phase (attempt + 1)⟩ else none)

/-- The insertion of a default. -/
def insertRow (rows : Str → Option Str) (entry : Str × Str) : Str → Option Str :=
  Function.update rows entry.1 (some entry.2)

/-- The loop body of `encrypt_existing_api_keys` for a row that was read. -/
def encryptRow (cipher : Str → Str) (rows : Str → Option Str) (found : Str × Str) :
    Str → Option Str :=
  if found.2 ≠ [] ∧ ¬isEncrypted found.2 then
    Function.update rows found.1 ((rows found.1).map fun _ => encryptSecret cipher found.2)
  else rows

/-- This step is one statement or one commit of a startup, or one step of a serving process. -/
def step (env : Environment) (fernet : Fernet) (s : ServerState) : ServerEvent → Option ServerState
  | .launch supervised =>
      if ∀ p < s.started, s.processes p = none then
        some { s.setProcess s.started
            (some ⟨if supervised then .supervisor else .alone, .seeding 0 none⟩) with
          started := s.started + 1
          first := s.started }
      else none
  | .fork =>
      if s.processes s.first = some ⟨.supervisor, .supervising⟩ then
        some { s.setProcess s.started (some ⟨.worker, .seeding 0 none⟩) with
          started := s.started + 1 }
      else none
  | .readSettings p =>
      match s.processes p with
      | some ⟨role, .seeding attempt none⟩ =>
          let missing := (role.defaults env).filter fun entry => (s.panel.rows entry.1).isNone
          some (s.setProcess p (some ⟨role, .seeding attempt (some missing)⟩))
      | _ => none
  | .commitSeed p =>
      match s.processes p with
      | some ⟨role, .seeding attempt (some missing)⟩ =>
          -- A row that another process has inserted has the primary key of the default.
          if missing.any fun entry => (s.panel.rows entry.1).isSome then
            some (s.retry p role attempt fun attempt => .seeding attempt none)
          else
            some { s.setProcess p
                (some ⟨role, if role = .supervisor then .supervising else .encrypting 0 none⟩) with
              panel := { s.panel with
                rows := missing.foldl insertRow s.panel.rows
                revision := s.panel.revision + 1 }
              jobs := if role.recoverJobs then fun id => (s.jobs id).map ServerJob.recover
                else s.jobs }
      | _ => none
  | .databaseError p =>
      match s.processes p with
      | some ⟨role, .seeding attempt _⟩ =>
          some (s.retry p role attempt fun attempt => .seeding attempt none)
      | some ⟨role, .encrypting attempt _⟩ =>
          some (s.retry p role attempt fun attempt => .encrypting attempt none)
      | _ => none
  | .readSecrets p =>
      match s.processes p with
      | some ⟨role, .encrypting attempt none⟩ =>
          if env.stableKeys then
            let found := secretKeys.filterMap fun key => (s.panel.rows key).map (key, ·)
            some (s.setProcess p (some ⟨role, .encrypting attempt (some found)⟩))
          else some (s.setProcess p (some ⟨role, .serving⟩))
      | _ => none
  | .commitSecrets p random =>
      match s.processes p with
      | some ⟨role, .encrypting _ (some found)⟩ =>
          if found.any fun row => (fernet.decryptSecret row.2).isNone then
            some (s.setProcess p none)
          else
            some { s.setProcess p (some ⟨role, .serving⟩) with
              panel := { s.panel with
                rows := found.foldl (encryptRow (fernet.encrypt random)) s.panel.rows
                revision := s.panel.revision + 1 } }
      | _ => none
  | .saveSettings p random payload =>
      if s.serves p then
        (s.panel.step env (.saveSettings (fernet.encrypt random) payload)).map fun panel =>
          { s with panel := panel }
      else none
  | .deleteKey p provider =>
      if s.serves p then
        (s.panel.step env (.deleteKey provider)).map fun panel => { s with panel := panel }
      else none
  | .createJob p id =>
      if s.serves p ∧ (s.jobs id).isNone then
        some { s with jobs := Function.update s.jobs id (some ⟨.initial, p⟩) }
      else none
  | .job p id event =>
      match s.jobs id with
      | some job =>
          if s.serves p ∧ takenIn (job.process == p) event then
            (job.state.step event).map fun state =>
              { s with jobs := Function.update s.jobs id (some { job with state := state }) }
          else none
      | none => none
  | .crash p =>
      match s.processes p with
      | some ⟨.worker, _⟩ => some (s.setProcess p none)
      | _ => none
  | .shutdown => some { s with processes := fun _ => none }

/-- Before its first start the server has no jobs. -/
def initial (panel : PanelState) : ServerState where
  panel := panel
  jobs := fun _ => none
  processes := fun _ => none
  started := 0
  first := 0

end ServerState

end SubtitleTranslator.Server
