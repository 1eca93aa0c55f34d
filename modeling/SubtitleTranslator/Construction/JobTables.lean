import SubtitleTranslator.Construction.Jobs
import SubtitleTranslator.Construction.Login
import SubtitleTranslator.Library.Text

namespace SubtitleTranslator.Jobs
open Library Text
open Auth (Role)

/-- These are the digits of `uuid4().hex`. -/
def isHexDigit (c : CodePoint) : Bool := isAsciiDigit c || (0x61 ≤ c.val && c.val ≤ 0x66)

/-- A random identifier is the text of 32 hexadecimal digits. -/
structure HexId where
  text : Str
  length_eq : text.length = 32
  hex : text.all isHexDigit = true
  deriving DecidableEq

/-- These are the columns of a `jobs` row besides its key. -/
structure JobColumns where
  userId : Option HexId
  filename : Str
  storedName : Str
  row : JobRow
  options : Str
  createdAt : Str
  updatedAt : Str
  deriving DecidableEq

structure JobRecord extends JobColumns where
  id : Str
  deriving DecidableEq

/-- The table `jobs`; its primary key is the job id. -/
structure JobTable where
  rows : List JobRecord
  keyed : (rows.map JobRecord.id).Nodup

namespace JobTable

/-- This function writes columns of the selected rows. -/
def update (table : JobTable) (selected : JobRecord → Bool) (set : JobColumns → JobColumns) :
    JobTable where
  rows := table.rows.map fun job =>
    if selected job then { job with toJobColumns := set job.toJobColumns } else job
  keyed := by
    rw [List.map_map]
    have same : (JobRecord.id ∘ fun job : JobRecord =>
        if selected job then { job with toJobColumns := set job.toJobColumns } else job) =
        JobRecord.id := by
      funext job
      show (if selected job then _ else job : JobRecord).id = job.id
      split <;> rfl
    rw [same]
    exact table.keyed

/-- This function removes the selected rows. -/
def delete (table : JobTable) (selected : JobRecord → Bool) : JobTable where
  rows := table.rows.filter fun job => !selected job
  keyed := (List.filter_sublist.map _).nodup table.keyed

/-- This function inserts rows; a key that exists is an integrity error. -/
def insert (table : JobTable) (jobs : List JobRecord) : Option JobTable :=
  if keyed : ((table.rows ++ jobs).map JobRecord.id).Nodup then some ⟨table.rows ++ jobs, keyed⟩
  else none

end JobTable

/-- These are the columns of a `users` row that the job requests and their caches read. -/
structure Account where
  id : HexId
  username : Str
  role : Role
  deriving DecidableEq

/-- These are the names of the cache revisions. -/
inductive CacheName where
  | settings
  | jobs
  deriving DecidableEq

def CacheName.text : CacheName → Str
  | .settings => ofString "settings"
  | .jobs => ofString "jobs"

/-- The tables that the cached reads select from and their revisions. -/
structure Tables where
  users : List Account
  jobs : JobTable
  settings : List (Str × Str)
  revisions : CacheName → Option HexId

/-- The function takes the user row of an id. -/
def Tables.user? (tables : Tables) (id : HexId) : Option Account :=
  tables.users.find? fun account => account.id = id

/-- The function is `bump_cache_revision`: it updates a revision that exists. -/
def bumpCacheRevision (name : CacheName) (revision : HexId) (tables : Tables) : Tables :=
  { tables with
    revisions := Function.update tables.revisions name
      ((tables.revisions name).map fun _ => revision) }

/-- This function is the condition of `job_scope`. -/
def jobScope (jobId : Str) (role : Role) (user : HexId) (job : JobRecord) : Bool :=
  job.id = jobId && (role = .admin || job.userId = some user)

/-- These are the statements of the cached reads, with their parameters. -/
inductive CacheScope where
  | settings
  /-- A page of the jobs of one owner, or of all jobs. -/
  | list (owner : Option HexId) (limit offset : Nat)
  | counts (owner : Option HexId)
  | detail (role : Role) (user : HexId) (jobId : Str)
  deriving DecidableEq

/-- The function takes the `name` of a cached read. -/
def CacheScope.name : CacheScope → CacheName
  | .settings => .settings
  | .list .. | .counts _ | .detail .. => .jobs

def roleText : Role → Str
  | .admin => ofString "admin"
  | .user => ofString "user"

/-- The text of the variable `scope` of `list_jobs`. -/
def ownerText : Option HexId → Str
  | none => ofString "all"
  | some user => user.text

/-- The function takes the `scope` text of a cached read. -/
def CacheScope.text : CacheScope → Str
  | .settings => ofString "all"
  | .list owner limit offset =>
      ofString "list:" ++ ownerText owner ++ ofString ":" ++ decimal limit ++ ofString ":" ++
        decimal offset
  | .counts owner => ofString "counts:" ++ ownerText owner
  | .detail role user jobId =>
      ofString "detail:" ++ roleText role ++ ofString ":" ++ user.text ++ ofString ":" ++ jobId

/-- These are the rows that a cached read returns. -/
inductive Rows where
  | settings (rows : List (Str × Str))
  /-- Each job has its owner's name. -/
  | page (rows : List (JobRecord × Option Str))
  | counts (rows : List (Status × Nat))
  | jobs (rows : List JobRecord)
  deriving DecidableEq

/-- The order of a page is by creation, the newest first, and then by id. -/
def newestFirst (a b : JobRecord) : Bool :=
  b.createdAt < a.createdAt || (a.createdAt = b.createdAt && b.id ≤ a.id)

/-- The `where` clause of an owner; without an owner all jobs are selected. -/
def ownedBy (owner : Option HexId) (job : JobRecord) : Bool :=
  match owner with
  | none => true
  | some user => job.userId = some user

/-- The function joins a job with its owner's name. -/
def withOwner (tables : Tables) (job : JobRecord) : JobRecord × Option Str :=
  (job, (job.userId.bind tables.user?).map Account.username)

def allStatuses : List Status := [.queued, .processing, .canceling, .completed, .failed, .canceled]

/-- This function runs the statement of a cached read. -/
def CacheScope.rows (tables : Tables) : CacheScope → Rows
  | .settings => .settings tables.settings
  | .list owner limit offset =>
      .page (((((tables.jobs.rows.filter (ownedBy owner)).mergeSort newestFirst).drop
        offset).take limit).map (withOwner tables))
  | .counts owner =>
      let owned := tables.jobs.rows.filter (ownedBy owner)
      .counts ((allStatuses.map fun status =>
        (status, owned.countP fun job => job.row.status = status)).filter fun row => row.2 ≠ 0)
  | .detail role user jobId => .jobs (tables.jobs.rows.filter (jobScope jobId role user))

/-- This function is `_write_job`; `none` stands for a write without a status condition. -/
def writeJob (jobId : Str) (statuses : Option (List Status)) (fields : JobRow → JobRow)
    (timestamp : Str) (revision : HexId) (tables : Tables) : Tables :=
  let selected (job : JobRecord) : Bool :=
    job.id = jobId && statuses.all fun listed => job.row.status ∈ listed
  if tables.jobs.rows.any selected then
    bumpCacheRevision .jobs revision
      { tables with
        jobs := tables.jobs.update selected fun job =>
          { job with row := fields job.row, updatedAt := timestamp } }
  else tables

/-- The write of `cancel_job`. -/
def cancelWrite (jobId : Str) (role : Role) (user : HexId) (timestamp : Str) (revision : HexId)
    (tables : Tables) : Tables :=
  let selected (job : JobRecord) : Bool := jobScope jobId role user job && (cancelRow job.row).2
  if tables.jobs.rows.any selected then
    bumpCacheRevision .jobs revision
      { tables with
        jobs := tables.jobs.update selected fun job =>
          { job with row := (cancelRow job.row).1, updatedAt := timestamp } }
  else tables

/-- The write of `delete_job` after its checks. -/
def deleteWrite (jobId : Str) (revision : HexId) (tables : Tables) : Tables :=
  bumpCacheRevision .jobs revision
    { tables with jobs := tables.jobs.delete fun job => job.id = jobId }

/-- This function writes one setting, updating its row or inserting it. -/
def writeSetting (settings : List (Str × Str)) (key value : Str) : List (Str × Str) :=
  if settings.any fun row => row.1 = key then
    settings.map fun row => if row.1 = key then (key, value) else row
  else settings ++ [(key, value)]

/-- This setting is never read. -/
def setupMarker : Str := ofString "_auth_setup_complete"

/-- These are the transactions that commit a change of the tables. -/
inductive Write where
  | createJobs (jobs : List JobRecord)
  | writeJob (jobId : Str) (statuses : Option (List Status)) (fields : JobRow → JobRow)
      (timestamp : Str)
  | cancelJob (jobId : Str) (role : Role) (user : HexId) (timestamp : Str)
  | deleteJob (jobId : Str)
  | deleteUser (user : HexId)
  /-- The first administrator takes the jobs without an owner. -/
  | setupFirstAdmin (admin : Account)
  | saveSettings (values : List (Str × Str))
  | deleteKey (key : Str)
  /-- The stored secrets of an earlier version are replaced by their encryption. -/
  | encryptExistingApiKeys (secretKeys : List Str) (encrypt : Str → Str)
  | initializeDatabase (defaults : List (Str × Str)) (recoverJobs : Bool) (timestamp : Str)
  /-- Another change of the accounts writes no job, setting or revision. -/
  | writeAccounts (users : List Account)

/-- The recovery of an interrupted job at startup. -/
def recoverJob (job : JobRow) : JobRow :=
  match job.status with
  | .queued | .processing =>
      { job with
        status := .failed
        stage := "Translation failed"
        error := some "The server restarted before this job finished" }
  | .canceling => { job with status := .canceled, stage := "Canceled", error := none }
  | _ => job

/-- This function is `_seed_and_recover` on the modelled tables. -/
def seedAndRecover (defaults : List (Str × Str)) (recoverJobs : Bool) (timestamp : Str)
    (fresh : CacheName → HexId) (tables : Tables) : Tables where
  users := tables.users
  jobs :=
    if recoverJobs then
      tables.jobs.update (fun job => !job.row.status.terminal) fun job =>
        { job with row := recoverJob job.row, updatedAt := timestamp }
    else tables.jobs
  settings :=
    tables.settings ++ defaults.filter fun row =>
      !tables.settings.any fun existing => existing.1 = row.1
  revisions := fun name => some (fresh name)

/-- This function commits a write; `none` is an integrity error. -/
def Write.commit (fresh : CacheName → HexId) (tables : Tables) : Write → Option Tables
  | .createJobs jobs =>
      (tables.jobs.insert jobs).map fun table =>
        bumpCacheRevision .jobs (fresh .jobs) { tables with jobs := table }
  | .writeJob jobId statuses fields timestamp =>
      some (Jobs.writeJob jobId statuses fields timestamp (fresh .jobs) tables)
  | .cancelJob jobId role user timestamp =>
      some (cancelWrite jobId role user timestamp (fresh .jobs) tables)
  | .deleteJob jobId => some (deleteWrite jobId (fresh .jobs) tables)
  | .deleteUser user =>
      some (bumpCacheRevision .jobs (fresh .jobs)
        { tables with
          users := tables.users.filter fun account => account.id ≠ user
          jobs := tables.jobs.update (fun job => job.userId = some user) fun job =>
            { job with userId := none } })
  | .setupFirstAdmin admin =>
      if tables.users ≠ [] ∨ tables.settings.any (fun row => row.1 = setupMarker) then none
      else
        some (bumpCacheRevision .jobs (fresh .jobs)
          { tables with
            users := [admin]
            jobs := tables.jobs.update (fun job => job.userId = none) fun job =>
              { job with userId := some admin.id }
            settings := tables.settings ++ [(setupMarker, ofString "1")] })
  | .saveSettings values =>
      some (bumpCacheRevision .settings (fresh .settings)
        { tables with
          settings := values.foldl (fun settings row => writeSetting settings row.1 row.2)
            tables.settings })
  | .deleteKey key =>
      some (bumpCacheRevision .settings (fresh .settings)
        { tables with settings := tables.settings.filter fun row => row.1 ≠ key })
  | .encryptExistingApiKeys secretKeys encrypt =>
      some (bumpCacheRevision .settings (fresh .settings)
        { tables with
          settings := tables.settings.map fun row =>
            if row.1 ∈ secretKeys ∧ row.2 ≠ [] ∧ ¬(ofString "enc:v1:").isPrefixOf row.2 then
              (row.1, encrypt row.2)
            else row })
  | .initializeDatabase defaults recoverJobs timestamp =>
      some (seedAndRecover defaults recoverJobs timestamp fresh tables)
  | .writeAccounts users => some { tables with users := users }

end SubtitleTranslator.Jobs
