import SubtitleTranslator.Construction.ReadCache

namespace SubtitleTranslator.Jobs
open Library Text
open Auth (Role)

abbrev Bytes := List UInt8

/-- These are the translations of a request's locale. -/
structure Locale where
  tr : String → String
  localizedJobStage : String → String
  localizedJobWarning : Option String → Option String

/-- The start of the cache keys, the name of an archive of outputs and its contents. -/
structure Deployment where
  keyStart : Str
  archiveName : List String → String
  zip : List (String × Bytes) → Bytes

/-- This is a job as a response shows it; the owner is there on the page of all jobs. -/
structure JobView where
  id : Str
  filename : Str
  status : Status
  progress : Nat
  stage : String
  options : Str
  outputs : List Output
  error : Option String
  warning : Option String
  createdAt : Str
  updatedAt : Str
  owner : Option (Option Str)
  deriving DecidableEq

inductive Response where
  | error (text : String) (status : Nat)
  | page (jobs : List JobView) (total : Nat) (counts : List (Status × Nat)) (offset limit : Nat)
      (hasMore : Bool)
  | job (view : JobView) (status : Nat)
  | deleted (jobId : Str)
  | file (content : Bytes) (downloadName : Str)
  deriving DecidableEq

/-- The state of the panel that the job requests read or write. -/
structure Panel where
  tables : Tables
  /-- The files of the job folders. -/
  files : Str → String → Option Bytes
  produced : List Payload
  /-- These are the revisions that any version has carried. -/
  used : List HexId
  answers : List (HexId × Response)

/-- What Redis does during one cached read. -/
structure RedisReading where
  available : Bool
  stillAvailable : Bool
  answer : CacheAnswer

/-- What a request depends on besides the panel. -/
structure Environment where
  locale : Locale
  now : Str
  removal : Removal
  /-- These are the files that a failed removal leaves. -/
  left : String → Bool

/-- The set is `SUBMITTER_VISIBLE_ERRORS`. -/
def submitterVisibleErrors : List String :=
  ["SubtitleFormatError", "UnicodeDecodeError", "UnicodeError", "LookupError"]

/-- This function is `visible_job_error`. -/
def visibleJobError (locale : Locale) (role : Role) (error : Option String) : Option String :=
  error.map fun text =>
    if text = "" ∨ role = .admin then text
    else if String.ofList (text.toList.takeWhile (· ≠ ':')) ∈ submitterVisibleErrors then text
    else locale.tr
      "Translation failed. An administrator can see the details in the translation history."

/-- This function is `job_dict`. -/
def jobDict (locale : Locale) (viewer : Account) (owner : Option (Option Str)) (job : JobRecord) :
    JobView where
  id := job.id
  filename := job.filename
  status := job.row.status
  progress := job.row.progress
  stage := locale.localizedJobStage job.row.stage
  options := job.options
  outputs := job.row.outputs
  error := visibleJobError locale viewer.role job.row.error
  warning := locale.localizedJobWarning job.row.warning
  createdAt := job.createdAt
  updatedAt := job.updatedAt
  owner := owner

/-- This function is `bounded_int_arg`; garbage is no value. -/
def boundedIntArg (value : Option Int) (default minimum maximum : Int) : Nat :=
  (min (max (value.getD default) minimum) maximum).toNat

def jobListMaxOffset : Int := 1000000

/-- This function is `cached_rows` with no commit during the read. -/
def cachedRows (deployment : Deployment) (reading : RedisReading) (scope : CacheScope) (s : Panel) :
    Rows × Panel :=
  let rows := scope.rows s.tables
  if ¬reading.available then (rows, s)
  else
    match s.tables.revisions scope.name with
    | none => (rows, s)
    | some revision =>
        let key := cacheKey deployment.keyStart scope revision
        match remember reading.stillAvailable key reading.answer with
        | .value cached => (cached, s)
        | .load store => (rows, if store then { s with produced := ⟨key, rows⟩ :: s.produced } else s)

def Rows.paged : Rows → List (JobRecord × Option Str)
  | .page rows => rows
  | _ => []

def Rows.counted : Rows → List (Status × Nat)
  | .counts rows => rows
  | _ => []

def Rows.detailed : Rows → List JobRecord
  | .jobs rows => rows
  | _ => []

/-- This function is `list_jobs`. -/
def listJobs (deployment : Deployment) (locale : Locale) (user : Account)
    (limit offset : Option Int) (all : Bool) (pageReading countReading : RedisReading) (s : Panel) :
    Response × Panel :=
  let limit := boundedIntArg limit 50 1 200
  let offset := boundedIntArg offset 0 0 jobListMaxOffset
  let showAll := user.role = .admin && all
  let owner := if showAll then none else some user.id
  let page := cachedRows deployment pageReading (.list owner limit offset) s
  let rows := page.1.paged
  let count := cachedRows deployment countReading (.counts owner) page.2
  let counts := count.1.counted
  let total := (counts.map Prod.snd).sum
  (.page (rows.map fun row => jobDict locale user (if showAll then some row.2 else none) row.1)
    total counts offset limit (offset + rows.length < total), count.2)

def jobNotFound (locale : Locale) : Response := .error (locale.tr "Job not found") 404

/-- This function is `get_job`. -/
def getJob (deployment : Deployment) (locale : Locale) (user : Account) (jobId : Str)
    (reading : RedisReading) (s : Panel) : Response × Panel :=
  let detail := cachedRows deployment reading (.detail user.role user.id jobId) s
  match detail.1.detailed.head? with
  | some job => (.job (jobDict locale user none job) 200, detail.2)
  | none => (jobNotFound locale, detail.2)

/-- This function is `owned_job`. -/
def ownedJob (jobId : Str) (user : Account) (tables : Tables) : Option JobRecord :=
  tables.jobs.rows.find? (jobScope jobId user.role user.id)

/-- This function is the request `cancel_job`. -/
def cancelRequest (locale : Locale) (user : Account) (jobId now : Str) (fresh : HexId) (s : Panel) :
    Response × Panel :=
  match ownedJob jobId user s.tables with
  | none => (jobNotFound locale, s)
  | some before =>
      let s := { s with tables := cancelWrite jobId user.role user.id now fresh s.tables }
      match ownedJob jobId user s.tables with
      | none => (jobNotFound locale, s)
      | some job =>
          if job.row.status = .canceling ∨
              ((cancelRow before.row).2 ∧ job.row.status = .canceled) then
            (.job (jobDict locale user none job) 202, s)
          else (.error (locale.tr "Only an active job can be canceled") 409, s)

/-- The function replaces the files of a job folder. -/
def Panel.setFolder (s : Panel) (jobId : Str) (folder : String → Option Bytes) : Panel :=
  { s with files := Function.update s.files jobId folder }

/-- This function is the request `delete_job`. -/
def deleteRequest (environment : Environment) (user : Account) (jobId : Str) (fresh : HexId)
    (s : Panel) : Response × Panel :=
  let locale := environment.locale
  match ownedJob jobId user s.tables with
  | none => (jobNotFound locale, s)
  | some job =>
      if ¬job.row.status.terminal then
        (.error (locale.tr "Wait for the job to finish before deleting it") 409, s)
      else
        match environment.removal with
        | .invalidPath => (.error (locale.tr "Invalid job path") 400, s)
        | .failed =>
            (.error (locale.tr "Could not delete the job files") 500,
              s.setFolder jobId fun name =>
                if environment.left name then s.files jobId name else none)
        | .removed =>
            (.deleted jobId,
              { s with tables := deleteWrite jobId fresh s.tables }.setFolder jobId fun _ => none)

def outputNotFound (locale : Locale) : Response := .error (locale.tr "Output not found") 404

/-- This function is `download_output`. -/
def downloadOutput (locale : Locale) (user : Account) (jobId : Str) (name : String) (s : Panel) :
    Response :=
  match ownedJob jobId user s.tables with
  | none => jobNotFound locale
  | some job =>
      if name ∉ job.row.outputs.map Output.name then outputNotFound locale
      else
        match s.files jobId name with
        | none => outputNotFound locale
        | some content => .file content (ofString name)

/-- This function is the `stem` of a file name. -/
def stem (name : Str) : Str :=
  let front := ((name.reverse.dropWhile (· ≠ 0x2e)).drop 1).reverse
  if 0x2e ∈ name ∧ front ≠ [] ∧ name.getLast? ≠ some 0x2e then front else name

/-- This function is `download_all` with `build_archive`. -/
def downloadAll (deployment : Deployment) (locale : Locale) (user : Account) (jobId : Str)
    (s : Panel) : Response × Panel :=
  match ownedJob jobId user s.tables with
  | none => (jobNotFound locale, s)
  | some job =>
      match job.row.outputs with
      | [] => (.error (locale.tr "No outputs are ready") 404, s)
      | [output] => (downloadOutput locale user jobId output.name s, s)
      | outputs =>
          let names := outputs.map Output.name
          let archive := deployment.archiveName names
          let downloadName := stem job.filename ++ ofString ".translations.zip"
          match s.files jobId archive with
          | some content => (.file content downloadName, s)
          | none =>
              match names.mapM fun name => (s.files jobId name).map (Prod.mk name) with
              | none => (outputNotFound locale, s)
              | some parts =>
                  let content := deployment.zip parts
                  (.file content downloadName,
                    s.setFolder jobId (Function.update (s.files jobId) archive (some content)))

/-- These are the requests about jobs. -/
inductive Request where
  | listJobs (limit offset : Option Int) (all : Bool)
  | getJob (jobId : Str)
  | cancelJob (jobId : Str)
  | deleteJob (jobId : Str)
  | downloadOutput (jobId : Str) (name : String)
  | downloadAll (jobId : Str)

/-- This function answers a request of an account. -/
def handle (deployment : Deployment) (user : Account) (request : Request)
    (environment : Environment) (first second : RedisReading) (fresh : HexId) (s : Panel) :
    Response × Panel :=
  match request with
  | .listJobs limit offset all =>
      listJobs deployment environment.locale user limit offset all first second s
  | .getJob jobId => getJob deployment environment.locale user jobId first s
  | .cancelJob jobId => cancelRequest environment.locale user jobId environment.now fresh s
  | .deleteJob jobId => deleteRequest environment user jobId fresh s
  | .downloadOutput jobId name => (downloadOutput environment.locale user jobId name s, s)
  | .downloadAll jobId => downloadAll deployment environment.locale user jobId s

/-- This function answers a request of a signed-in user; a user without a row has no valid token. -/
def answer (deployment : Deployment) (user : HexId) (request : Request) (environment : Environment)
    (first second : RedisReading) (fresh : HexId) (s : Panel) : Response × Panel :=
  match s.tables.user? user with
  | none => (.error (environment.locale.tr "Authentication token revoked") 401, s)
  | some account => handle deployment account request environment first second fresh s

inductive PanelEvent where
  | request (user : HexId) (request : Request) (environment : Environment)
      (first second : RedisReading) (fresh : HexId)
  /-- A worker, a settings request or an account request commits. -/
  | write (write : Write) (fresh : CacheName → HexId)
  /-- A worker or an upload writes a file. -/
  | writeFile (jobId : Str) (name : String) (content : Option Bytes)

namespace Panel

/-- This step is one whole request or one commit of another program part. -/
def step (deployment : Deployment) (s : Panel) : PanelEvent → Option Panel
  | .request user request environment first second fresh =>
      if first.answer.authentic s.produced ∧ second.answer.authentic s.produced ∧
          fresh ∉ s.used then
        let answered := answer deployment user request environment first second fresh s
        some { answered.2 with
          used := fresh :: answered.2.used
          answers := answered.2.answers ++ [(user, answered.1)] }
      else none
  | .write write fresh =>
      if fresh .settings ∉ s.used ∧ fresh .jobs ∉ s.used then
        (write.commit fresh s.tables).map fun tables =>
          { s with tables := tables, used := fresh .settings :: fresh .jobs :: s.used }
      else none
  | .writeFile jobId name content =>
      some (s.setFolder jobId (Function.update (s.files jobId) name content))

/-- A panel starts with any tables and files and with an empty cache. -/
def initial (tables : Tables) (files : Str → String → Option Bytes) : Panel where
  tables := tables
  files := files
  produced := []
  used := (tables.revisions .settings).toList ++ (tables.revisions .jobs).toList
  answers := []

/-- These are the answers that a user has received. -/
def answersTo (s : Panel) (user : HexId) : List Response :=
  s.answers.filterMap fun row => if row.1 = user then some row.2 else none

end Panel

/-- The request of an event when it is one of the user. -/
def PanelEvent.requestOf (user : HexId) : PanelEvent → Option (Request × Environment)
  | .request sender asked environment _ _ _ =>
      if sender = user then some (asked, environment) else none
  | .write .. | .writeFile .. => none

end SubtitleTranslator.Jobs
