import SubtitleTranslator.Construction.Engine
import SubtitleTranslator.Construction.JobTables
import SubtitleTranslator.Construction.Quota
import SubtitleTranslator.Construction.Settings
import SubtitleTranslator.Construction.UploadNames

namespace SubtitleTranslator.Jobs
open Library Text

/-- A file of the form; the client may send no name. -/
structure Upload where
  filename : Option Str
  content : List UInt8

/-- The form that `create_jobs` reads. -/
structure JobForm where
  files : List Upload
  provider : Option Str
  model : Option Str
  sourceLanguage : Option Str
  targetLanguages : Option Str
  encoding : Option Str

/-- The dictionary `options`; the numbers are the texts of the settings. -/
structure JobOptions where
  provider : Str
  model : Option Str
  sourceLanguage : Str
  targetLanguages : List Str
  encoding : Str
  batchSize : Str
  workers : Str
  rpm : Str
  width : Str
  maxLines : Str

def maxTargetLanguages : Nat := 20

/-- A form that `create_jobs` refuses. -/
inductive FormError where
  | noFiles
  | unsupportedFile (filename : Option Str)
  | invalidProvider
  | invalidTargets
  | tooManyTargets (maximum : Nat)
  deriving DecidableEq

/-- These texts are the catalog keys. -/
def FormError.text : FormError → String
  | .noFiles => "Select at least one subtitle file"
  | .unsupportedFile _ => "Unsupported file: \x7bfilename\x7d"
  | .invalidProvider => "Invalid provider"
  | .invalidTargets => "Choose one or more valid target languages"
  | .tooManyTargets _ => "Choose at most \x7bmaximum\x7d target languages"

inductive SubmitAnswer where
  | captchaFailed (text : Str) (status : Nat)
  | invalid (error : FormError)
  | limited (exceeded : Quotas.Exceeded)
  /-- An exception that nothing handles is an internal error. -/
  | raised
  | created (jobs : List HexId)
  deriving DecidableEq

def SubmitAnswer.status : SubmitAnswer → Nat
  | .captchaFailed _ status => status
  | .invalid _ => 400
  | .limited _ => 429
  | .raised => 500
  | .created _ => 202

/-- The files of a job folder by their names. -/
abbrev Folder := Str → Option (List UInt8)

/-- The state that `create_jobs` reads or writes: the database and the folders in `JOBS_DIR`. -/
structure JobStore where
  tables : Tables
  limits : Quotas.RateLimits
  buckets : Quotas.Buckets
  folders : HexId → Option Folder

/-- These are the operations that raise. A save that raises leaves a part of the file, or none. -/
structure Faults where
  makeFolder : Nat → Bool
  save : Nat → Option (Option (List UInt8))
  startTransaction : Bool
  quota : Bool
  insert : Nat → Bool
  bump : Bool
  commit : Bool

/-- What a request depends on besides its form and the state: the account of its token, the failure
that `verify_captcha` answers, the drawn identifiers, the clock and the faults. -/
structure SubmitEnvironment where
  settings : Settings.Environment
  data : UnicodeData
  dumps : JobOptions → Str
  captcha : Option (Str × Nat)
  user : Option Account
  jobId : Nat → HexId
  revision : HexId
  timestamp : Str
  clock : Nat
  faults : Faults

/-- The value of a hexadecimal identifier, which names the usage buckets of an account. -/
def HexId.number (id : HexId) : Nat :=
  id.text.foldl (fun value c =>
    16 * value + if isAsciiDigit c then c.val - 0x30 else c.val - 0x57) 0

/-- The loop of `create_jobs` that validates the names. -/
def validatedFiles (data : UnicodeData) (files : List Upload) :
    Except SubmitAnswer (List (Upload × Str)) :=
  files.mapM fun upload =>
    match uploadDisplayName data (upload.filename.getD []) with
    | .error _ => .error .raised
    | .ok none => .error (.invalid (.unsupportedFile upload.filename))
    | .ok (some original) => .ok (upload, original)

/-- The keys of `LANGS`. -/
def languageKeys : List Str :=
  [Engine.Language.zhTw, .zhCn, .ja, .ko, .es, .fr, .de, .it, .ptBr, .ru, .nl, .pl, .tr, .uk,
    .id].map Engine.Language.key

/-- The target languages of a form without duplicates. -/
def formTargets (listed : Str) : List Str :=
  (((listed.splitOn 0x2c).map strip).filter (· ≠ [])).eraseDups

/-- This function is `create_jobs` up to its staging. -/
def validateForm (env : SubmitEnvironment) (form : JobForm) (tables : Tables) :
    Except SubmitAnswer (List (Upload × Str) × JobOptions) :=
  match env.captcha with
  | some (text, status) => .error (.captchaFailed text status)
  | none =>
      if form.files.all fun upload => upload.filename.getD [] = [] then .error (.invalid .noFiles)
      else
        match validatedFiles env.data form.files with
        | .error answer => .error answer
        | .ok files =>
            let rows := fun key => List.lookup key tables.settings
            let setting := fun name =>
              (Settings.viewValue env.settings rows (ofString name)).getD []
            let provider := form.provider.getD (setting "default_provider")
            let targets := formTargets (form.targetLanguages.getD (setting "target_languages"))
            let model := strip (form.model.getD [])
            if provider ∉ env.settings.availableProviders then .error (.invalid .invalidProvider)
            else if targets = [] ∨ targets.any (· ∉ languageKeys) then
              .error (.invalid .invalidTargets)
            else if maxTargetLanguages < targets.length then
              .error (.invalid (.tooManyTargets maxTargetLanguages))
            else
              .ok (files,
                { provider := provider
                  model := if model = [] then none else some model
                  sourceLanguage := strip (form.sourceLanguage.getD (setting "source_language"))
                  targetLanguages := targets
                  encoding := strip (form.encoding.getD (ofString "utf-8"))
                  batchSize := setting "batch_size"
                  workers := setting "workers"
                  rpm := setting "rpm"
                  width := setting "width"
                  maxLines := setting "max_lines" })

/-- One entry of `pending`; its folder is that of the job. -/
structure PendingJob where
  jobId : HexId
  original : Str
  stored : Str

/-- This function is `Path(name).suffix` for a name without separators. -/
def pathSuffix (name : Str) : Str :=
  match rpartition? 0x2e name with
  | none => []
  | some (front, back) => if front = [] ∨ back = [] then [] else ofString "." ++ back

def storedName (original : Str) : Str := ofString "source" ++ lower (pathSuffix original)

/-- A folder with one file, or with none when nothing was written. -/
def Folder.single (stored : Str) (content : Option (List UInt8)) : Folder :=
  fun name => if name = stored then content else none

/-- The staging of a request: whether it went through, its entries and the folders after it. -/
structure Staging where
  complete : Bool
  pending : List PendingJob
  folders : HexId → Option Folder

/-- The staging loop of `create_jobs` from its `k`-th file on. -/
def stageFiles (env : SubmitEnvironment) : Nat → List (Upload × Str) → List PendingJob →
    (HexId → Option Folder) → Staging
  | _, [], pending, folders => ⟨true, pending, folders⟩
  | k, (upload, original) :: rest, pending, folders =>
      let jobId := env.jobId k
      let stored := storedName original
      -- A folder that exists makes `mkdir` raise as well.
      if env.faults.makeFolder k ∨ (folders jobId).isSome then ⟨false, pending, folders⟩
      else
        match env.faults.save k with
        | some part =>
            ⟨false, pending, Function.update folders jobId (some (Folder.single stored part))⟩
        | none =>
            stageFiles env (k + 1) rest (pending ++ [⟨jobId, original, stored⟩])
              (Function.update folders jobId (some (Folder.single stored (some upload.content))))

/-- This loop removes the folders of the entries. -/
def removeFolders (pending : List PendingJob) (folders : HexId → Option Folder) :
    HexId → Option Folder :=
  pending.foldl (fun folders job => Function.update folders job.jobId none) folders

/-- The row of a new job. -/
def newJob (env : SubmitEnvironment) (user : Account) (options : JobOptions) (job : PendingJob) :
    JobRecord where
  id := job.jobId.text
  userId := some user.id
  filename := job.original
  storedName := job.stored
  row :=
    { status := .queued
      progress := 0
      stage := ""
      outputs := []
      error := none
      warning := none }
  options := env.dumps options
  createdAt := env.timestamp
  updatedAt := env.timestamp

/-- The loop of `create_jobs` that inserts the rows; `none` is an exception. -/
def insertJobs (env : SubmitEnvironment) (user : Account) (options : JobOptions) :
    Nat → List PendingJob → JobTable → Option JobTable
  | _, [], table => some table
  | k, job :: rest, table =>
      if env.faults.insert k then none
      else
        match table.insert [newJob env user options job] with
        | none => none
        | some table => insertJobs env user options (k + 1) rest table

/-- The statements of the transaction: the exceeded limit and the database after them, or an
exception. -/
def submitStatements (env : SubmitEnvironment) (options : JobOptions) (pending : List PendingJob)
    (s : JobStore) : Option (Option Quotas.Exceeded × JobStore) :=
  match env.user with
  | none => none
  | some user =>
      if env.faults.startTransaction ∨ env.faults.quota then none
      else
        match Quotas.consumeJobQuota s.limits s.buckets user.id.number user.role pending.length
            env.clock with
        | .error exceeded => some (some exceeded, s)
        | .ok buckets =>
            match insertJobs env user options 0 pending s.tables.jobs with
            | none => none
            | some jobs =>
                if env.faults.bump then none
                else
                  some (none,
                    { s with
                      tables := bumpCacheRevision .jobs env.revision { s.tables with jobs := jobs }
                      buckets := buckets })

/-- A transaction that raises is rolled back, and one that cannot commit raises. -/
def submitTransaction (env : SubmitEnvironment) (options : JobOptions) (pending : List PendingJob)
    (s : JobStore) : Option (Option Quotas.Exceeded × JobStore) :=
  if env.faults.commit then none else submitStatements env options pending s

/-- This function is `create_jobs` up to the calls of `executor.submit`. -/
def createJobs (env : SubmitEnvironment) (form : JobForm) (s : JobStore) :
    SubmitAnswer × JobStore :=
  match validateForm env form s.tables with
  | .error answer => (answer, s)
  | .ok (files, options) =>
      let staging := stageFiles env 0 files [] s.folders
      let cleaned := { s with folders := removeFolders staging.pending staging.folders }
      if staging.complete = false then (.raised, cleaned)
      else
        let staged := { s with folders := staging.folders }
        match submitTransaction env options staging.pending staged with
        | none => (.raised, cleaned)
        | some (some exceeded, after) =>
            (.limited exceeded,
              { after with folders := removeFolders staging.pending after.folders })
        | some (none, after) => (.created (staging.pending.map PendingJob.jobId), after)

end SubtitleTranslator.Jobs
