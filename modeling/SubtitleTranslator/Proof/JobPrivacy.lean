import SubtitleTranslator.Proof.JobScopes

namespace SubtitleTranslator.Jobs
open Library Text
open Auth (Role)

variable {deployment : Deployment}

/-- Two panels have the same account, the same jobs of the user and the same files of these jobs. -/
structure Agree (user : HexId) (s t : Panel) : Prop where
  account : s.tables.user? user = t.tables.user? user
  jobs : own user s.tables = own user t.tables
  files : ∀ job ∈ own user s.tables, s.files job.id = t.files job.id

theorem Agree.refl (user : HexId) (s : Panel) : Agree user s s := ⟨rfl, rfl, fun _ _ => rfl⟩

theorem Agree.symm {user : HexId} {s t : Panel} (agree : Agree user s t) : Agree user t s where
  account := agree.account.symm
  jobs := agree.jobs.symm
  files job member := (agree.files job (agree.jobs ▸ member)).symm

theorem Agree.trans {user : HexId} {s t v : Panel} (first : Agree user s t)
    (second : Agree user t v) : Agree user s v where
  account := first.account.trans second.account
  jobs := first.jobs.trans second.jobs
  files job member := (first.files job member).trans (second.files job (first.jobs ▸ member))

/-- A cached read leaves the view of a user. -/
theorem agree_cachedRows (deployment : Deployment) (user : HexId) (reading : RedisReading)
    (scope : CacheScope) (s : Panel) : Agree user s (cachedRows deployment reading scope s).2 := by
  obtain ⟨extra, same, _⟩ := cachedRows_panel deployment reading scope s
  rw [same]
  exact ⟨rfl, rfl, fun _ _ => rfl⟩

theorem cachedRows_tables (reading : RedisReading) (scope : CacheScope) (s : Panel) :
    (cachedRows deployment reading scope s).2.tables = s.tables := by
  obtain ⟨extra, same, _⟩ := cachedRows_panel deployment reading scope s
  rw [same]

/-- Two trusted reads of one user for himself return the same jobs and counts. -/
theorem trusted_read {user : HexId} {scope : CacheScope} (read : ReadOf user scope) {s t : Panel}
    (agree : Agree user s t) {left right : RedisReading}
    (trustedLeft : Trusted deployment s.tables left)
    (trustedRight : Trusted deployment t.tables right) :
    (cachedRows deployment left scope s).1.withoutOwners =
      (cachedRows deployment right scope t).1.withoutOwners := by
  rw [trustedLeft scope s read.name rfl, trustedRight scope t read.name rfl]
  exact read.rows_congr agree.jobs

section Requests
variable {account : Account} {s t : Panel} {locale : Locale}

/-- The list of a regular user shows the same page and counts. -/
theorem listJobs_agree (regular : account.role = .user) (agree : Agree account.id s t)
    (limit offset : Option Int) (all : Bool) {page count page' count' : RedisReading}
    (trusted : Trusted deployment s.tables page ∧ Trusted deployment s.tables count)
    (trusted' : Trusted deployment t.tables page' ∧ Trusted deployment t.tables count') :
    (listJobs deployment locale account limit offset all page count s).1 =
        (listJobs deployment locale account limit offset all page' count' t).1 ∧
      Agree account.id (listJobs deployment locale account limit offset all page count s).2
        (listJobs deployment locale account limit offset all page' count' t).2 := by
  have notAll : (decide (account.role = .admin) && all) = false := by
    rw [regular]
    rfl
  unfold listJobs
  simp only [notAll, Bool.false_eq_true, if_false]
  set number := boundedIntArg limit 50 1 200
  set start := boundedIntArg offset 0 0 jobListMaxOffset
  have pages := trusted_read (.list number start) agree trusted.1 trusted'.1
  have later := (agree_cachedRows deployment account.id page
    (.list (some account.id) number start) s).symm.trans (agree.trans
      (agree_cachedRows deployment account.id page'
        (.list (some account.id) number start) t))
  have counts := trusted_read .counts later
    (by rw [cachedRows_tables]; exact trusted.2) (by rw [cachedRows_tables]; exact trusted'.2)
  constructor
  · have jobs := congrArg (fun rows => rows.paged.map Prod.fst) pages
    have numbers := congrArg Rows.counted counts
    simp only [Rows.paged_jobs] at jobs
    simp only [Rows.counted_withoutOwners] at numbers
    have lengths := congrArg List.length jobs
    have views := congrArg (List.map (jobDict locale account none)) jobs
    simp only [List.length_map, List.map_map] at lengths views
    rw [numbers, lengths]
    congr 1
  · exact (agree_cachedRows deployment account.id count _ _).symm.trans
      (later.trans (agree_cachedRows deployment account.id count' _ _))

theorem getJob_agree (regular : account.role = .user) (agree : Agree account.id s t) (jobId : Str)
    {reading reading' : RedisReading} (trusted : Trusted deployment s.tables reading)
    (trusted' : Trusted deployment t.tables reading') :
    (getJob deployment locale account jobId reading s).1 =
        (getJob deployment locale account jobId reading' t).1 ∧
      Agree account.id (getJob deployment locale account jobId reading s).2
        (getJob deployment locale account jobId reading' t).2 := by
  have rows := congrArg Rows.detailed (trusted_read (.detail jobId) agree trusted trusted')
  simp only [Rows.detailed_withoutOwners] at rows
  have later := (agree_cachedRows deployment account.id reading
    (.detail .user account.id jobId) s).symm.trans (agree.trans
      (agree_cachedRows deployment account.id reading'
        (.detail .user account.id jobId) t))
  unfold getJob
  simp only [regular, rows]
  split <;> exact ⟨rfl, later⟩

/-- The panels agree after a write that changes the own jobs in the same way and keeps the files of
the jobs that are left. -/
theorem Agree.write (agree : Agree account.id s t) {tables tables' : Tables}
    (users : tables.user? account.id = s.tables.user? account.id)
    (users' : tables'.user? account.id = t.tables.user? account.id)
    (jobs : own account.id tables = own account.id tables')
    (kept : ∀ job ∈ own account.id tables, ∃ before ∈ own account.id s.tables, before.id = job.id) :
    Agree account.id { s with tables := tables } { t with tables := tables' } where
  account := by rw [users, users', agree.account]
  jobs := jobs
  files job member := by
    obtain ⟨before, old, same⟩ := kept job member
    show s.files job.id = t.files job.id
    rw [← same]
    exact agree.files before old

theorem cancelRequest_agree (regular : account.role = .user) (agree : Agree account.id s t)
    (jobId now : Str) (fresh fresh' : HexId) :
    (cancelRequest locale account jobId now fresh s).1 =
        (cancelRequest locale account jobId now fresh' t).1 ∧
      Agree account.id (cancelRequest locale account jobId now fresh s).2
        (cancelRequest locale account jobId now fresh' t).2 := by
  have found : ownedJob jobId account s.tables = ownedJob jobId account t.tables := by
    rw [ownedJob_eq regular, ownedJob_eq regular, agree.jobs]
  have written : own account.id (cancelWrite jobId .user account.id now fresh s.tables) =
      own account.id (cancelWrite jobId .user account.id now fresh' t.tables) := by
    rw [own_cancelWrite, own_cancelWrite, agree.jobs]
  have foundAfter :
      ownedJob jobId account (cancelWrite jobId .user account.id now fresh s.tables) =
        ownedJob jobId account (cancelWrite jobId .user account.id now fresh' t.tables) := by
    rw [ownedJob_eq regular, ownedJob_eq regular, written]
  have later : Agree account.id
      { s with tables := cancelWrite jobId .user account.id now fresh s.tables }
      { t with tables := cancelWrite jobId .user account.id now fresh' t.tables } := by
    apply agree.write
    · rw [Tables.user?, cancelWrite_users, Tables.user?]
    · rw [Tables.user?, cancelWrite_users, Tables.user?]
    · exact written
    · intro job member
      rw [own_cancelWrite] at member
      obtain ⟨before, old, rfl⟩ := List.mem_map.mp member
      exact ⟨before, old, (canceledJob_id jobId now before).symm⟩
  unfold cancelRequest
  rw [found, regular]
  cases ownedJob jobId account t.tables with
  | none => exact ⟨rfl, agree⟩
  | some before =>
      simp only [foundAfter]
      cases ownedJob jobId account (cancelWrite jobId .user account.id now fresh' t.tables) with
      | none => exact ⟨rfl, later⟩
      | some job =>
          simp only
          split <;> exact ⟨rfl, later⟩

/-- The panels agree after the same change of the files of one own job. -/
theorem Agree.setFolder (agree : Agree account.id s t) (jobId : Str)
    (folder : String → Option Bytes) :
    Agree account.id (s.setFolder jobId folder) (t.setFolder jobId folder) where
  account := agree.account
  jobs := agree.jobs
  files job member := by
    show Function.update s.files jobId folder job.id = Function.update t.files jobId folder job.id
    by_cases same : job.id = jobId
    · rw [same, Function.update_self, Function.update_self]
    · rw [Function.update_of_ne same, Function.update_of_ne same]
      exact agree.files job member

theorem deleteRequest_agree {environment : Environment} (regular : account.role = .user)
    (agree : Agree account.id s t) (jobId : Str) (fresh fresh' : HexId) :
    (deleteRequest environment account jobId fresh s).1 =
        (deleteRequest environment account jobId fresh' t).1 ∧
      Agree account.id (deleteRequest environment account jobId fresh s).2
        (deleteRequest environment account jobId fresh' t).2 := by
  have found : ownedJob jobId account s.tables = ownedJob jobId account t.tables := by
    rw [ownedJob_eq regular, ownedJob_eq regular, agree.jobs]
  unfold deleteRequest
  rw [found]
  cases owned : ownedJob jobId account t.tables with
  | none => exact ⟨rfl, agree⟩
  | some job =>
      obtain ⟨member, named⟩ := mem_own_of_ownedJob regular (found.trans owned)
      have files : s.files jobId = t.files jobId := by
        rw [← named]
        exact agree.files job member
      simp only
      split
      · exact ⟨rfl, agree⟩
      · cases environment.removal with
        | invalidPath => exact ⟨rfl, agree⟩
        | failed =>
            simp only [files]
            exact ⟨trivial, agree.setFolder jobId _⟩
        | removed =>
            have later : Agree account.id { s with tables := deleteWrite jobId fresh s.tables }
                { t with tables := deleteWrite jobId fresh' t.tables } := by
              apply agree.write
              · rfl
              · rfl
              · rw [own_deleteWrite, own_deleteWrite, agree.jobs]
              · intro job member
                rw [own_deleteWrite] at member
                exact ⟨job, (List.mem_filter.mp member).1, rfl⟩
            exact ⟨rfl, later.setFolder jobId _⟩

theorem downloadOutput_agree (regular : account.role = .user) (agree : Agree account.id s t)
    (jobId : Str) (name : String) :
    downloadOutput locale account jobId name s = downloadOutput locale account jobId name t := by
  have found : ownedJob jobId account s.tables = ownedJob jobId account t.tables := by
    rw [ownedJob_eq regular, ownedJob_eq regular, agree.jobs]
  unfold downloadOutput
  rw [found]
  cases owned : ownedJob jobId account t.tables with
  | none => rfl
  | some job =>
      obtain ⟨member, named⟩ := mem_own_of_ownedJob regular (found.trans owned)
      have files : s.files jobId = t.files jobId := by
        rw [← named]
        exact agree.files job member
      simp only [files]

theorem downloadAll_agree (regular : account.role = .user) (agree : Agree account.id s t)
    (jobId : Str) :
    (downloadAll deployment locale account jobId s).1 =
        (downloadAll deployment locale account jobId t).1 ∧
      Agree account.id (downloadAll deployment locale account jobId s).2
        (downloadAll deployment locale account jobId t).2 := by
  have found : ownedJob jobId account s.tables = ownedJob jobId account t.tables := by
    rw [ownedJob_eq regular, ownedJob_eq regular, agree.jobs]
  unfold downloadAll
  rw [found]
  cases owned : ownedJob jobId account t.tables with
  | none => exact ⟨rfl, agree⟩
  | some job =>
      obtain ⟨member, named⟩ := mem_own_of_ownedJob regular (found.trans owned)
      have files : s.files jobId = t.files jobId := by
        rw [← named]
        exact agree.files job member
      simp only
      split
      · exact ⟨rfl, agree⟩
      · exact ⟨downloadOutput_agree regular agree jobId _, agree⟩
      · simp only [files]
        split
        · exact ⟨rfl, agree⟩
        · split
          · exact ⟨rfl, agree⟩
          · exact ⟨rfl, agree.setFolder jobId _⟩

end Requests

/-- Two panels that agree on a regular user answer his request in the same way and agree after. -/
theorem handle_agree {account : Account} {s t : Panel} (regular : account.role = .user)
    (agree : Agree account.id s t) (request : Request) (environment : Environment)
    {first second first' second' : RedisReading} (fresh fresh' : HexId)
    (trusted : Trusted deployment s.tables first ∧ Trusted deployment s.tables second)
    (trusted' : Trusted deployment t.tables first' ∧ Trusted deployment t.tables second') :
    (handle deployment account request environment first second fresh s).1 =
        (handle deployment account request environment first' second' fresh' t).1 ∧
      Agree account.id (handle deployment account request environment first second fresh s).2
        (handle deployment account request environment first' second' fresh' t).2 := by
  cases request with
  | listJobs limit offset all =>
      exact listJobs_agree regular agree limit offset all trusted trusted'
  | getJob jobId => exact getJob_agree regular agree jobId trusted.1 trusted'.1
  | cancelJob jobId => exact cancelRequest_agree regular agree jobId _ fresh fresh'
  | deleteJob jobId => exact deleteRequest_agree regular agree jobId fresh fresh'
  | downloadOutput jobId name => exact ⟨downloadOutput_agree regular agree jobId name, agree⟩
  | downloadAll jobId => exact downloadAll_agree regular agree jobId

/-- These are the changes that a request can make to the panel. -/
inductive Effect (keyStart : Str) (account : Account) (fresh : HexId) (s : Panel) : Panel → Prop where
  | read (extra : List Payload)
      (coherent : Coherent keyStart s.tables s.used s.produced →
        Coherent keyStart s.tables s.used (extra ++ s.produced)) :
      Effect keyStart account fresh s { s with produced := extra ++ s.produced }
  | cancel (jobId now : Str) :
      Effect keyStart account fresh s
        { s with tables := cancelWrite jobId account.role account.id now fresh s.tables }
  | folder {jobId : Str} {job : JobRecord} (found : ownedJob jobId account s.tables = some job)
      (folder : String → Option Bytes) : Effect keyStart account fresh s (s.setFolder jobId folder)
  | delete {jobId : Str} {job : JobRecord} (found : ownedJob jobId account s.tables = some job)
      (folder : String → Option Bytes) :
      Effect keyStart account fresh s
        ({ s with tables := deleteWrite jobId fresh s.tables }.setFolder jobId folder)

theorem Effect.none {keyStart : Str} {account : Account} {fresh : HexId} (s : Panel) :
    Effect keyStart account fresh s s := .read [] id

/-- A request makes one of these changes. -/
theorem handle_effect (deployment : Deployment) (account : Account) (request : Request) (environment : Environment)
    (first second : RedisReading) (fresh : HexId) (s : Panel) :
    Effect deployment.keyStart account fresh s
      (handle deployment account request environment first second fresh s).2 := by
  cases request with
  | listJobs limit offset all =>
      simp only [handle, listJobs]
      obtain ⟨page, samePage, fitsPage⟩ := cachedRows_panel deployment first
        (.list (if account.role = .admin && all then none else some account.id)
          (boundedIntArg limit 50 1 200) (boundedIntArg offset 0 0 jobListMaxOffset)) s
      rw [samePage]
      obtain ⟨counts, sameCounts, fitsCounts⟩ := cachedRows_panel deployment second
        (.counts (if account.role = .admin && all then none else some account.id))
        { s with produced := page ++ s.produced }
      rw [sameCounts, ← List.append_assoc]
      apply Effect.read
      intro coherent
      rw [List.append_assoc]
      exact fitsCounts (fitsPage coherent)
  | getJob jobId =>
      obtain ⟨extra, same, fits⟩ := cachedRows_panel deployment first
        (.detail account.role account.id jobId) s
      simp only [handle, getJob]
      split <;>
        · rw [same]
          exact .read extra fits
  | cancelJob jobId =>
      simp only [handle, cancelRequest]
      split
      · exact .none s
      · split
        · exact .cancel jobId environment.now
        · split <;> exact .cancel jobId environment.now
  | deleteJob jobId =>
      simp only [handle, deleteRequest]
      split
      · exact .none s
      · next job found =>
          split
          · exact .none s
          · cases environment.removal with
            | invalidPath => exact .none s
            | failed => exact .folder found _
            | removed => exact .delete found _
  | downloadOutput jobId name => exact .none s
  | downloadAll jobId =>
      simp only [handle, downloadAll]
      split
      · exact .none s
      · next job found =>
          split
          · exact .none s
          · exact .none s
          · split
            · exact .none s
            · split
              · exact .none s
              · exact .folder found _

section Effects
variable {keyStart : Str} {account : Account} {fresh : HexId} {s next : Panel}

theorem Effect.users (effect : Effect keyStart account fresh s next) :
    next.tables.users = s.tables.users := by
  cases effect with
  | read extra coherent => rfl
  | cancel jobId now => exact cancelWrite_users jobId _ _ now fresh s.tables
  | folder found folder => rfl
  | delete found folder => rfl

/-- A request leaves the log and the revisions that were carried. -/
theorem Effect.logs (effect : Effect keyStart account fresh s next) :
    next.used = s.used ∧ next.answers = s.answers := by
  cases effect <;> exact ⟨rfl, rfl⟩

/-- The stored payloads stay coherent when a request commits with a fresh revision. -/
theorem Effect.coherent (effect : Effect keyStart account fresh s next)
    (coherent : Coherent keyStart s.tables s.used s.produced) (new : fresh ∉ s.used) :
    Coherent keyStart next.tables (fresh :: next.used) next.produced := by
  have committed {write : Write} {tables : Tables}
      (writes : write.commit (fun _ => fresh) s.tables = some tables) :
      Coherent keyStart tables (fresh :: s.used) s.produced :=
    coherent.commit writes (fun _ => new) (List.subset_cons_self _ _) fun _ => List.mem_cons_self
  have unchanged {produced : List Payload}
      (holds : Coherent keyStart s.tables s.used produced) :
      Coherent keyStart s.tables (fresh :: s.used) produced := by
    refine ⟨fun name revision current => List.mem_cons_of_mem _ (holds.current name revision current),
      fun stored member => ?_⟩
    obtain ⟨scope, revision, key, known, fits⟩ := holds.stored stored member
    exact ⟨scope, revision, key, List.mem_cons_of_mem _ known, fits⟩
  cases effect with
  | read extra keeps => exact unchanged (keeps coherent)
  | cancel jobId now =>
      have writes : Write.commit (fun _ => fresh) s.tables
          (.cancelJob jobId account.role account.id now) =
          some (cancelWrite jobId account.role account.id now fresh s.tables) := rfl
      exact committed writes
  | folder found folder => exact unchanged coherent
  | @delete jobId job found folder =>
      have writes : Write.commit (fun _ => fresh) s.tables (.deleteJob jobId) =
          some (deleteWrite jobId fresh s.tables) := rfl
      exact committed writes

/-- The jobs of the other owners, and their files, are the same. -/
def OthersKept (user : HexId) (s next : Panel) : Prop :=
  others user next.tables = others user s.tables ∧
    ∀ job ∈ others user s.tables, next.files job.id = s.files job.id

/-- A request of a regular user leaves the jobs of the other owners. -/
theorem Effect.othersKept (effect : Effect keyStart account fresh s next)
    (regular : account.role = .user) : OthersKept account.id s next := by
  have apart {jobId : Str} {job : JobRecord} (found : ownedJob jobId account s.tables = some job)
      (folder : String → Option Bytes) {other : JobRecord}
      (foreign : other ∈ others account.id s.tables) :
      Function.update s.files jobId folder other.id = s.files other.id := by
    obtain ⟨owned, named⟩ := mem_own_of_ownedJob regular found
    rw [← named]
    exact Function.update_of_ne (others_id_ne owned foreign) _ _
  cases effect with
  | read extra keeps => exact ⟨rfl, fun _ _ => rfl⟩
  | cancel jobId now =>
      refine ⟨?_, fun _ _ => rfl⟩
      rw [regular]
      exact others_cancelWrite jobId account.id now fresh s.tables
  | folder found folder => exact ⟨rfl, fun other foreign => apart found folder foreign⟩
  | delete found folder =>
      refine ⟨?_, fun other foreign => apart found folder foreign⟩
      obtain ⟨owned, named⟩ := mem_own_of_ownedJob regular found
      rw [← named]
      exact others_deleteWrite owned fresh

end Effects

/-- The job id that a request names. -/
def Request.jobId? : Request → Option Str
  | .listJobs .. => none
  | .getJob jobId | .cancelJob jobId | .deleteJob jobId | .downloadOutput jobId _
  | .downloadAll jobId => some jobId

/-- A request for a job that is not an own one is answered as for a missing job. -/
theorem handle_notFound {account : Account} {s : Panel} {jobId : Str}
    (regular : account.role = .user) (foreign : ∀ job ∈ own account.id s.tables, job.id ≠ jobId)
    {request : Request} (named : request.jobId? = some jobId) (environment : Environment)
    {first : RedisReading} (second : RedisReading) (fresh : HexId)
    (trusted : Trusted deployment s.tables first) :
    (handle deployment account request environment first second fresh s).1 =
      jobNotFound environment.locale := by
  have absent : ownedJob jobId account s.tables = none := by
    rw [ownedJob_eq regular, List.find?_eq_none]
    intro job member
    rw [decide_eq_true_eq]
    exact foreign job member
  cases request with
  | listJobs limit offset all => cases named
  | getJob id =>
      cases named
      have rows := congrArg Rows.detailed
        (trusted (.detail .user account.id jobId) s rfl rfl)
      have empty : s.tables.jobs.rows.filter (jobScope jobId .user account.id) = [] := by
        rw [List.filter_eq_nil_iff]
        intro job member
        rw [jobScope_user, Bool.and_eq_true, decide_eq_true_eq]
        rintro ⟨mine, same⟩
        exact foreign job (List.mem_filter.mpr ⟨member, mine⟩) same
      rw [Rows.detailed_withoutOwners, Rows.detailed_withoutOwners, CacheScope.rows, empty] at rows
      have detail : (cachedRows deployment first (.detail .user account.id jobId) s).1.detailed = [] :=
        rows
      simp only [handle, getJob, regular, detail, List.head?_nil]
  | cancelJob id =>
      cases named
      simp only [handle, cancelRequest, absent]
  | deleteJob id =>
      cases named
      simp only [handle, deleteRequest, absent]
  | downloadOutput id name =>
      cases named
      simp only [handle, downloadOutput, absent]
  | downloadAll id =>
      cases named
      simp only [handle, downloadAll, absent]

/-- The panel is reached from an empty cache. -/
def Panel.Reached (deployment : Deployment) (s : Panel) : Prop :=
  ∃ tables files events, Machine.run (Panel.step deployment) (.initial tables files) events = some s

theorem coherent_initial (tables : Tables) (files : Str → String → Option Bytes) :
    Coherent deployment.keyStart (Panel.initial tables files).tables (Panel.initial tables files).used
      (Panel.initial tables files).produced where
  current name revision current := by
    cases name with
    | settings => exact List.mem_append_left _ (Option.mem_toList.mpr current)
    | jobs => exact List.mem_append_right _ (Option.mem_toList.mpr current)
  stored := nofun

/-- A request step answers one request of its sender and has one of the effects. -/
theorem step_request {s next : Panel} {user : HexId} {request : Request}
    {environment : Environment} {first second : RedisReading} {fresh : HexId}
    (stepped : Panel.step deployment s (.request user request environment first second fresh) =
      some next) :
    first.answer.authentic s.produced = true ∧ second.answer.authentic s.produced = true ∧
      fresh ∉ s.used ∧
      next = { (answer deployment user request environment first second fresh s).2 with
        used := fresh :: (answer deployment user request environment first second fresh s).2.used
        answers := (answer deployment user request environment first second fresh s).2.answers ++
          [(user, (answer deployment user request environment first second fresh s).1)] } := by
  simp only [Panel.step] at stepped
  split at stepped
  · next accepted =>
      exact ⟨accepted.1, accepted.2.1, accepted.2.2, (Option.some.inj stepped).symm⟩
  · cases stepped

/-- An answer of any user has one of the effects of an account. -/
theorem answer_coherent {s : Panel} (user : HexId) (request : Request) (environment : Environment)
    (first second : RedisReading) {fresh : HexId}
    (coherent : Coherent deployment.keyStart s.tables s.used s.produced) (new : fresh ∉ s.used) :
    Coherent deployment.keyStart (answer deployment user request environment first second fresh s).2.tables
      (fresh :: (answer deployment user request environment first second fresh s).2.used)
      (answer deployment user request environment first second fresh s).2.produced := by
  unfold answer
  cases s.tables.user? user with
  | none =>
      have effect : Effect deployment.keyStart ⟨user, [], .user⟩ fresh s s := .none s
      exact effect.coherent coherent new
  | some account =>
      exact (handle_effect deployment account request environment first second fresh s).coherent coherent new

/-- Every step keeps the stored payloads coherent. -/
theorem Coherent.step {s next : Panel} {event : PanelEvent}
    (coherent : Coherent deployment.keyStart s.tables s.used s.produced)
    (stepped : Panel.step deployment s event = some next) :
    Coherent deployment.keyStart next.tables next.used next.produced := by
  cases event with
  | request user request environment first second fresh =>
      obtain ⟨_, _, new, rfl⟩ := step_request stepped
      exact answer_coherent user request environment first second coherent new
  | write write fresh =>
      simp only [Panel.step] at stepped
      split at stepped
      · next new =>
          obtain ⟨tables, committed, rfl⟩ := Option.map_eq_some_iff.mp stepped
          apply coherent.commit committed
          · intro name
            cases name
            · exact new.1
            · exact new.2
          · intro revision known
            exact List.mem_cons_of_mem _ (List.mem_cons_of_mem _ known)
          · intro name
            cases name <;> simp
      · cases stepped
  | writeFile jobId name content =>
      obtain rfl := Option.some.inj stepped
      exact coherent

theorem Panel.Reached.coherent {s : Panel} (reached : s.Reached deployment) :
    Coherent deployment.keyStart s.tables s.used s.produced := by
  obtain ⟨tables, files, events, ran⟩ := reached
  exact Machine.run_invariant
    (fun s : Panel => Coherent deployment.keyStart s.tables s.used s.produced)
    (fun _ _ _ holds stepped => holds.step stepped) (coherent_initial tables files) ran

/-- Without the cache and without the other users, these are the answers to a user's requests. -/
def alone (deployment : Deployment) (user : HexId) : Panel → List (Request × Environment) →
    List Response
  | _, [] => []
  | t, (request, environment) :: rest =>
      let off : RedisReading := ⟨false, false, .absent⟩
      let answered := answer deployment user request environment off off user t
      answered.1 :: alone deployment user answered.2 rest

/-- The log of a user grows by his own requests only. -/
theorem answersTo_step {s next : Panel} {event : PanelEvent} {user : HexId}
    (stepped : Panel.step deployment s event = some next) (foreign : event.requestOf user = none) :
    next.answersTo user = s.answersTo user := by
  cases event with
  | request sender request environment first second fresh =>
      have other : sender ≠ user := by
        intro same
        rw [PanelEvent.requestOf, if_pos same] at foreign
        cases foreign
      obtain ⟨_, _, _, rfl⟩ := step_request stepped
      have logs : (answer deployment sender request environment first second fresh s).2.answers =
          s.answers := by
        unfold answer
        cases s.tables.user? sender with
        | none => rfl
        | some account =>
            exact (handle_effect deployment account request environment first second fresh s).logs.2
      simp [Panel.answersTo, logs, other]
  | write write fresh =>
      simp only [Panel.step] at stepped
      split at stepped
      · obtain ⟨tables, _, rfl⟩ := Option.map_eq_some_iff.mp stepped
        rfl
      · cases stepped
  | writeFile jobId name content =>
      obtain rfl := Option.some.inj stepped
      rfl

section Runs
variable {account : Account}

/-- A request of a regular user is answered as in a panel that agrees on him, and the other owners'
jobs are left. -/
theorem request_agree {s t next : Panel} {event : PanelEvent} {request : Request}
    {environment : Environment} (regular : account.role = .user)
    (coherent : Coherent deployment.keyStart s.tables s.used s.produced)
    (present : s.tables.user? account.id = some account) (agree : Agree account.id s t)
    (mine : event.requestOf account.id = some (request, environment))
    (stepped : Panel.step deployment s event = some next) :
    let off : RedisReading := ⟨false, false, .absent⟩
    let answered := answer deployment account.id request environment off off account.id t
    next.answersTo account.id = s.answersTo account.id ++ [answered.1] ∧
      Agree account.id next answered.2 ∧ next.tables.user? account.id = some account ∧
      OthersKept account.id s next ∧
      ∀ jobId ∈ request.jobId?, (∀ job ∈ own account.id s.tables, job.id ≠ jobId) →
        answered.1 = jobNotFound environment.locale := by
  cases event with
  | write write fresh => cases mine
  | writeFile jobId name content => cases mine
  | request sender asked surroundings first second fresh =>
      simp only [PanelEvent.requestOf] at mine
      split at mine
      · next same =>
          subst same
          cases mine
          obtain ⟨authentic, authenticToo, new, rfl⟩ := step_request stepped
          have presentToo : t.tables.user? account.id = some account := by
            rw [← agree.account, present]
          have trusted := coherent.trusted authentic
          have trustedToo := coherent.trusted authenticToo
          have off : Trusted deployment t.tables ⟨false, false, .absent⟩ :=
            trusted_of_unavailable t.tables rfl
          obtain ⟨response, later⟩ := handle_agree regular agree request environment fresh account.id
            ⟨trusted, trustedToo⟩ ⟨off, off⟩
          have effect := handle_effect deployment account request environment first
            second fresh s
          have kept := effect.othersKept regular
          simp only [answer, present, presentToo]
          refine ⟨?_, ⟨later.account, later.jobs, later.files⟩, ?_, kept, ?_⟩
          · rw [← response]
            simp [Panel.answersTo, effect.logs.2]
          · rw [Tables.user?, effect.users]
            exact present
          · intro jobId named foreign
            rw [← response]
            exact handle_notFound regular foreign named environment second fresh trusted
      · cases mine

/-- The answers of a user in a run are those of a panel that agrees on him and has neither the cache
nor the other users. -/
theorem run_alone {s t last : Panel} {events : List PanelEvent} (regular : account.role = .user)
    (coherent : Coherent deployment.keyStart s.tables s.used s.produced)
    (present : s.tables.user? account.id = some account) (agree : Agree account.id s t)
    (ran : Machine.run (Panel.step deployment) s events = some last)
    (quiet : Machine.Meets (Panel.step deployment) (fun s event =>
      event.requestOf account.id = none →
        ∀ next, Panel.step deployment s event = some next → Agree account.id s next) s events) :
    last.answersTo account.id = s.answersTo account.id ++
      alone deployment account.id t (events.filterMap (PanelEvent.requestOf account.id)) ∧
    Machine.Meets (Panel.step deployment) (fun s event => ∀ request environment,
      event.requestOf account.id = some (request, environment) →
        ∀ next, Panel.step deployment s event = some next →
          OthersKept account.id s next ∧
            ∀ jobId ∈ request.jobId?, (∀ job ∈ own account.id s.tables, job.id ≠ jobId) →
              next.answersTo account.id =
                s.answersTo account.id ++ [jobNotFound environment.locale]) s events := by
  induction events generalizing s t with
  | nil =>
      cases ran
      exact ⟨(List.append_nil _).symm, trivial⟩
  | cons event rest ih =>
      obtain ⟨next, stepped, later⟩ := (Machine.run_cons _).mp ran
      have coherentLater := coherent.step stepped
      have quietLater := quiet.2 next stepped
      cases asked : event.requestOf account.id with
      | none =>
          have same := quiet.1 asked next stepped
          obtain ⟨answers, meets⟩ := ih coherentLater (same.account ▸ present)
            (same.symm.trans agree) later quietLater
          rw [answersTo_step stepped asked] at answers
          rw [List.filterMap_cons_none asked]
          refine ⟨answers, fun request environment mine => ?_, fun other stepped' => ?_⟩
          · rw [asked] at mine
            cases mine
          · cases stepped.symm.trans stepped'
            exact meets
      | some mine =>
          obtain ⟨request, environment⟩ := mine
          obtain ⟨answered, agreeLater, presentLater, kept, missing⟩ :=
            request_agree regular coherent present agree asked stepped
          obtain ⟨answers, meets⟩ := ih coherentLater presentLater agreeLater later quietLater
          rw [List.filterMap_cons_some asked, alone]
          refine ⟨?_, fun asker surroundings mine other stepped' => ?_, fun other stepped' => ?_⟩
          · rw [answers, answered, List.append_assoc]
            rfl
          · cases stepped.symm.trans stepped'
            cases asked.symm.trans mine
            refine ⟨kept, fun jobId named foreign => ?_⟩
            rw [answered, missing jobId named foreign]
          · cases stepped.symm.trans stepped'
            exact meets

/-- Two runs from reached panels that agree on a regular user, his jobs and their files, and in which
he sends the same requests, answer him in the same way, whatever the other users, the workers and the
cache do besides. His requests leave the jobs of the other owners, and a job that is not his is
answered like a missing one. -/
theorem jobs_of_others_invisible {left right leftLast rightLast : Panel}
    {leftEvents rightEvents : List PanelEvent} (leftReached : left.Reached deployment)
    (rightReached : right.Reached deployment) (regular : account.role = .user)
    (present : left.tables.user? account.id = some account) (agree : Agree account.id left right)
    (ranLeft : Machine.run (Panel.step deployment) left leftEvents = some leftLast)
    (ranRight : Machine.run (Panel.step deployment) right rightEvents = some rightLast)
    (quietLeft : Machine.Meets (Panel.step deployment) (fun s event =>
      event.requestOf account.id = none →
        ∀ next, Panel.step deployment s event = some next → Agree account.id s next) left leftEvents)
    (quietRight : Machine.Meets (Panel.step deployment) (fun s event =>
      event.requestOf account.id = none →
        ∀ next, Panel.step deployment s event = some next → Agree account.id s next)
      right rightEvents)
    (same : leftEvents.filterMap (PanelEvent.requestOf account.id) =
      rightEvents.filterMap (PanelEvent.requestOf account.id)) :
    (∃ responses, leftLast.answersTo account.id = left.answersTo account.id ++ responses ∧
      rightLast.answersTo account.id = right.answersTo account.id ++ responses) ∧
    Machine.Meets (Panel.step deployment) (fun s event => ∀ request environment,
      event.requestOf account.id = some (request, environment) →
        ∀ next, Panel.step deployment s event = some next →
          OthersKept account.id s next ∧
            ∀ jobId ∈ request.jobId?, (∀ job ∈ own account.id s.tables, job.id ≠ jobId) →
              next.answersTo account.id =
                s.answersTo account.id ++ [jobNotFound environment.locale]) left leftEvents := by
  obtain ⟨answersLeft, meets⟩ := run_alone regular leftReached.coherent present
    (Agree.refl account.id left) ranLeft quietLeft
  obtain ⟨answersRight, _⟩ := run_alone regular rightReached.coherent (agree.account ▸ present)
    agree.symm ranRight quietRight
  rw [← same] at answersRight
  exact ⟨⟨_, answersLeft, answersRight⟩, meets⟩

end Runs

def submitter : Account := ⟨oldRevision, ofString "submitter", .user⟩

def stranger : Account := ⟨newRevision, ofString "stranger", .user⟩

/-- A queued job of an owner. -/
def queuedJob (id : Str) (owner : HexId) : JobRecord where
  id := id
  userId := some owner
  filename := ofString "a.srt"
  storedName := ofString "source.srt"
  row := ⟨.queued, 0, "", [], none, none⟩
  options := ofString "{}"
  createdAt := []
  updatedAt := []

def ownJobId : Str := ofString "1"

def foreignJobId : Str := ofString "2"

def sharedPanel : Panel :=
  .initial ⟨[submitter, stranger],
    ⟨[queuedJob foreignJobId stranger.id, queuedJob ownJobId submitter.id], by decide⟩, [],
    fun _ => some oldRevision⟩ fun _ _ => none

def privatePanel : Panel :=
  .initial ⟨[submitter], ⟨[queuedJob ownJobId submitter.id], by decide⟩, [],
    fun _ => some oldRevision⟩ fun _ _ => none

def plainLocale : Locale := ⟨id, id, id⟩

def plainEnvironment : Environment := ⟨plainLocale, [], .removed, fun _ => true⟩

def plainDeployment : Deployment := ⟨[], fun _ => "archive", fun _ => []⟩

/-- The cache is there and has no payload for a read. -/
def coldReading : RedisReading := ⟨true, true, .absent⟩

/-- A fresh revision of the sample. -/
def sampleRevision (digit : CodePoint) (hex : isHexDigit digit = true) : HexId where
  text := List.replicate 32 digit
  length_eq := List.length_replicate
  hex := List.all_eq_true.mpr fun _ member => (List.eq_of_mem_replicate member).symm ▸ hex

def privateRequests : List PanelEvent :=
  [.request submitter.id (.getJob foreignJobId) plainEnvironment coldReading coldReading
      (sampleRevision 0x33 rfl),
    .request submitter.id (.cancelJob ownJobId) plainEnvironment coldReading coldReading
      (sampleRevision 0x34 rfl),
    .request submitter.id (.listJobs none none true) plainEnvironment coldReading coldReading
      (sampleRevision 0x35 rfl)]

def sharedRequests : List PanelEvent :=
  .request stranger.id (.getJob foreignJobId) plainEnvironment coldReading coldReading
      (sampleRevision 0x32 rfl) :: privateRequests

/-- The requests of the user alone meet every condition on the other events. -/
theorem privateRequests_quiet (s : Panel) :
    Machine.Meets (Panel.step plainDeployment) (fun s event =>
      event.requestOf submitter.id = none →
        ∀ next, Panel.step plainDeployment s event = some next → Agree submitter.id s next)
      s privateRequests := by
  have mine (request : Request) (fresh : HexId) :
      PanelEvent.requestOf submitter.id (.request submitter.id request plainEnvironment coldReading
        coldReading fresh) ≠ none := by
    rw [PanelEvent.requestOf, if_pos rfl]
    exact Option.some_ne_none _
  exact ⟨fun none => absurd none (mine _ _), fun _ _ => ⟨fun none => absurd none (mine _ _),
    fun _ _ => ⟨fun none => absurd none (mine _ _), fun _ _ => trivial⟩⟩⟩

theorem jobs_of_others_invisible_example :
    ∃ shared alone, Machine.run (Panel.step plainDeployment) sharedPanel sharedRequests = some shared ∧
      Machine.run (Panel.step plainDeployment) privatePanel privateRequests = some alone ∧
      shared.answersTo submitter.id = alone.answersTo submitter.id := by
  obtain ⟨shared, ranShared⟩ := Option.isSome_iff_exists.mp (show
    (Machine.run (Panel.step plainDeployment) sharedPanel sharedRequests).isSome = true by
      decide +kernel)
  obtain ⟨alone, ranAlone⟩ := Option.isSome_iff_exists.mp (show
    (Machine.run (Panel.step plainDeployment) privatePanel privateRequests).isSome = true by
      decide +kernel)
  have agree : Agree submitter.id sharedPanel privatePanel :=
    ⟨by decide +kernel, by decide +kernel, fun _ _ => rfl⟩
  have quiet : Machine.Meets (Panel.step plainDeployment) (fun s event =>
      event.requestOf submitter.id = none →
        ∀ next, Panel.step plainDeployment s event = some next → Agree submitter.id s next)
      sharedPanel sharedRequests := by
    refine ⟨fun _ next stepped => ?_, fun next _ => privateRequests_quiet next⟩
    obtain ⟨_, _, _, rfl⟩ := step_request stepped
    have present : sharedPanel.tables.user? stranger.id = some stranger := by decide +kernel
    have read := agree_cachedRows plainDeployment submitter.id coldReading
      (.detail .user stranger.id foreignJobId) sharedPanel
    have asked : (answer plainDeployment stranger.id (.getJob foreignJobId) plainEnvironment
        coldReading coldReading (sampleRevision 0x32 rfl) sharedPanel).2 =
        (cachedRows plainDeployment coldReading (.detail .user stranger.id foreignJobId)
          sharedPanel).2 := by
      rw [answer, present]
      simp only [handle, getJob]
      split <;> rfl
    rw [asked]
    exact ⟨read.account, read.jobs, read.files⟩
  obtain ⟨⟨responses, left, right⟩, _⟩ := jobs_of_others_invisible
    ⟨_, _, [], rfl⟩ ⟨_, _, [], rfl⟩ rfl (by decide +kernel) agree ranShared ranAlone quiet
    (privateRequests_quiet privatePanel) rfl
  exact ⟨shared, alone, ranShared, ranAlone, left.trans right.symm⟩

end SubtitleTranslator.Jobs
