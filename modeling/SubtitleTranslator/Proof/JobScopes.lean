import SubtitleTranslator.Construction.JobRequests
import SubtitleTranslator.Proof.CacheFreshness

namespace SubtitleTranslator.Jobs
open Library Text
open Auth (Role)

/-- These are the rows of a cached read without the owners' names. -/
def Rows.withoutOwners : Rows → Rows
  | .page rows => .page (rows.map fun row => (row.1, none))
  | .settings rows => .settings rows
  | .counts rows => .counts rows
  | .jobs rows => .jobs rows

theorem Rows.paged_jobs (rows : Rows) :
    rows.withoutOwners.paged.map Prod.fst = rows.paged.map Prod.fst := by
  cases rows <;> simp [withoutOwners, paged]

theorem Rows.counted_withoutOwners (rows : Rows) : rows.withoutOwners.counted = rows.counted := by
  cases rows <;> rfl

theorem Rows.detailed_withoutOwners (rows : Rows) :
    rows.withoutOwners.detailed = rows.detailed := by
  cases rows <;> rfl

/-- The jobs of a user. -/
def own (user : HexId) (tables : Tables) : List JobRecord :=
  tables.jobs.rows.filter (ownedBy (some user))

/-- The jobs of the other owners and the jobs without an owner. -/
def others (user : HexId) (tables : Tables) : List JobRecord :=
  tables.jobs.rows.filter fun job => !ownedBy (some user) job

/-- The read is one of a regular user for himself. -/
inductive ReadOf (user : HexId) : CacheScope → Prop where
  | list (limit offset : Nat) : ReadOf user (.list (some user) limit offset)
  | counts : ReadOf user (.counts (some user))
  | detail (jobId : Str) : ReadOf user (.detail .user user jobId)

theorem ReadOf.name {user : HexId} {scope : CacheScope} (read : ReadOf user scope) :
    scope.name = .jobs := by
  cases read <;> rfl

/-- The scope of a regular user selects among the user's own jobs. -/
theorem jobScope_user (jobId : Str) (user : HexId) (job : JobRecord) :
    jobScope jobId .user user job = (ownedBy (some user) job && decide (job.id = jobId)) := by
  simp [jobScope, ownedBy, Bool.and_comm]

/-- A read of a regular user depends on the user's own jobs only. -/
theorem ReadOf.rows_congr {user : HexId} {scope : CacheScope} (read : ReadOf user scope)
    {before after : Tables} (same : own user before = own user after) :
    (scope.rows before).withoutOwners = (scope.rows after).withoutOwners := by
  unfold own at same
  cases read with
  | list limit offset =>
      simp only [CacheScope.rows, Rows.withoutOwners, List.map_map, same]
      rfl
  | counts => simp only [CacheScope.rows, same]
  | detail jobId =>
      have selects (tables : Tables) : tables.jobs.rows.filter (jobScope jobId .user user) =
          (tables.jobs.rows.filter (ownedBy (some user))).filter (fun job => job.id = jobId) := by
        rw [List.filter_filter]
        rfl
      simp only [CacheScope.rows, selects, same]

/-- A read of any scope depends on the job rows only. -/
theorem rows_congr {scope : CacheScope} (name : scope.name = .jobs) {before after : Tables}
    (same : before.jobs.rows = after.jobs.rows) :
    (scope.rows before).withoutOwners = (scope.rows after).withoutOwners := by
  cases scope with
  | settings => cases name
  | list owner limit offset =>
      simp only [CacheScope.rows, Rows.withoutOwners, List.map_map, same]
      rfl
  | counts owner => simp only [CacheScope.rows, same]
  | detail role user jobId => simp only [CacheScope.rows, same]

/-- The payloads under a current revision hold the current jobs. -/
structure Coherent (keyStart : Str) (tables : Tables) (used : List HexId)
    (produced : List Payload) : Prop where
  current : ∀ name, ∀ revision ∈ tables.revisions name, revision ∈ used
  stored : ∀ stored ∈ produced, ∃ scope revision,
    stored.key = cacheKey keyStart scope revision ∧ revision ∈ used ∧
      (scope.name = .jobs → tables.revisions .jobs = some revision →
        stored.value.withoutOwners = (scope.rows tables).withoutOwners)

/-- A cached read returns current rows. -/
def Trusted (deployment : Deployment) (tables : Tables) (reading : RedisReading) : Prop :=
  ∀ scope s, scope.name = .jobs → s.tables = tables →
    (cachedRows deployment reading scope s).1.withoutOwners = (scope.rows tables).withoutOwners

variable {deployment : Deployment}

/-- An authentic answer of Redis is trusted. -/
theorem Coherent.trusted {tables : Tables} {used : List HexId} {produced : List Payload}
    (coherent : Coherent deployment.keyStart tables used produced) {reading : RedisReading}
    (authentic : reading.answer.authentic produced = true) :
    Trusted deployment tables reading := by
  rintro scope s name rfl
  unfold cachedRows
  dsimp only
  split
  · rfl
  · split
    · rfl
    · next revision current =>
        split
        · next cached taken =>
            have stored := remember_value taken
            rw [stored] at authentic
            obtain ⟨other, otherRevision, key, _, fits⟩ :=
              coherent.stored _ (of_decide_eq_true authentic)
            obtain ⟨rfl, rfl⟩ := cacheKey_injective key
            rw [name] at current
            exact fits name current
        · rfl

/-- A read without Redis is trusted. -/
theorem trusted_of_unavailable (tables : Tables) {reading : RedisReading}
    (off : reading.available = false) : Trusted deployment tables reading := by
  rintro scope s _ rfl
  simp [cachedRows, off]

/-- A cached read changes the stored payloads only, and they stay coherent. -/
theorem cachedRows_panel (deployment : Deployment) (reading : RedisReading) (scope : CacheScope)
    (s : Panel) :
    ∃ extra, (cachedRows deployment reading scope s).2 = { s with produced := extra ++ s.produced } ∧
      (Coherent deployment.keyStart s.tables s.used s.produced →
        Coherent deployment.keyStart s.tables s.used (extra ++ s.produced)) := by
  have nothing : ∃ extra, s = { s with produced := extra ++ s.produced } ∧
      (Coherent deployment.keyStart s.tables s.used s.produced →
        Coherent deployment.keyStart s.tables s.used (extra ++ s.produced)) := ⟨[], rfl, id⟩
  unfold cachedRows
  dsimp only
  split
  · exact nothing
  · split
    · exact nothing
    · next revision current =>
        split
        · exact nothing
        · next store _ =>
            cases store with
            | false => exact nothing
            | true =>
                refine ⟨[⟨cacheKey deployment.keyStart scope revision, scope.rows s.tables⟩], rfl,
                  fun coherent => ⟨coherent.current, fun stored member => ?_⟩⟩
                rcases List.mem_cons.mp member with rfl | old
                · exact ⟨scope, revision, rfl, coherent.current scope.name revision current,
                    fun _ _ => rfl⟩
                · exact coherent.stored stored old

/-- A transaction with fresh revisions keeps the stored payloads coherent. -/
theorem Coherent.commit {keyStart : Str} {tables next : Tables} {used later : List HexId}
    {produced : List Payload} (coherent : Coherent keyStart tables used produced) {write : Write}
    {fresh : CacheName → HexId} (committed : write.commit fresh tables = some next)
    (new : ∀ name, fresh name ∉ used) (grown : used ⊆ later) (kept : ∀ name, fresh name ∈ later) :
    Coherent keyStart next later produced where
  current name revision current := by
    rcases write.commit_spec committed name with bumped | untouched
    · rcases bumped.cases with installed | missing
      · rw [installed] at current
        cases current
        exact kept name
      · rw [missing.1] at current
        cases current
    · rw [untouched.1] at current
      exact grown (coherent.current name revision current)
  stored stored member := by
    obtain ⟨scope, revision, key, known, fits⟩ := coherent.stored stored member
    refine ⟨scope, revision, key, grown known, fun name current => ?_⟩
    rcases write.commit_spec committed .jobs with bumped | untouched
    · rcases bumped.cases with installed | missing
      · rw [installed] at current
        cases current
        exact absurd known (new .jobs)
      · rw [missing.1] at current
        cases current
    · rw [untouched.1] at current
      rw [fits name current]
      exact rows_congr name (Classical.not_not.mp untouched.2).symm

/-- The job that a regular user can name is found among the user's own jobs. -/
theorem ownedJob_eq {account : Account} (regular : account.role = .user) (jobId : Str)
    (tables : Tables) :
    ownedJob jobId account tables = (own account.id tables).find? fun job => job.id = jobId := by
  rw [ownedJob, own, List.find?_filter, regular]
  congr 1
  funext job
  rw [jobScope_user]
  simp

/-- The job that a user can name is one of the user's own jobs. -/
theorem mem_own_of_ownedJob {account : Account} (regular : account.role = .user) {jobId : Str}
    {tables : Tables} {job : JobRecord} (found : ownedJob jobId account tables = some job) :
    job ∈ own account.id tables ∧ job.id = jobId := by
  rw [ownedJob_eq regular] at found
  have named := List.find?_some found
  exact ⟨List.mem_of_find?_eq_some found, of_decide_eq_true named⟩

/-- The change that `cancel_job` makes to a job. -/
def canceledJob (jobId now : Str) (job : JobRecord) : JobRecord :=
  if job.id = jobId ∧ (cancelRow job.row).2 then
    { job with row := (cancelRow job.row).1, updatedAt := now }
  else job

theorem canceledJob_id (jobId now : Str) (job : JobRecord) :
    (canceledJob jobId now job).id = job.id := by
  unfold canceledJob
  split <;> rfl

theorem canceledJob_userId (jobId now : Str) (job : JobRecord) :
    (canceledJob jobId now job).userId = job.userId := by
  unfold canceledJob
  split <;> rfl

/-- A cancellation by a regular user writes the user's own jobs. -/
theorem cancelWrite_rows (jobId : Str) (user : HexId) (now : Str) (fresh : HexId)
    (tables : Tables) :
    (cancelWrite jobId .user user now fresh tables).jobs.rows =
      tables.jobs.rows.map fun job =>
        if ownedBy (some user) job then canceledJob jobId now job else job := by
  have pointwise (job : JobRecord) :
      (if jobScope jobId .user user job && (cancelRow job.row).2 then
        ({ job with row := (cancelRow job.row).1, updatedAt := now } : JobRecord) else job) =
      if ownedBy (some user) job then canceledJob jobId now job else job := by
    rw [jobScope_user, canceledJob]
    cases ownedBy (some user) job <;> simp
  unfold cancelWrite
  dsimp only
  split
  · apply List.map_congr_left
    intro job _
    exact pointwise job
  · next missed =>
      have same (job : JobRecord) (member : job ∈ tables.jobs.rows) :
          (if ownedBy (some user) job then canceledJob jobId now job else job) = job := by
        rw [← pointwise job, if_neg]
        intro selected
        exact missed (List.any_eq_true.mpr ⟨job, member, selected⟩)
      rw [List.map_congr_left same, List.map_id']

theorem own_cancelWrite (jobId : Str) (user : HexId) (now : Str) (fresh : HexId)
    (tables : Tables) :
    own user (cancelWrite jobId .user user now fresh tables) =
      (own user tables).map (canceledJob jobId now) := by
  have kept : ownedBy (some user) ∘ (fun job =>
      if ownedBy (some user) job then canceledJob jobId now job else job) =
      ownedBy (some user) := by
    funext job
    show ownedBy (some user) (if _ then _ else _) = _
    split
    · rw [ownedBy, ownedBy, canceledJob_userId]
    · rfl
  rw [own, cancelWrite_rows, List.filter_map, kept, own]
  apply List.map_congr_left
  intro job member
  rw [if_pos (List.mem_filter.mp member).2]

theorem others_cancelWrite (jobId : Str) (user : HexId) (now : Str) (fresh : HexId)
    (tables : Tables) :
    others user (cancelWrite jobId .user user now fresh tables) = others user tables := by
  have kept : (fun job => !ownedBy (some user) job) ∘ (fun job =>
      if ownedBy (some user) job then canceledJob jobId now job else job) =
      fun job => !ownedBy (some user) job := by
    funext job
    show (!ownedBy (some user) (if _ then _ else _)) = _
    split
    · rw [ownedBy, ownedBy, canceledJob_userId]
    · rfl
  have same (job : JobRecord)
      (member : job ∈ tables.jobs.rows.filter fun job => !ownedBy (some user) job) :
      (if ownedBy (some user) job then canceledJob jobId now job else job) = job := by
    have foreign := (List.mem_filter.mp member).2
    rw [Bool.not_eq_true'] at foreign
    rw [foreign, if_neg Bool.false_ne_true]
  rw [others, cancelWrite_rows, List.filter_map, kept, List.map_congr_left same, List.map_id',
    others]

theorem own_deleteWrite (jobId : Str) (user fresh : HexId) (tables : Tables) :
    own user (deleteWrite jobId fresh tables) =
      (own user tables).filter fun job => job.id ≠ jobId := by
  show (tables.jobs.rows.filter _).filter _ = (tables.jobs.rows.filter _).filter _
  rw [List.filter_filter, List.filter_filter]
  congr 1
  funext job
  simp [Bool.and_comm]

/-- Two rows of one key are the same row. -/
theorem JobTable.eq_of_id {table : JobTable} {first second : JobRecord} (left : first ∈ table.rows)
    (right : second ∈ table.rows) (same : first.id = second.id) : first = second :=
  List.inj_on_of_nodup_map table.keyed left right same

/-- No job of another owner has the key of an own job. -/
theorem others_id_ne {user : HexId} {tables : Tables} {job other : JobRecord}
    (owned : job ∈ own user tables) (foreign : other ∈ others user tables) : other.id ≠ job.id := by
  intro same
  obtain ⟨inTable, mine⟩ := List.mem_filter.mp owned
  obtain ⟨inTableToo, theirs⟩ := List.mem_filter.mp foreign
  rw [JobTable.eq_of_id inTableToo inTable same, mine] at theirs
  cases theirs

/-- The deletion of an own job leaves the other owners' jobs. -/
theorem others_deleteWrite {user : HexId} {tables : Tables} {job : JobRecord}
    (owned : job ∈ own user tables) (fresh : HexId) :
    others user (deleteWrite job.id fresh tables) = others user tables := by
  have same : ∀ other ∈ others user tables, (!decide (other.id = job.id)) = true := by
    intro other foreign
    rw [Bool.not_eq_true', decide_eq_false_iff_not]
    exact others_id_ne owned foreign
  show (tables.jobs.rows.filter _).filter _ = _
  rw [List.filter_filter]
  have swapped : (tables.jobs.rows.filter fun other =>
      !ownedBy (some user) other && !decide (other.id = job.id)) =
      (others user tables).filter fun other => !decide (other.id = job.id) := by
    rw [others, List.filter_filter]
    congr 1
    funext other
    rw [Bool.and_comm]
  rw [swapped, List.filter_eq_self.mpr same]

theorem cancelWrite_users (jobId : Str) (role : Role) (user : HexId) (now : Str) (fresh : HexId)
    (tables : Tables) : (cancelWrite jobId role user now fresh tables).users = tables.users := by
  unfold cancelWrite
  dsimp only
  split <;> rfl

end SubtitleTranslator.Jobs
