import SubtitleTranslator.Library.Paging
import SubtitleTranslator.Proof.JobPrivacy

namespace SubtitleTranslator.Jobs
open Library Text
open Auth (Role)

/-- These are the jobs of an owner in the order of the history, the newest first. -/
def listing (owner : Option HexId) (tables : Tables) : List JobRecord :=
  (tables.jobs.rows.filter (ownedBy owner)).mergeSort newestFirst

/-- The owner whose jobs a list request selects; an administrator can ask for all jobs. -/
def listOwner (account : Account) (all : Bool) : Option HexId :=
  if account.role = .admin && all then none else some account.id

/-- The place of a job in the history. -/
def JobRecord.place (job : JobRecord) : Lex (Str × Str) := toLex (job.createdAt, job.id)

def JobView.place (view : JobView) : Lex (Str × Str) := toLex (view.createdAt, view.id)

def places (owner : Option HexId) (tables : Tables) : List (Lex (Str × Str)) :=
  (listing owner tables).map JobRecord.place

/-- A step takes no job out of the history of an owner. -/
def KeepsListed (deployment : Deployment) (owner : Option HexId) (s : Panel) (event : PanelEvent) :
    Prop :=
  ∀ next, Panel.step deployment s event = some next →
    (listing owner s.tables).map JobRecord.id ⊆ (listing owner next.tables).map JobRecord.id

/-- A reader goes from the first page of the history to the older ones, as the pager of the panel
does. Between two pages any events happen that take no job out of the history. -/
inductive Pager (deployment : Deployment) (account : Account) (all : Bool) (limit : Int)
    (start : Panel) : Panel → Nat → Bool → List JobView → Prop where
  | start : Pager deployment account all limit start start 0 true []
  | older {s before after : Panel} {offset skipped number total : Nat} {more : Bool}
      {shown jobs : List JobView} {counts : List (Status × Nat)} {events : List PanelEvent}
      {environment : Environment} {page count : RedisReading} {fresh : HexId}
      (pager : Pager deployment account all limit start s offset true shown)
      (ran : Machine.run (Panel.step deployment) s events = some before)
      (kept : Machine.Meets (Panel.step deployment)
        (KeepsListed deployment (listOwner account all)) s events)
      (present : before.tables.user? account.id = some account)
      (stepped : Panel.step deployment before (.request account.id
        (.listJobs (some limit) (some offset) all) environment page count fresh) = some after)
      (answered : after.answersTo account.id = before.answersTo account.id ++
        [.page jobs total counts skipped number more]) :
      Pager deployment account all limit start after (skipped + number) more (shown ++ jobs)

section Order

theorem newestFirst_iff {a b : JobRecord} : newestFirst a b = true ↔ b.place ≤ a.place := by
  rw [JobRecord.place, JobRecord.place, Prod.Lex.toLex_le_toLex, newestFirst, Bool.or_eq_true,
    Bool.and_eq_true, decide_eq_true_iff, decide_eq_true_iff, decide_eq_true_iff,
    eq_comm (a := a.createdAt)]

/-- The history is in the order of its places, which differ. -/
theorem listing_places (owner : Option HexId) (tables : Tables) :
    (places owner tables).Pairwise (· ≥ ·) ∧ ((listing owner tables).map JobRecord.id).Nodup ∧
      (places owner tables).Nodup := by
  have ids : ((listing owner tables).map JobRecord.id).Nodup := by
    have rows := (tables.jobs.rows.filter_sublist (p := ownedBy owner)).map JobRecord.id
    exact ((List.mergeSort_perm _ _).map JobRecord.id).nodup_iff.mpr (rows.nodup tables.jobs.keyed)
  refine ⟨?_, ids, ?_⟩
  · rw [places, List.pairwise_map]
    have total (a b : JobRecord) : (newestFirst a b || newestFirst b a) = true := by
      rw [Bool.or_eq_true, newestFirst_iff, newestFirst_iff]
      exact le_total _ _
    have transitive (a b c : JobRecord) (first : newestFirst a b = true)
        (second : newestFirst b c = true) : newestFirst a c = true :=
      newestFirst_iff.mpr ((newestFirst_iff.mp second).trans (newestFirst_iff.mp first))
    have sorted := List.pairwise_mergeSort transitive total (tables.jobs.rows.filter (ownedBy owner))
    exact sorted.imp fun before => newestFirst_iff.mp before
  · refine List.Nodup.of_map (fun place => (ofLex place).2) ?_
    rw [places, List.map_map]
    exact ids

theorem mem_listing {owner : Option HexId} {tables : Tables} {job : JobRecord} :
    job ∈ listing owner tables ↔ job ∈ tables.jobs.rows ∧ ownedBy owner job = true := by
  rw [listing, (List.mergeSort_perm _ _).mem_iff, List.mem_filter]

end Order

/-- A job that stays keeps the time of its creation. -/
def KeepsTimes (before after : Tables) : Prop :=
  ∀ job ∈ before.jobs.rows, ∀ later ∈ after.jobs.rows, later.id = job.id →
    later.createdAt = job.createdAt

namespace KeepsTimes
variable {before after : Tables}

/-- Rows that are updated or removed keep the times of the jobs. -/
theorem of_rows (from_ : ∀ later ∈ after.jobs.rows, ∃ job ∈ before.jobs.rows,
      job.id = later.id ∧ later.createdAt = job.createdAt) : KeepsTimes before after := by
  intro job member later memberLater same
  obtain ⟨origin, old, key, time⟩ := from_ later memberLater
  rw [time, JobTable.eq_of_id old member (key.trans same)]

theorem of_same (same : after.jobs = before.jobs) : KeepsTimes before after :=
  .of_rows fun later member => ⟨later, same ▸ member, rfl, rfl⟩

theorem of_update {selected : JobRecord → Bool} {set : JobColumns → JobColumns}
    {users : List Account} {settings : List (Str × Str)} {revisions : CacheName → Option HexId}
    (kept : ∀ columns, (set columns).createdAt = columns.createdAt) :
    KeepsTimes before ⟨users, before.jobs.update selected set, settings, revisions⟩ := by
  refine .of_rows fun later member => ?_
  obtain ⟨job, old, rfl⟩ := List.mem_map.mp member
  refine ⟨job, old, ?_⟩
  split
  · exact ⟨rfl, kept job.toJobColumns⟩
  · exact ⟨rfl, rfl⟩

theorem of_delete {selected : JobRecord → Bool} (same : after.jobs = before.jobs.delete selected) :
    KeepsTimes before after := by
  refine .of_rows fun later member => ?_
  rw [same] at member
  exact ⟨later, (List.mem_filter.mp member).1, rfl, rfl⟩

theorem of_insert {jobs : List JobRecord} (inserted : before.jobs.insert jobs = some after.jobs) :
    KeepsTimes before after := by
  intro job member later memberLater same
  have grown : after.jobs.rows = before.jobs.rows ++ jobs := by
    rw [JobTable.insert] at inserted
    split at inserted
    · exact congrArg JobTable.rows (Option.some.inj inserted).symm
    · cases inserted
  have stays : job ∈ after.jobs.rows := grown ▸ List.mem_append_left jobs member
  rw [JobTable.eq_of_id memberLater stays same]

end KeepsTimes

theorem cancelWrite_keepsTimes (jobId : Str) (role : Role) (user : HexId) (now : Str)
    (fresh : HexId) (tables : Tables) :
    KeepsTimes tables (cancelWrite jobId role user now fresh tables) := by
  unfold cancelWrite
  dsimp only
  split
  · exact .of_update fun _ => rfl
  · exact .of_same rfl

/-- No transaction changes the time of a job's creation. -/
theorem Write.commit_keepsTimes {fresh : CacheName → HexId} {before after : Tables} {write : Write}
    (committed : write.commit fresh before = some after) : KeepsTimes before after := by
  cases write with
  | createJobs jobs =>
      obtain ⟨table, inserted, rfl⟩ := Option.map_eq_some_iff.mp committed
      exact .of_insert inserted
  | writeJob jobId statuses fields timestamp =>
      obtain rfl := Option.some.inj committed
      unfold Jobs.writeJob
      dsimp only
      split
      · exact .of_update fun _ => rfl
      · exact .of_same rfl
  | cancelJob jobId role user timestamp =>
      obtain rfl := Option.some.inj committed
      exact cancelWrite_keepsTimes jobId role user timestamp _ before
  | deleteJob jobId =>
      obtain rfl := Option.some.inj committed
      exact .of_delete rfl
  | deleteUser user =>
      obtain rfl := Option.some.inj committed
      exact .of_update fun _ => rfl
  | setupFirstAdmin admin =>
      rw [Write.commit] at committed
      split at committed
      · cases committed
      · obtain rfl := Option.some.inj committed
        exact .of_update fun _ => rfl
  | initializeDatabase defaults recoverJobs timestamp =>
      obtain rfl := Option.some.inj committed
      unfold seedAndRecover
      cases recoverJobs with
      | false => exact .of_same rfl
      | true =>
          rw [if_pos rfl]
          exact .of_update fun _ => rfl
  | saveSettings _ | deleteKey _ | encryptExistingApiKeys _ _ | writeAccounts _ =>
      obtain rfl := Option.some.inj committed
      exact .of_same rfl

variable {deployment : Deployment} {account : Account} {owner : Option HexId}

theorem step_keepsTimes {s next : Panel} {event : PanelEvent}
    (stepped : Panel.step deployment s event = some next) : KeepsTimes s.tables next.tables := by
  cases event with
  | request sender request environment first second fresh =>
      obtain ⟨_, _, _, rfl⟩ := step_request stepped
      show KeepsTimes s.tables
        (answer deployment sender request environment first second fresh s).2.tables
      unfold answer
      cases s.tables.user? sender with
      | none => exact .of_same rfl
      | some account =>
          have effect := handle_effect deployment account request environment first second fresh s
          dsimp only
          generalize (handle deployment account request environment first second fresh s).2 = later
            at effect
          cases effect with
          | read extra coherent => exact .of_same rfl
          | cancel jobId now => exact cancelWrite_keepsTimes jobId _ _ now fresh s.tables
          | folder found folder => exact .of_same rfl
          | delete found folder => exact .of_delete rfl
  | write write fresh =>
      simp only [Panel.step] at stepped
      split at stepped
      · obtain ⟨tables, committed, rfl⟩ := Option.map_eq_some_iff.mp stepped
        exact Write.commit_keepsTimes committed
      · cases stepped
  | writeFile jobId name content =>
      obtain rfl := Option.some.inj stepped
      exact .of_same rfl

/-- The places of the jobs that were listed stay in their order. -/
theorem places_grow {before after : Tables} (times : KeepsTimes before after)
    (ids : (listing owner before).map JobRecord.id ⊆ (listing owner after).map JobRecord.id) :
    List.Sublist (places owner before) (places owner after) := by
  obtain ⟨sorted, _, distinct⟩ := listing_places owner before
  obtain ⟨sortedAfter, _, _⟩ := listing_places owner after
  refine List.sublist_of_subperm_of_pairwise (distinct.subperm fun place member => ?_) sorted
    sortedAfter
  obtain ⟨job, listed, rfl⟩ := List.mem_map.mp member
  obtain ⟨later, listedLater, same⟩ := List.mem_map.mp (ids (List.mem_map_of_mem listed))
  have time := times job (mem_listing.mp listed).1 later (mem_listing.mp listedLater).1 same
  refine List.mem_map.mpr ⟨later, listedLater, ?_⟩
  rw [JobRecord.place, JobRecord.place, time, same]

/-- Over a run that takes no job out of the history, its places stay in their order. -/
theorem places_grow_run {s last : Panel} {events : List PanelEvent}
    (ran : Machine.run (Panel.step deployment) s events = some last)
    (kept : Machine.Meets (Panel.step deployment) (KeepsListed deployment owner) s events) :
    List.Sublist (places owner s.tables) (places owner last.tables) := by
  refine Machine.run_invariant_of_meets
    (fun later => List.Sublist (places owner s.tables) (places owner later.tables))
    (fun now event next grown keeps stepped => ?_) (List.Sublist.refl _) kept ran
  exact grown.trans (places_grow (step_keepsTimes stepped) (keeps next stepped))

/-- The counts of the statuses sum to the number of the jobs. -/
theorem sum_counts (jobs : List JobRecord) :
    (((allStatuses.map fun status => (status, jobs.countP fun job => job.row.status = status)).filter
      fun row => row.2 ≠ 0).map Prod.snd).sum = jobs.length := by
  have nonzero (rows : List (Status × Nat)) :
      ((rows.filter fun row => row.2 ≠ 0).map Prod.snd).sum = (rows.map Prod.snd).sum := by
    induction rows with
    | nil => rfl
    | cons row rest ih =>
        by_cases zero : row.2 = 0
        · rw [List.filter_cons_of_neg (by simpa using zero), ih, List.map_cons, List.sum_cons, zero,
            Nat.zero_add]
        · rw [List.filter_cons_of_pos (by simpa using zero), List.map_cons, List.sum_cons, ih,
            List.map_cons, List.sum_cons]
  rw [nonzero, List.map_map]
  induction jobs with
  | nil => rfl
  | cons job rest ih =>
      simp only [allStatuses, List.map_cons, List.map_nil, Function.comp_apply, List.countP_cons,
        List.sum_cons, List.sum_nil, List.length_cons] at ih ⊢
      cases job.row.status <;> simp <;> omega

/-- A list request returns a page of the history and says whether older jobs follow. -/
theorem listJobs_page {s : Panel} {page count : RedisReading} (account : Account) (locale : Locale)
    (all : Bool) (limit : Int) (offset : Nat) (within : offset ≤ 1000000)
    (trusted : Trusted deployment s.tables page ∧ Trusted deployment s.tables count) :
    ∃ jobs counts,
      (listJobs deployment locale account (some limit) (some offset) all page count s).1 =
        .page jobs (places (listOwner account all) s.tables).length counts offset
          (boundedIntArg (some limit) 50 1 200)
          (offset + jobs.length < (places (listOwner account all) s.tables).length) ∧
      jobs.map JobView.place = ((places (listOwner account all) s.tables).drop offset).take
        (boundedIntArg (some limit) 50 1 200) := by
  have start : boundedIntArg (some (offset : Int)) 0 0 jobListMaxOffset = offset := by
    simp only [boundedIntArg, Option.getD_some, jobListMaxOffset]
    omega
  set number := boundedIntArg (some limit) 50 1 200
  have rows := trusted.1 (.list (listOwner account all) number offset) s rfl rfl
  have counted := trusted.2 (.counts (listOwner account all))
    (cachedRows deployment page (.list (listOwner account all) number offset) s).2 rfl
    (cachedRows_tables page _ s)
  have jobs := congrArg (fun rows => rows.paged.map Prod.fst) rows
  have numbers := congrArg Rows.counted counted
  simp only [Rows.paged_jobs] at jobs
  simp only [Rows.counted_withoutOwners] at numbers
  have listed : ((CacheScope.list (listOwner account all) number offset).rows s.tables).paged.map
      Prod.fst = ((listing (listOwner account all) s.tables).drop offset).take number := by
    simp only [CacheScope.rows, Rows.paged, List.map_map]
    exact List.map_id _
  have total : ((((CacheScope.counts (listOwner account all)).rows s.tables).counted.map
      Prod.snd).sum) = (places (listOwner account all) s.tables).length := by
    rw [places, List.length_map, listing, List.length_mergeSort]
    exact sum_counts _
  have owner : (if (decide (account.role = .admin) && all) = true then none else some account.id) =
      listOwner account all := rfl
  let read := cachedRows deployment page (.list (listOwner account all) number offset) s
  refine ⟨read.1.paged.map fun row => jobDict locale account
    (if decide (account.role = .admin) && all then some row.2 else none) row.1,
    (cachedRows deployment count (.counts (listOwner account all)) read.2).1.counted, ?_, ?_⟩
  · unfold listJobs
    simp only [start, owner]
    rw [numbers, total, List.length_map]
  · rw [List.map_map]
    have shown := congrArg (List.map JobRecord.place) (jobs.trans listed)
    rw [List.map_map, List.map_take, List.map_drop] at shown
    exact shown

/-- A list request of a present user is logged and leaves the tables. -/
theorem step_listJobs {before after : Panel} {limit offset : Option Int} {all : Bool}
    {environment : Environment} {page count : RedisReading} {fresh : HexId}
    (present : before.tables.user? account.id = some account)
    (stepped : Panel.step deployment before (.request account.id (.listJobs limit offset all)
      environment page count fresh) = some after) :
    after.tables = before.tables ∧ after.answersTo account.id = before.answersTo account.id ++
      [(listJobs deployment environment.locale account limit offset all page count before).1] := by
  obtain ⟨_, _, _, rfl⟩ := step_request stepped
  have effect := handle_effect deployment account (.listJobs limit offset all) environment page count
    fresh before
  simp only [answer, present]
  constructor
  · simp only [handle, listJobs]
    rw [cachedRows_tables, cachedRows_tables]
  · have logs := effect.logs.2
    simp only [handle] at logs
    simp [Panel.answersTo, handle, logs]

/-- A reader who comes to an offset has taken the pages before it. -/
structure Reading (deployment : Deployment) (account : Account) (all : Bool) (limit : Int)
    (start last : Panel) (offset : Nat) (more : Bool) (shown : List JobView) : Prop where
  reached : last.Reached deployment
  paged : Paged (boundedIntArg (some limit) 50 1 200) (places (listOwner account all) start.tables)
    (places (listOwner account all) last.tables) offset (shown.map JobView.place)
  full : more = true →
    shown.length = offset ∧ offset ≤ (places (listOwner account all) last.tables).length
  ended : more = false → (places (listOwner account all) last.tables).length ≤ offset

theorem Pager.reading {all : Bool} {limit : Int} {start last : Panel} {offset : Nat} {more : Bool}
    {shown : List JobView} (reached : start.Reached deployment)
    (pager : Pager deployment account all limit start last offset more shown)
    (few : ((places (listOwner account all) last.tables).length : Int) ≤ jobListMaxOffset) :
    Reading deployment account all limit start last offset more shown := by
  rw [jobListMaxOffset] at few
  induction pager with
  | start => exact ⟨reached, .start, fun _ => ⟨rfl, Nat.zero_le _⟩, nofun⟩
  | @older s before after offset skipped number total more shown jobs counts events environment page
      count fresh pager ran kept present stepped answered ih =>
      have grown := places_grow_run ran kept
      obtain ⟨tables, logged⟩ := step_listJobs present stepped
      rw [tables] at few
      have room := grown.length_le
      obtain ⟨reachedBefore, paged, full, _⟩ := ih (by omega)
      obtain ⟨filled, behind⟩ := full rfl
      obtain ⟨first, files, past, ranPast⟩ := reachedBefore
      have reachedNow : before.Reached deployment :=
        ⟨first, files, past ++ events, (Machine.run_append _).mpr ⟨s, ranPast, ran⟩⟩
      obtain ⟨authentic, authenticToo, _, _⟩ := step_request stepped
      have trusted := And.intro (reachedNow.coherent.trusted authentic)
        (reachedNow.coherent.trusted authenticToo)
      obtain ⟨views, numbers, response, page⟩ := listJobs_page account
        environment.locale all limit offset (by omega) trusted
      rw [logged, response] at answered
      have same := List.append_cancel_left answered
      simp only [List.cons.injEq, Response.page.injEq, and_true] at same
      obtain ⟨rfl, -, -, rfl, rfl, rfl⟩ := same
      have length := congrArg List.length page
      rw [List.length_map, List.length_take, List.length_drop] at length
      refine ⟨⟨first, files, past ++ events ++ [_], (Machine.run_append _).mpr
        ⟨before, (Machine.run_append _).mpr ⟨s, ranPast, ran⟩,
          (Machine.run_cons _).mpr ⟨after, stepped, rfl⟩⟩⟩, ?_, fun follows => ?_, fun ends => ?_⟩
      · rw [tables, List.map_append, page]
        exact paged.page grown
      · have follows := of_decide_eq_true follows
        rw [tables, List.length_append]
        omega
      · have ends := of_decide_eq_false ends
        rw [tables]
        omega

def historyPanel : Panel :=
  .initial ⟨[submitter], ⟨[queuedJob foreignJobId submitter.id, queuedJob ownJobId submitter.id],
    by decide⟩, [], fun _ => some oldRevision⟩ fun _ _ => none

theorem historyPanel_listing :
    (listing (listOwner submitter false) historyPanel.tables).map JobRecord.id =
      [foreignJobId, ownJobId] := by
  have sorted : ([queuedJob foreignJobId submitter.id, queuedJob ownJobId submitter.id].Pairwise
      fun a b => newestFirst a b = true) := by
    decide +kernel
  have all : historyPanel.tables.jobs.rows.filter (ownedBy (listOwner submitter false)) =
      [queuedJob foreignJobId submitter.id, queuedJob ownJobId submitter.id] := by
    decide +kernel
  rw [listing, all, List.mergeSort_of_pairwise sorted]
  rfl

/-- The request for one job of the history. -/
def pageRequest (offset : Nat) (fresh : HexId) : PanelEvent :=
  .request submitter.id (.listJobs (some 1) (some (offset : Int)) false) plainEnvironment coldReading
    coldReading fresh

/-- A page of one job shows the job at its offset. -/
theorem pageRequest_answer {before after : Panel} {offset : Nat} {fresh : HexId}
    (same : before.tables = historyPanel.tables) (within : offset < 2)
    (stepped : Panel.step plainDeployment before (pageRequest offset fresh) = some after) :
    after.tables = historyPanel.tables ∧ ∃ jobs total counts,
      after.answersTo submitter.id = before.answersTo submitter.id ++
        [.page jobs total counts offset 1 (offset + 1 < 2)] := by
  have present : before.tables.user? submitter.id = some submitter := by
    rw [same]
    decide +kernel
  have cold : Trusted plainDeployment before.tables coldReading := by
    rw [same]
    exact (@coherent_initial plainDeployment historyPanel.tables historyPanel.files).trusted rfl
  have count : (places (listOwner submitter false) before.tables).length = 2 := by
    have ids := congrArg List.length historyPanel_listing
    rw [List.length_map] at ids
    rw [same, places, List.length_map, ids]
    rfl
  obtain ⟨tables, logged⟩ := step_listJobs present stepped
  obtain ⟨jobs, counts, response, page⟩ := listJobs_page submitter
    plainEnvironment.locale false 1 offset (by omega) ⟨cold, cold⟩
  have one : boundedIntArg (some 1) 50 1 200 = 1 := rfl
  have length := congrArg List.length page
  rw [List.length_map, List.length_take, List.length_drop, count, one] at length
  have single : jobs.length = 1 := by omega
  rw [count, one, single] at response
  exact ⟨tables.trans same, jobs, 2, counts, logged.trans (by rw [response])⟩

end SubtitleTranslator.Jobs
