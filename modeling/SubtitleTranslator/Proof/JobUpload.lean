import SubtitleTranslator.Construction.JobUpload
import SubtitleTranslator.Library.Fallible
import SubtitleTranslator.Proof.UploadNames

namespace SubtitleTranslator.Jobs
open Library Text

/-- A request leaves no trace when the rows, the counters and the folders are as before. -/
structure LeavesNoTrace (before after : JobStore) : Prop where
  rows : after.tables.jobs = before.tables.jobs
  counters : after.buckets = before.buckets
  folders : after.folders = before.folders

/-- The staging of these files makes the folder of one of them and cannot save it. -/
def StopsAtSave (env : SubmitEnvironment) (start stop : Nat) (folders : HexId → Option Folder) :
    Prop :=
  ∃ k, start ≤ k ∧ k < stop ∧ (env.faults.save k).isSome ∧
    (∀ j, start ≤ j → j < k → env.faults.save j = none) ∧
    ∀ j, start ≤ j → j ≤ k → env.faults.makeFolder j = false ∧ folders (env.jobId j) = none ∧
      ∀ i, start ≤ i → i < j → env.jobId i ≠ env.jobId j

/-- A valid form reaches its staging, and the staging stops at a save. -/
def LeavesFolder (env : SubmitEnvironment) (form : JobForm) (s : JobStore) : Prop :=
  (∃ staged, validateForm env form s.tables = .ok staged) ∧
    StopsAtSave env 0 form.files.length s.folders

/-- The folders are those before the request and those of the entries, which were free. -/
structure Staged (before : HexId → Option Folder) (pending : List PendingJob)
    (folders : HexId → Option Folder) : Prop where
  free : ∀ job ∈ pending, before job.jobId = none
  made : ∀ job ∈ pending, (folders job.jobId).isSome
  others : ∀ id, (∀ job ∈ pending, job.jobId ≠ id) → folders id = before id

theorem removeFolders_concat (pending : List PendingJob) (job : PendingJob)
    (folders : HexId → Option Folder) :
    removeFolders (pending ++ [job]) folders =
      Function.update (removeFolders pending folders) job.jobId none := by
  rw [removeFolders, List.foldl_append]
  rfl

/-- The cleanup removes the folders of the entries and no others. -/
theorem removeFolders_apply (pending : List PendingJob) (folders : HexId → Option Folder)
    (id : HexId) :
    removeFolders pending folders id =
      if ∃ job ∈ pending, job.jobId = id then none else folders id := by
  induction pending using List.reverseRecOn with
  | nil => simp [removeFolders]
  | append_singleton rest job ih =>
      rw [removeFolders_concat]
      by_cases same : job.jobId = id
      · rw [same, Function.update_self, if_pos ⟨job, by simp, same⟩]
      · rw [Function.update_of_ne (Ne.symm same), ih]
        simp only [List.mem_append, List.mem_singleton, or_and_right, exists_or, exists_eq_left,
          same, or_false]

/-- The cleanup gives the folders before the request back. -/
theorem Staged.cleaned {before folders : HexId → Option Folder} {pending : List PendingJob}
    (staged : Staged before pending folders) : removeFolders pending folders = before := by
  funext id
  rw [removeFolders_apply]
  split_ifs with entry
  · obtain ⟨job, member, rfl⟩ := entry
    exact (staged.free job member).symm
  · push Not at entry
    exact staged.others id entry

/-- A name that is free in the staging is free before the request and no entry's. -/
theorem Staged.absent {before folders : HexId → Option Folder} {pending : List PendingJob}
    (staged : Staged before pending folders) {id : HexId} (free : folders id = none) :
    before id = none ∧ ∀ job ∈ pending, job.jobId ≠ id := by
  have other : ∀ job ∈ pending, job.jobId ≠ id := by
    rintro job member rfl
    have made := staged.made job member
    rw [free] at made
    cases made
  exact ⟨by rw [← staged.others id other, free], other⟩

/-- A new entry takes a free name. -/
theorem Staged.concat {before folders : HexId → Option Folder} {pending : List PendingJob}
    (staged : Staged before pending folders) (job : PendingJob) (free : folders job.jobId = none)
    (folder : Folder) :
    Staged before (pending ++ [job]) (Function.update folders job.jobId (some folder)) := by
  obtain ⟨new, different⟩ := staged.absent free
  refine ⟨?_, ?_, fun id other => ?_⟩
  · rw [List.forall_mem_append, List.forall_mem_singleton]
    exact ⟨staged.free, new⟩
  · rw [List.forall_mem_append, List.forall_mem_singleton, Function.update_self]
    refine ⟨fun entry member => ?_, rfl⟩
    rw [Function.update_of_ne (different entry member)]
    exact staged.made entry member
  · rw [List.forall_mem_append, List.forall_mem_singleton] at other
    rw [Function.update_of_ne other.2.symm, staged.others id other.1]

/-- The staging stops at the save of its first file or of a later one. -/
theorem stopsAtSave_cons (env : SubmitEnvironment) (k count : Nat)
    (folders : HexId → Option Folder) (folder : Folder) :
    StopsAtSave env k (k + 1 + count) folders ↔
      env.faults.makeFolder k = false ∧ folders (env.jobId k) = none ∧
        ((env.faults.save k).isSome ∨ env.faults.save k = none ∧
          StopsAtSave env (k + 1) (k + 1 + count)
            (Function.update folders (env.jobId k) (some folder))) := by
  constructor
  · rintro ⟨stop, from_, below, raises, saved, made⟩
    obtain ⟨first, free, _⟩ := made k le_rfl from_
    refine ⟨first, free, ?_⟩
    rcases Nat.eq_or_lt_of_le from_ with rfl | later
    · exact .inl raises
    · refine .inr ⟨saved k le_rfl later, stop, later, below, raises, fun j start => ?_, ?_⟩
      · exact saved j (by omega)
      · intro j start upTo
        obtain ⟨makes, absent, different⟩ := made j (by omega) upTo
        refine ⟨makes, ?_, fun i after => different i (by omega)⟩
        rw [Function.update_of_ne (different k le_rfl start).symm, absent]
  · rintro ⟨first, free, raises | ⟨saves, stop, from_, below, raises, saved, made⟩⟩
    · refine ⟨k, le_rfl, by omega, raises, fun j _ => by omega, fun j start upTo => ?_⟩
      obtain rfl : j = k := by omega
      exact ⟨first, free, fun i _ => by omega⟩
    · refine ⟨stop, by omega, below, raises, fun j start before => ?_, fun j start upTo => ?_⟩
      · rcases Nat.eq_or_lt_of_le start with rfl | later
        · exact saves
        · exact saved j later before
      · rcases Nat.eq_or_lt_of_le start with rfl | later
        · exact ⟨first, free, fun i _ => by omega⟩
        · obtain ⟨makes, absent, different⟩ := made j later upTo
          have apart : env.jobId k ≠ env.jobId j := by
            intro same
            rw [← same, Function.update_self] at absent
            cases absent
          rw [Function.update_of_ne apart.symm] at absent
          refine ⟨makes, absent, fun i after before => ?_⟩
          rcases Nat.eq_or_lt_of_le after with rfl | laterToo
          · exact apart
          · exact different i laterToo before

section Staging
variable {env : SubmitEnvironment} {k : Nat} {upload : Upload} {original : Str}
variable {rest : List (Upload × Str)} {pending : List PendingJob}
variable {folders : HexId → Option Folder}

theorem stageFiles_unmade
    (unmade : env.faults.makeFolder k = true ∨ (folders (env.jobId k)).isSome = true) :
    stageFiles env k ((upload, original) :: rest) pending folders = ⟨false, pending, folders⟩ := by
  rw [stageFiles]
  exact if_pos unmade

theorem stageFiles_unsaved
    (made : ¬(env.faults.makeFolder k = true ∨ (folders (env.jobId k)).isSome = true))
    {part : Option (List UInt8)} (raises : env.faults.save k = some part) :
    stageFiles env k ((upload, original) :: rest) pending folders =
      ⟨false, pending, Function.update folders (env.jobId k)
        (some (Folder.single (storedName original) part))⟩ := by
  rw [stageFiles, raises]
  exact if_neg made

theorem stageFiles_saved
    (made : ¬(env.faults.makeFolder k = true ∨ (folders (env.jobId k)).isSome = true))
    (saves : env.faults.save k = none) :
    stageFiles env k ((upload, original) :: rest) pending folders =
      stageFiles env (k + 1) rest (pending ++ [⟨env.jobId k, original, storedName original⟩])
        (Function.update folders (env.jobId k)
          (some (Folder.single (storedName original) (some upload.content)))) := by
  rw [stageFiles, saves]
  exact if_neg made

end Staging

/-- A folder that is no entry's stays, and it was not there. -/
def Leftover (before : HexId → Option Folder) (staging : Staging) : Prop :=
  ∃ id, before id = none ∧ (∀ job ∈ staging.pending, job.jobId ≠ id) ∧
    (staging.folders id).isSome

/-- The staging either leaves the folder of the save that it stops at, or entries that the cleanup
can undo. -/
theorem stageFiles_spec (env : SubmitEnvironment) {before : HexId → Option Folder} (k : Nat)
    (files : List (Upload × Str)) {pending : List PendingJob} {folders : HexId → Option Folder}
    (staged : Staged before pending folders) :
    (StopsAtSave env k (k + files.length) folders ∧
        (stageFiles env k files pending folders).complete = false ∧
        Leftover before (stageFiles env k files pending folders)) ∨
      (¬ StopsAtSave env k (k + files.length) folders ∧
        Staged before (stageFiles env k files pending folders).pending
          (stageFiles env k files pending folders).folders) := by
  induction files generalizing k pending folders with
  | nil =>
      refine .inr ⟨fun ⟨stop, from_, below, _⟩ => ?_, staged⟩
      rw [List.length_nil] at below
      omega
  | cons file rest ih =>
      obtain ⟨upload, original⟩ := file
      have count : k + ((upload, original) :: rest).length = k + 1 + rest.length := by
        rw [List.length_cons]
        omega
      rw [count]
      by_cases unmade : env.faults.makeFolder k = true ∨ (folders (env.jobId k)).isSome = true
      · rw [stageFiles_unmade unmade, stopsAtSave_cons env k rest.length folders fun _ => none]
        refine .inr ⟨fun ⟨makes, free, _⟩ => ?_, staged⟩
        rw [makes, free] at unmade
        exact absurd unmade (by decide)
      · have free : env.faults.makeFolder k = false ∧ folders (env.jobId k) = none := by
          simpa using unmade
        cases save : env.faults.save k with
        | some part =>
            rw [stageFiles_unsaved unmade save,
              stopsAtSave_cons env k rest.length folders fun _ => none, save]
            obtain ⟨new, different⟩ := staged.absent free.2
            refine .inl ⟨⟨free.1, free.2, .inl rfl⟩, rfl, env.jobId k, new, different, ?_⟩
            change (Function.update folders (env.jobId k) _ (env.jobId k)).isSome
            rw [Function.update_self]
            rfl
        | none =>
            rw [stageFiles_saved unmade save, stopsAtSave_cons env k rest.length folders
              (Folder.single (storedName original) (some upload.content)), save]
            have next := ih (k + 1) (staged.concat
              ⟨env.jobId k, original, storedName original⟩ free.2
              (Folder.single (storedName original) (some upload.content)))
            refine next.imp (fun ⟨stops, more⟩ => ⟨⟨free.1, free.2, .inr ⟨rfl, stops⟩⟩, more⟩)
              fun ⟨goes, more⟩ => ⟨?_, more⟩
            rintro ⟨_, _, raises | ⟨_, stops⟩⟩
            · cases raises
            · exact goes stops

theorem staged_nil (before : HexId → Option Folder) : Staged before [] before :=
  ⟨List.forall_mem_nil _, List.forall_mem_nil _, fun _ _ => rfl⟩

/-- A valid form has a name for each of its files. -/
theorem validateForm_length {env : SubmitEnvironment} {form : JobForm} {tables : Tables}
    {files : List (Upload × Str)} {options : JobOptions}
    (valid : validateForm env form tables = .ok (files, options)) :
    files.length = form.files.length := by
  unfold validateForm at valid
  cases captcha : env.captcha with
  | some failure => simp only [captcha, reduceCtorEq] at valid
  | none =>
      simp only [captcha] at valid
      cases named : validatedFiles env.data form.files with
      | error answer =>
          simp only [named] at valid
          split_ifs at valid
      | ok names =>
          simp only [named] at valid
          -- The last two cases are a form with a model and one without.
          split_ifs at valid <;> cases valid <;> exact (Fallible.mapM_ok.mp named).length_eq.symm

/-- A transaction that refuses the request changes nothing. -/
theorem submitTransaction_exceeded {env : SubmitEnvironment} {options : JobOptions}
    {pending : List PendingJob} {s after : JobStore} {exceeded : Quotas.Exceeded}
    (done : submitTransaction env options pending s = some (some exceeded, after)) :
    after = s := by
  unfold submitTransaction submitStatements at done
  split at done
  · cases done
  · split at done
    · cases done
    · split at done
      · cases done
      · split at done
        · cases done
          rfl
        · split at done
          · cases done
          · split at done <;> cases done

/-- A failed submission leaves no trace unless its staging stops at a save. -/
theorem failed_submission_traceless_iff (env : SubmitEnvironment) (form : JobForm) (s : JobStore) :
    ((createJobs env form s).1.status ≠ 202 → LeavesNoTrace s (createJobs env form s).2) ↔
      ¬ LeavesFolder env form s := by
  unfold createJobs
  cases valid : validateForm env form s.tables with
  | error answer =>
      refine iff_of_true (fun _ => ⟨rfl, rfl, rfl⟩) fun ⟨⟨staged, reached⟩, _⟩ => ?_
      rw [valid] at reached
      cases reached
  | ok parts =>
      obtain ⟨files, options⟩ := parts
      have spec := stageFiles_spec env 0 files (staged_nil s.folders)
      rw [Nat.zero_add, validateForm_length valid] at spec
      have reached : LeavesFolder env form s ↔ StopsAtSave env 0 form.files.length s.folders :=
        ⟨And.right, fun stops => ⟨⟨_, valid⟩, stops⟩⟩
      rw [reached]
      dsimp only
      generalize stageFiles env 0 files [] s.folders = staging at spec ⊢
      rcases spec with ⟨stops, broken, id, new, other, kept⟩ | ⟨goes, staged⟩
      · rw [if_pos broken]
        refine iff_of_false (fun clean => ?_) (not_not.mpr stops)
        have failed : SubmitAnswer.raised.status ≠ 202 := by decide
        have same := congrFun (clean failed).folders id
        change removeFolders staging.pending staging.folders id = _ at same
        rw [removeFolders_apply, if_neg (by simpa using other), new] at same
        rw [same] at kept
        cases kept
      · refine iff_of_true (fun failed => ?_) goes
        by_cases broken : staging.complete = false
        · rw [if_pos broken]
          exact ⟨rfl, rfl, staged.cleaned⟩
        · rw [if_neg broken] at failed ⊢
          cases done : submitTransaction env options staging.pending
              { s with folders := staging.folders } with
          | none => exact ⟨rfl, rfl, staged.cleaned⟩
          | some result =>
              obtain ⟨exceeded | exceeded, after⟩ := result
              · rw [done] at failed
                exact absurd rfl failed
              · obtain rfl := submitTransaction_exceeded done
                exact ⟨rfl, rfl, staged.cleaned⟩

/-- An identifier of 32 zeros. -/
def zeroId : HexId := ⟨List.replicate 32 0x30, by decide, by decide⟩

/-- A panel without jobs. -/
def emptyStore : JobStore where
  tables :=
    { users := []
      jobs := ⟨[], List.nodup_nil⟩
      settings := []
      revisions := fun _ => none }
  limits := ⟨fun _ => 1, Nat.one_pos⟩
  buckets := fun _ => none
  folders := fun _ => none

/-- A full disk: the folder of the file is made, and its content is not written. -/
def fullDisk : SubmitEnvironment where
  settings :=
    { environ := fun _ => none
      debug := false
      lower := lower
      float := fun _ => none }
  data := asciiData
  dumps := fun _ => []
  captcha := none
  user := some ⟨zeroId, ofString "ann", .user⟩
  jobId := fun _ => zeroId
  revision := zeroId
  timestamp := []
  clock := 0
  faults :=
    { makeFolder := fun _ => false
      save := fun _ => some none
      startTransaction := false
      quota := false
      insert := fun _ => false
      bump := false
      commit := false }

def oneFile : JobForm where
  files := [⟨some (ofString "a.srt"), [0x31]⟩]
  provider := none
  model := none
  sourceLanguage := none
  targetLanguages := none
  encoding := none

/-- The request that a full disk stops is an internal error, and its folder stays. -/
theorem full_disk_leaves_folder :
    ¬((createJobs fullDisk oneFile emptyStore).1.status ≠ 202 →
      LeavesNoTrace emptyStore (createJobs fullDisk oneFile emptyStore).2) := by
  intro clean
  have failed : (createJobs fullDisk oneFile emptyStore).1.status ≠ 202 := by decide +kernel
  have kept : ((createJobs fullDisk oneFile emptyStore).2.folders zeroId).isSome = true := by
    decide +kernel
  rw [(clean failed).folders] at kept
  cases kept

end SubtitleTranslator.Jobs
