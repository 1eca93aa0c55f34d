import SubtitleTranslator.Construction.RunJob
import SubtitleTranslator.Proof.AcceptedSettings
import SubtitleTranslator.Proof.JobUpload
import SubtitleTranslator.Proof.UploadNames

namespace SubtitleTranslator.Jobs
open Library Text
open Engine (Language fileFormat?)

/-- `eraseDups` keeps the first of equal elements. -/
theorem eraseDups_nodup {α : Type} [BEq α] [LawfulBEq α] (xs : List α) : xs.eraseDups.Nodup := by
  induction size : xs.length using Nat.strong_induction_on generalizing xs with
  | _ size ih =>
      cases xs with
      | nil => exact List.nodup_nil
      | cons first rest =>
          rw [List.eraseDups_cons, List.nodup_cons, List.mem_eraseDups]
          have shorter := List.length_filter_le (fun x => !x == first) rest
          rw [List.length_cons] at size
          refine ⟨fun again => ?_, ih _ (by omega) _ rfl⟩
          have apart := (List.mem_filter.mp again).2
          rw [beq_self_eq_true] at apart
          cases apart

/-- The stored name of an upload has a suffix that its worker can read. -/
theorem storedName_readable {data : UnicodeData} {rawName original : Str}
    (named : uploadDisplayName data rawName = .ok (some original)) :
    (fileFormat? (lower (pathSuffix (storedName original)))).isSome = true := by
  rw [uploadDisplayName_eq, Except.ok.injEq, Option.map_eq_some_iff] at named
  obtain ⟨⟨stem, extension⟩, supported, rfl⟩ := named
  obtain ⟨split, listed⟩ := rpartition?_name supported (guardedStem data stem)
  have filled : extension ≠ [] := by
    rintro rfl
    exact absurd listed (by decide)
  have suffix : pathSuffix (guardedStem data stem ++ ofString "." ++ extension) =
      ofString "." ++ extension := by
    rw [pathSuffix, split]
    exact if_neg fun empty =>
      empty.elim (guardedStem_tidy data stem).1.nonempty filled
  have lowered : lower (ofString "." ++ extension) = ofString "." ++ lower extension :=
    List.map_append
  dsimp only
  rw [storedName, suffix, lowered]
  have four : ∀ suffix ∈ supportedExtensions,
      (fileFormat? (lower (pathSuffix (ofString "source" ++ suffix)))).isSome = true := by
    decide +kernel
  exact four _ listed

/-- The keys of the languages stand for different languages. -/
theorem exists_languages {targets : List Str} (known : ∀ key ∈ targets, key ∈ languageKeys)
    (distinct : targets.Nodup) :
    ∃ languages : List Language, languages.map Language.key = targets ∧ languages.Nodup := by
  have each : ∀ key ∈ targets, ∃ language : Language, language.key = key := by
    intro key listed
    obtain ⟨language, _, same⟩ := List.mem_map.mp (known key listed)
    exact ⟨language, same⟩
  obtain ⟨languages, same⟩ : ∃ languages : List Language, languages.map Language.key = targets := by
    clear known distinct
    induction targets with
    | nil => exact ⟨[], rfl⟩
    | cons key rest ih =>
        rw [List.forall_mem_cons] at each
        obtain ⟨language, first⟩ := each.1
        obtain ⟨others, later⟩ := ih each.2
        exact ⟨language :: others, by rw [List.map_cons, first, later]⟩
  exact ⟨languages, same, List.Nodup.of_map Language.key (same ▸ distinct)⟩

/-- The options of a job are those that its worker can use. -/
structure Usable (env : Settings.Environment) (options : JobOptions) : Prop where
  provider : options.provider ∈ env.availableProviders
  languages : options.targetLanguages ≠ [] ∧ options.targetLanguages.Nodup ∧
    options.targetLanguages.length ≤ maxTargetLanguages ∧
      ∀ key ∈ options.targetLanguages, key ∈ languageKeys
  batchSize : ∃ value, int? options.batchSize = some value ∧ 1 ≤ value ∧ value ≤ 100
  workers : ∃ value, int? options.workers = some value ∧ 1 ≤ value ∧ value ≤ 16
  maxLines : ∃ value, int? options.maxLines = some value ∧ 1 ≤ value ∧ value ≤ 5
  width : ∃ value, env.float options.width = some value ∧ 4 ≤ value ∧ value ≤ 80
  rpm : ∃ value, env.float options.rpm = some value ∧ 0 ≤ value ∧ value ≤ 10000

section Settings
variable {env : Settings.Environment} (started : Settings.Started env) {rows : Str → Option Str}
variable (acceptable : Settings.RowsAcceptable env rows)
include started acceptable

theorem integer_usable {key : Str} {least most : Nat} (public_ : key ∈ Settings.publicNames)
    (bounded : (key, least, most) ∈ Settings.integerSettings) :
    ∃ value, int? ((Settings.viewValue env rows key).getD []) = some value ∧
      least ≤ value ∧ value ≤ most := by
  obtain ⟨text, view, accepted, _⟩ := acceptable.viewValue started public_
  obtain ⟨value, read, _, bounds⟩ := accepted.integer least most bounded
  exact ⟨value, by rw [view]; exact read, bounds⟩

theorem number_usable {key : Str} {least most : ℚ} (public_ : key ∈ Settings.publicNames)
    (bounded : (key, least, most) ∈ Settings.numberSettings) :
    ∃ value, env.float ((Settings.viewValue env rows key).getD []) = some value ∧
      least ≤ value ∧ value ≤ most := by
  obtain ⟨text, view, accepted, _⟩ := acceptable.viewValue started public_
  obtain ⟨value, read, bounds⟩ := accepted.number least most bounded
  exact ⟨value, by rw [view]; exact read, bounds⟩

end Settings

/-- A form that is accepted under acceptable settings has usable options and readable names. -/
theorem validateForm_usable {env : SubmitEnvironment} (started : Settings.Started env.settings)
    {form : JobForm} {tables : Tables}
    (acceptable : Settings.RowsAcceptable env.settings fun key => tables.settings.lookup key)
    {files : List (Upload × Str)} {options : JobOptions}
    (valid : validateForm env form tables = .ok (files, options)) :
    Usable env.settings options ∧ ∀ file ∈ files,
      (fileFormat? (lower (pathSuffix (storedName file.2)))).isSome = true := by
  have numbers : (∀ entry ∈ [("batch_size", 1, 100), ("workers", 1, 16), ("max_lines", 1, 5)],
      ofString entry.1 ∈ Settings.publicNames ∧
        (ofString entry.1, entry.2.1, entry.2.2) ∈ Settings.integerSettings) ∧
      ofString "width" ∈ Settings.publicNames ∧ ofString "rpm" ∈ Settings.publicNames := by
    decide +kernel
  simp only [List.forall_mem_cons] at numbers
  obtain ⟨⟨batchSize, workers, maxLines, _⟩, width, rpm⟩ := numbers
  unfold validateForm at valid
  split at valid
  · cases valid
  split at valid
  · cases valid
  split at valid
  · cases valid
  next names named =>
  dsimp only at valid
  split at valid
  · cases valid
  next provider =>
  split at valid
  · cases valid
  next targets =>
  split at valid
  · cases valid
  next few =>
  cases valid
  rw [not_or, List.any_eq_true, not_exists] at targets
  refine ⟨⟨not_not.mp provider, ⟨targets.1, eraseDups_nodup _, Nat.le_of_not_lt few,
    fun key listed => ?_⟩, integer_usable started acceptable batchSize.1 batchSize.2,
    integer_usable started acceptable workers.1 workers.2,
    integer_usable started acceptable maxLines.1 maxLines.2,
    number_usable started acceptable width (List.mem_cons_of_mem _ List.mem_cons_self),
    number_usable started acceptable rpm List.mem_cons_self⟩, fun file member => ?_⟩
  · by_contra unknown
    exact targets.2 key ⟨listed, decide_eq_true unknown⟩
  · obtain ⟨upload, _, accepted⟩ :=
      Fallible.forall_of_forall₂ (Fallible.mapM_ok.mp named) member
    split at accepted
    · cases accepted
    · cases accepted
    · next original named =>
        cases accepted
        exact storedName_readable named

/-- A staged job has its file in its folder. -/
def Ready (folders : HexId → Option Folder) (job : PendingJob) : Prop :=
  job.stored = storedName job.original ∧
    ∃ content, folders job.jobId = some (Folder.single job.stored (some content))

theorem stageFiles_ready (env : SubmitEnvironment) (k : Nat) (files : List (Upload × Str))
    {pending : List PendingJob} {folders : HexId → Option Folder}
    (before : ∀ job ∈ pending, Ready folders job)
    (complete : (stageFiles env k files pending folders).complete = true) :
    ∀ job ∈ (stageFiles env k files pending folders).pending,
      Ready (stageFiles env k files pending folders).folders job ∧
        (job ∈ pending ∨ ∃ file ∈ files, job.original = file.2) := by
  induction files generalizing k pending folders with
  | nil => exact fun job member => ⟨before job member, .inl member⟩
  | cons file rest ih =>
      obtain ⟨upload, original⟩ := file
      by_cases unmade : env.faults.makeFolder k = true ∨ (folders (env.jobId k)).isSome = true
      · rw [stageFiles_unmade unmade] at complete
        cases complete
      · cases save : env.faults.save k with
        | some part =>
            rw [stageFiles_unsaved unmade save] at complete
            cases complete
        | none =>
            rw [stageFiles_saved unmade save] at complete ⊢
            have staged : ∀ job ∈ pending ++ [⟨env.jobId k, original, storedName original⟩],
                Ready (Function.update folders (env.jobId k)
                  (some (Folder.single (storedName original) (some upload.content)))) job := by
              intro job member
              rcases List.mem_append.mp member with earlier | now
              · obtain ⟨stored, content, there⟩ := before job earlier
                refine ⟨stored, content, ?_⟩
                rw [Function.update_of_ne]
                · exact there
                · intro same
                  rw [same] at there
                  exact unmade (.inr (by rw [there]; rfl))
              · cases List.mem_singleton.mp now
                exact ⟨rfl, upload.content, Function.update_self _ _ _⟩
            intro job member
            obtain ⟨ready, new⟩ := ih (k + 1) staged complete job member
            refine ⟨ready, ?_⟩
            rcases new with old | ⟨file, listed, same⟩
            · rcases List.mem_append.mp old with earlier | now
              · exact .inl earlier
              · cases List.mem_singleton.mp now
                exact .inr ⟨_, List.mem_cons_self, rfl⟩
            · exact .inr ⟨file, List.mem_cons_of_mem _ listed, same⟩

theorem insertJobs_rows {env : SubmitEnvironment} {user : Account} {options : JobOptions} {k : Nat}
    {pending : List PendingJob} {table after : JobTable}
    (inserted : insertJobs env user options k pending table = some after) :
    table.rows ⊆ after.rows ∧ ∀ job ∈ pending, newJob env user options job ∈ after.rows := by
  induction pending generalizing k table with
  | nil =>
      cases inserted
      exact ⟨List.Subset.refl _, List.forall_mem_nil _⟩
  | cons job rest ih =>
      rw [insertJobs] at inserted
      split at inserted
      · cases inserted
      · split at inserted
        · cases inserted
        · next middle added =>
            obtain ⟨kept, others⟩ := ih inserted
            rw [JobTable.insert] at added
            split at added
            · cases added
              exact ⟨fun row member => kept (List.mem_append_left _ member),
                List.forall_mem_cons.mpr
                  ⟨kept (List.mem_append_right _ List.mem_cons_self), others⟩⟩
            · cases added

theorem validateForm_error {env : SubmitEnvironment} {form : JobForm} {tables : Tables}
    {ids : List HexId} : validateForm env form tables ≠ .error (.created ids) := by
  intro invalid
  unfold validateForm at invalid
  split at invalid
  · cases invalid
  split at invalid
  · cases invalid
  split at invalid
  · next answer failed =>
      cases invalid
      obtain ⟨upload, _, raised⟩ := Fallible.mapM_error failed
      split at raised <;> cases raised
  · dsimp only at invalid
    split at invalid
    · cases invalid
    split at invalid
    · cases invalid
    split at invalid <;> cases invalid

/-- An accepted request has staged its files and inserted their rows. -/
theorem createJobs_created {env : SubmitEnvironment} {form : JobForm} {s after : JobStore}
    {ids : List HexId} (created : createJobs env form s = (.created ids, after)) :
    ∃ files options user, ∃ pending : List PendingJob,
      validateForm env form s.tables = .ok (files, options) ∧
      ids = pending.map PendingJob.jobId ∧
      ∀ job ∈ pending, Ready after.folders job ∧ (∃ file ∈ files, job.original = file.2) ∧
        newJob env user options job ∈ after.tables.jobs.rows := by
  unfold createJobs at created
  split at created
  · next answer invalid =>
      cases created
      exact absurd invalid validateForm_error
  · next files options valid =>
      dsimp only at created
      split at created
      · cases created
      · next complete =>
          split at created
          · cases created
          · cases created
          · next later done =>
              cases created
              have ready := stageFiles_ready env 0 files (List.forall_mem_nil _)
                (by simpa using complete)
              unfold submitTransaction submitStatements at done
              split at done
              · cases done
              · split at done
                · cases done
                · next user _ =>
                    split at done
                    · cases done
                    · split at done
                      · cases done
                      · split at done
                        · cases done
                        · next jobs inserted =>
                            split at done
                            · cases done
                            · cases done
                              refine ⟨files, options, user, _, valid, rfl, fun job member => ?_⟩
                              obtain ⟨stored, earlier | file⟩ := ready job member
                              · cases earlier
                              · exact ⟨stored, file, (insertJobs_rows inserted).2 job member⟩

/-- The plan is what a worker reads from a row and its options. -/
structure PlanOf {Key : Type} (env : Settings.Environment) (record : JobRecord)
    (options : JobOptions) (plan : JobPlan Key) : Prop where
  filename : plan.filename = record.filename
  stored : plan.stored = record.storedName
  encoding : plan.encoding = options.encoding
  targets : plan.targets.map Language.key = options.targetLanguages
  sourceLanguage : plan.sourceLanguage = options.sourceLanguage
  batchSize : int? options.batchSize = some plan.batchSize
  width : env.float options.width = some plan.width
  maxLines : int? options.maxLines = some plan.maxLines

/-- A worker can read usable options. -/
theorem Usable.exists_plan {Key : Type} {env : Settings.Environment} {options : JobOptions}
    (usable : Usable env options) (codecs : Engine.Codecs) (unescape : Str → Str)
    (wide : CodePoint → Bool) (digest : Str → Key) {record : JobRecord}
    (stored : record.storedName = storedName record.filename) :
    ∃ plan : JobPlan Key, PlanOf env record options plan ∧ plan.targets ≠ [] ∧
      plan.batchSize ≤ 100 ∧ 4 ≤ plan.width ∧ plan.width ≤ 80 ∧ 1 ≤ plan.maxLines ∧
        plan.maxLines ≤ 5 := by
  obtain ⟨filled, distinct, _, known⟩ := usable.languages
  obtain ⟨languages, same, nodup⟩ := exists_languages known distinct
  obtain ⟨batchSize, isBatch, positive, batchBound⟩ := usable.batchSize
  obtain ⟨width, isWidth, widthLeast, widthMost⟩ := usable.width
  obtain ⟨maxLines, isLines, linesLeast, linesMost⟩ := usable.maxLines
  refine ⟨⟨record.filename, record.storedName, stored, options.encoding, languages, nodup,
    options.sourceLanguage, batchSize, positive, width, maxLines, codecs, unescape, wide, digest⟩,
    ⟨rfl, rfl, rfl, same, rfl, isBatch, isWidth, isLines⟩, ?_, batchBound, widthLeast, widthMost,
    linesLeast, linesMost⟩
  rintro rfl
  exact filled same.symm

/-- Whatever administrators have saved and whatever form is accepted, each created job is one that
its worker can run: the options name an available provider and known languages without duplicates,
and their numbers are within their bounds; the stored file has a suffix that can be read; and the row
and the folder are the first state of a run. -/
theorem created_jobs_runnable {Key : Type} [DecidableEq Key] {env : SubmitEnvironment}
    (started : Settings.Started env.settings) {panel last : Settings.PanelState}
    {requests : List Settings.SettingsRequest}
    (fresh : ∀ key ∈ Settings.publicNames,
      panel.rows key = none ∨ panel.rows key = env.settings.defaults.lookup key)
    (ran : Machine.run (Settings.PanelState.step env.settings) panel requests = some last)
    {form : JobForm} {s after : JobStore} {ids : List HexId}
    (rows : ∀ key, s.tables.settings.lookup key = last.rows key)
    (created : createJobs env form s = (.created ids, after)) (codecs : Engine.Codecs)
    (unescape : Str → Str) (wide : CodePoint → Bool) (digest : Str → Key) :
    ∃ options, Usable env.settings options ∧ ∀ id ∈ ids, ∃ record ∈ after.tables.jobs.rows,
      record.id = id.text ∧ record.options = env.dumps options ∧
      ∃ plan : JobPlan Key, ∃ content, PlanOf env.settings record options plan ∧
        (fileFormat? (lower (pathSuffix plan.stored))).isSome = true ∧
        plan.targets ≠ [] ∧ plan.batchSize ≤ 100 ∧ 4 ≤ plan.width ∧ plan.width ≤ 80 ∧
        1 ≤ plan.maxLines ∧ plan.maxLines ≤ 5 ∧
        (RunState.initial plan content).job.row = some record.row ∧
        after.folders id = some (RunState.initial plan content).folder := by
  have acceptable : Settings.RowsAcceptable env.settings fun key => s.tables.settings.lookup key := by
    rw [funext rows]
    exact Settings.rowsAcceptable_run started fresh ran
  obtain ⟨files, options, user, pending, valid, rfl, staged⟩ := createJobs_created created
  obtain ⟨usable, readable⟩ := validateForm_usable started acceptable valid
  refine ⟨options, usable, fun id member => ?_⟩
  obtain ⟨job, listed, rfl⟩ := List.mem_map.mp member
  obtain ⟨⟨stored, content, there⟩, ⟨file, inFiles, named⟩, inserted⟩ := staged job listed
  obtain ⟨plan, reads, bounds⟩ := usable.exists_plan codecs unescape wide digest
    (show (newJob env user options job).storedName = storedName (newJob env user options job).filename
      from stored)
  refine ⟨_, inserted, rfl, rfl, plan, content, reads, ?_, bounds.1, bounds.2.1, bounds.2.2.1,
    bounds.2.2.2.1, bounds.2.2.2.2.1, bounds.2.2.2.2.2, rfl, ?_⟩
  · rw [reads.stored]
    change (fileFormat? (lower (pathSuffix job.stored))).isSome = true
    rw [stored, named]
    exact readable file inFiles
  · rw [there, RunState.initial, reads.stored]
    rfl

/-- Nothing fails. -/
def healthyDisk : SubmitEnvironment :=
  { fullDisk with
    settings := Settings.countingEnvironment
    faults := { fullDisk.faults with save := fun _ => none } }

theorem created_jobs_runnable_example :
    ∃ after options, createJobs healthyDisk oneFile emptyStore = (.created [zeroId], after) ∧
      Usable Settings.countingEnvironment options ∧
      ∃ record ∈ after.tables.jobs.rows, ∃ plan : JobPlan Str, ∃ content,
        PlanOf Settings.countingEnvironment record options plan ∧
        after.folders zeroId = some (RunState.initial plan content).folder := by
  have answer : (createJobs healthyDisk oneFile emptyStore).1 = .created [zeroId] := by
    decide +kernel
  have created : createJobs healthyDisk oneFile emptyStore =
      (.created [zeroId], (createJobs healthyDisk oneFile emptyStore).2) := by
    rw [← answer]
  have started : Settings.Started healthyDisk.settings := Settings.countingEnvironment_started
  have ran : Machine.run (Settings.PanelState.step healthyDisk.settings) Settings.emptyPanel [] =
      some Settings.emptyPanel := rfl
  obtain ⟨options, usable, each⟩ := created_jobs_runnable started (fun _ _ => .inl rfl) ran
    (fun _ => rfl) created (fun _ raw => .ok (decodeIgnore 0 raw)) id (fun _ => false)
    (id : Str → Str)
  obtain ⟨record, inserted, _, _, plan, content, reads, _, _, _, _, _, _, _, _, folder⟩ :=
    each zeroId List.mem_cons_self
  exact ⟨_, options, created, usable, record, inserted, plan, content, reads, folder⟩

end SubtitleTranslator.Jobs
