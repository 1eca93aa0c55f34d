import SubtitleTranslator.Construction.Jobs

namespace SubtitleTranslator.Jobs
open Library

/-- A conditional update changes a row in one of its statuses and no other row. -/
theorem updateJobIfStatus_cases (statuses : List Status) (fields : JobRow → JobRow)
    (row : Option JobRow) :
    (∃ job, row = some job ∧ job.status ∈ statuses ∧
      updateJobIfStatus statuses fields row = (some (fields job), true)) ∨
    ((∀ job, row = some job → job.status ∉ statuses) ∧
      updateJobIfStatus statuses fields row = (row, false)) := by
  cases row with
  | none => exact .inr ⟨nofun, rfl⟩
  | some job =>
      by_cases listed : job.status ∈ statuses
      · exact .inl ⟨job, rfl, listed, if_pos listed⟩
      · refine .inr ⟨?_, if_neg listed⟩
        rintro _ ⟨⟩
        exact listed

/-- These are the changes of a status that a step can make; `none` is a deleted row. -/
inductive StatusMove : Option Status → Option Status → Prop where
  | stay (status : Option Status) : StatusMove status status
  | claimed : StatusMove (some .queued) (some .processing)
  | completed : StatusMove (some .processing) (some .completed)
  | failed {status : Status} (active : status = .queued ∨ status = .processing) :
      StatusMove (some status) (some .failed)
  | canceled {status : Status} (open_ : status.terminal = false) :
      StatusMove (some status) (some .canceled)
  | canceling : StatusMove (some .processing) (some .canceling)
  | deleted {status : Status} (terminal : status.terminal = true) :
      StatusMove (some status) none

/-- A terminal status stays until the row is deleted. -/
theorem StatusMove.of_terminal {status : Status} {next : Option Status}
    (terminal : status.terminal = true) (move : StatusMove (some status) next) :
    next = some status ∨ next = none := by
  cases move with
  | stay => exact .inl rfl
  | deleted _ => exact .inr rfl
  | canceled open_ =>
      rw [terminal] at open_
      cases open_
  | failed active => rcases active with rfl | rfl <;> cases terminal
  | claimed | completed | canceling => cases terminal

/-- A job that is open was open before. -/
theorem StatusMove.open_before {status : Option Status} {later : Status}
    (open_ : later.terminal = false) (move : StatusMove status (some later)) :
    ∃ earlier, status = some earlier ∧ earlier.terminal = false := by
  cases move with
  | stay => exact ⟨later, rfl, open_⟩
  | claimed => exact ⟨.queued, rfl, rfl⟩
  | canceling => exact ⟨.processing, rfl, rfl⟩
  | completed | failed _ | canceled _ => cases open_

/-- A row that was deleted stays deleted. -/
theorem StatusMove.of_none {next : Option Status} (move : StatusMove none next) : next = none := by
  cases move
  rfl

/-- A job that is being canceled, was canceled or was deleted. -/
def Abandoned (status : Option Status) : Prop :=
  status = some .canceling ∨ status = some .canceled ∨ status = none

/-- A job that is being canceled is only canceled, and then deleted. -/
theorem StatusMove.abandoned {status next : Option Status} (abandoned : Abandoned status)
    (move : StatusMove status next) : Abandoned next := by
  rcases abandoned with rfl | rfl | rfl
  · cases move with
    | stay => exact .inl rfl
    | canceled _ => exact .inr (.inl rfl)
    | failed active => simp at active
    | deleted terminal => cases terminal
  · rcases StatusMove.of_terminal rfl move with rfl | rfl
    · exact .inr (.inl rfl)
    · exact .inr (.inr rfl)
  · exact .inr (.inr (StatusMove.of_none move))

/-- A job that runs has one of these statuses. -/
def Running (status : Option Status) : Prop :=
  status = some .processing ∨ status = some .canceling

/-- A job that runs is open. -/
theorem Running.open_ {status : Status} (running : Running (some status)) :
    status.terminal = false := by
  rcases running with same | same <;> cases same <;> rfl

/-- A cancel request moves an open job and is accepted only for a job that it abandons. -/
theorem cancelJob_spec (visible : Bool) (row : Option JobRow) :
    StatusMove (row.map JobRow.status) ((cancelJob visible row).1.map JobRow.status) ∧
      ((cancelJob visible row).2 = .accepted →
        Abandoned ((cancelJob visible row).1.map JobRow.status)) ∧
      (Running (row.map JobRow.status) →
        Running ((cancelJob visible row).1.map JobRow.status)) := by
  cases row with
  | none => exact ⟨.stay _, nofun, id⟩
  | some job =>
      unfold cancelJob
      cases visible with
      | false => exact ⟨.stay _, nofun, id⟩
      | true =>
          cases status : job.status with
          | queued =>
              simp [cancelRow, status, Abandoned, Running]
              exact .canceled rfl
          | processing =>
              simp [cancelRow, status, Abandoned, Running]
              exact .canceling
          | canceling =>
              simp [cancelRow, status, Abandoned, Running]
              exact .stay _
          | completed | failed | canceled =>
              simp [cancelRow, status, Running]
              exact .stay _

/-- A delete request removes files and rows of finished jobs only. -/
theorem deleteJob_spec (visible : Bool) (removal : Removal) (row : Option JobRow) :
    StatusMove (row.map JobRow.status) ((deleteJob visible removal row).1.map JobRow.status) ∧
      ((∀ job, row = some job → job.status.terminal = false) →
        (deleteJob visible removal row).1 = row ∧ (deleteJob visible removal row).2.1 = false ∧
          (deleteJob visible removal row).2.2 ≠ .ok) ∧
      ((deleteJob visible removal row).1 = row ∨ (deleteJob visible removal row).1 = none) := by
  cases row with
  | none => exact ⟨.stay _, fun _ => ⟨rfl, rfl, nofun⟩, .inl rfl⟩
  | some job =>
      unfold deleteJob
      cases visible with
      | false => exact ⟨.stay _, fun _ => ⟨rfl, rfl, nofun⟩, .inl rfl⟩
      | true =>
          cases terminal : job.status.terminal with
          | false =>
              simp [terminal]
              exact .stay _
          | true =>
              cases removal with
              | invalidPath | failed =>
                  exact ⟨by simpa [terminal] using .stay _, by simp [terminal], by simp [terminal]⟩
              | removed =>
                  exact ⟨by simpa [terminal] using .deleted terminal, by simp [terminal],
                    by simp [terminal]⟩

/-- The worker has not tried to claim the job. -/
def Worker.unclaimed : Worker → Bool
  | .submitted | .reading | .claiming => true
  | _ => false

/-- The worker is between its claim and its final write when it has claimed the job. -/
def Worker.unsettled : Worker → Bool
  | .working _ _ | .failing _ | .recordingFailure _ | .canceling => true
  | _ => false

namespace JobState

/-- The status of the row, if there is a row. -/
def status (s : JobState) : Option Status := s.row.map JobRow.status

/-- A worker update moves the status as its fields do, or only moves the worker. -/
theorem workerUpdate_cases (s : JobState) (statuses : List Status) (fields : JobRow → JobRow)
    (matched missed : Worker) :
    (∃ job, s.row = some job ∧ job.status ∈ statuses ∧
      s.workerUpdate statuses fields matched missed =
        { s with row := some (fields job), worker := matched }) ∨
    ((∀ job, s.row = some job → job.status ∉ statuses) ∧
      s.workerUpdate statuses fields matched missed = { s with worker := missed }) := by
  unfold workerUpdate
  rcases updateJobIfStatus_cases statuses fields s.row with
    ⟨job, stored, listed, result⟩ | ⟨unlisted, result⟩
  · exact .inl ⟨job, stored, listed, by rw [result]; rfl⟩
  · exact .inr ⟨unlisted, by rw [result]; rfl⟩

/-- The claims of the worker and the answers to cancel requests agree with the status. -/
structure LifecycleInvariant (s : JobState) : Prop where
  unclaimed : s.worker.unclaimed = true → s.claimed = false
  running : s.claimed = true → s.worker.unsettled = true → Running s.status
  settled : s.claimed = true → s.worker.unsettled = false →
    ∀ status, s.status = some status → status.terminal = true
  accepted : s.cancelAccepted = true → Abandoned s.status
  files : ∀ status, s.status = some status → status.terminal = false → s.files = true

theorem initial_lifecycle : initial.LifecycleInvariant :=
  ⟨fun _ => rfl, nofun, nofun, nofun, fun _ _ _ => rfl⟩

/-- A claimed worker is past its claim. -/
theorem LifecycleInvariant.past {s : JobState} (before : s.LifecycleInvariant)
    (own : s.claimed = true) : s.worker.unclaimed = false := by
  by_contra early
  rw [before.unclaimed (by simpa using early)] at own
  cases own

/-- A step that keeps the status, the files and the claim keeps the invariant when the worker
stays on its side of the claim and of the final write. -/
theorem LifecycleInvariant.keep {s next : JobState} (before : s.LifecycleInvariant)
    (status : next.status = s.status) (files : next.files = s.files)
    (claimed : next.claimed = s.claimed) (accepted : next.cancelAccepted = s.cancelAccepted)
    (unclaimed : next.worker.unclaimed = true → s.worker.unclaimed = true)
    (unsettled : s.claimed = true → next.worker.unsettled = s.worker.unsettled) :
    next.LifecycleInvariant := by
  refine ⟨fun early => ?_, fun own busy => ?_, fun own done => ?_, ?_, ?_⟩
  · rw [claimed]
    exact before.unclaimed (unclaimed early)
  · rw [claimed] at own
    rw [unsettled own] at busy
    rw [status]
    exact before.running own busy
  · rw [claimed] at own
    rw [unsettled own] at done
    rw [status]
    exact before.settled own done
  · rw [accepted, status]
    exact before.accepted
  · rw [files, status]
    exact before.files

/-- A final write ends the work of the worker with a terminal status. -/
theorem lifecycle_finalWrite {s : JobState} {job : JobRow}
    (terminal : job.status.terminal = true) (accepted : s.cancelAccepted = true → job.status = .canceled) :
    LifecycleInvariant { s with row := some job, worker := .leaving } := by
  refine ⟨nofun, nofun, ?_, ?_, ?_⟩
  · rintro _ _ _ ⟨⟩
    exact terminal
  · intro answered
    exact .inr (.inl (congrArg some (accepted answered)))
  · rintro _ ⟨⟩ open_
    rw [terminal] at open_
    cases open_

/-- No cancel request was accepted while the job is queued or processed. -/
theorem LifecycleInvariant.unaccepted {s : JobState} (before : s.LifecycleInvariant)
    {job : JobRow} (stored : s.row = some job)
    (active : job.status = .queued ∨ job.status = .processing) : s.cancelAccepted = false := by
  by_contra answered
  have abandoned := before.accepted (by simpa using answered)
  rw [status, stored, Option.map_some] at abandoned
  rcases active with queued | processing
  · rw [queued] at abandoned
    simp [Abandoned] at abandoned
  · rw [processing] at abandoned
    simp [Abandoned] at abandoned

/-- A claim takes a queued job. -/
theorem LifecycleInvariant.claim {s next : JobState} (before : s.LifecycleInvariant)
    (stepped : s.step .claim = some next) :
    StatusMove s.status next.status ∧ next.LifecycleInvariant := by
  simp only [step] at stepped
  split at stepped
  · rename_i place
    cases stepped
    rcases updateJobIfStatus_cases [.queued] (fun job =>
        { job with status := .processing, progress := 2, stage := "Reading subtitle" }) s.row with
      ⟨job, stored, listed, result⟩ | ⟨unlisted, result⟩
    · have queued : job.status = .queued := by simpa using listed
      have was : s.status = some .queued := by rw [status, stored, Option.map_some, queued]
      simp only [result, if_true]
      refine ⟨was ▸ .claimed, nofun, fun _ _ => .inl rfl, nofun, ?_, ?_⟩
      · intro answered
        rw [before.unaccepted stored (.inl queued)] at answered
        cases answered
      · exact fun _ _ _ => before.files _ was rfl
    · simp only [result]
      exact ⟨.stay _, nofun, nofun, nofun, before.accepted, before.files⟩
  · cases stepped

/-- A report of the worker leaves the status alone. -/
theorem LifecycleInvariant.report {s : JobState} (before : s.LifecycleInvariant)
    {fields : JobRow → JobRow} (kept : ∀ job, (fields job).status = job.status)
    {outputs later : List Output} {untranslated : Nat}
    (place : s.worker = .working outputs untranslated) :
    StatusMove s.status (s.workerUpdate [.processing] fields (.working later untranslated)
      (.working later untranslated)).status ∧
    (s.workerUpdate [.processing] fields (.working later untranslated)
      (.working later untranslated)).LifecycleInvariant := by
  rcases s.workerUpdate_cases [.processing] fields (.working later untranslated)
      (.working later untranslated) with ⟨job, stored, _, result⟩ | ⟨_, result⟩
  · rw [result]
    have same : JobState.status { s with
        row := some (fields job), worker := .working later untranslated } = s.status := by
      rw [status, status, stored, Option.map_some, Option.map_some, kept]
    exact ⟨same ▸ .stay _, before.keep same rfl rfl rfl nofun fun _ => by rw [place]; rfl⟩
  · rw [result]
    exact ⟨.stay _, before.keep rfl rfl rfl rfl nofun fun _ => by rw [place]; rfl⟩

/-- A completed translation settles a processed job, and cancels every other one. -/
theorem LifecycleInvariant.complete {s : JobState} (before : s.LifecycleInvariant)
    {fields : JobRow → JobRow} (completes : ∀ job, (fields job).status = .completed)
    {outputs : List Output} {untranslated : Nat}
    (place : s.worker = .working outputs untranslated) :
    StatusMove s.status (s.workerUpdate [.processing] fields .leaving .canceling).status ∧
      (s.workerUpdate [.processing] fields .leaving .canceling).LifecycleInvariant := by
  rcases s.workerUpdate_cases [.processing] fields .leaving .canceling with
    ⟨job, stored, listed, result⟩ | ⟨_, result⟩
  · have processing : job.status = .processing := by simpa using listed
    rw [result]
    constructor
    · rw [status, status, stored, Option.map_some, Option.map_some, processing, completes]
      exact .completed
    · refine lifecycle_finalWrite (by rw [completes]; rfl) fun answered => ?_
      rw [before.unaccepted stored (.inr processing)] at answered
      cases answered
  · rw [result]
    exact ⟨.stay _, before.keep rfl rfl rfl rfl nofun fun _ => by rw [place]; rfl⟩

/-- A recorded failure settles an active job, and cancels every other one. -/
theorem LifecycleInvariant.recordFailure {s : JobState} (before : s.LifecycleInvariant)
    {fields : JobRow → JobRow} (fails : ∀ job, (fields job).status = .failed) {message : String}
    (place : s.worker = .recordingFailure message) :
    StatusMove s.status
        (s.workerUpdate [.queued, .processing] fields .leaving .canceling).status ∧
      (s.workerUpdate [.queued, .processing] fields .leaving .canceling).LifecycleInvariant := by
  rcases s.workerUpdate_cases [.queued, .processing] fields .leaving .canceling with
    ⟨job, stored, listed, result⟩ | ⟨_, result⟩
  · have active : job.status = .queued ∨ job.status = .processing := by simpa using listed
    rw [result]
    constructor
    · rw [status, status, stored, Option.map_some, Option.map_some, fails]
      exact .failed active
    · refine lifecycle_finalWrite (by rw [fails]; rfl) fun answered => ?_
      rw [before.unaccepted stored active] at answered
      cases answered
  · rw [result]
    exact ⟨.stay _, before.keep rfl rfl rfl rfl nofun fun _ => by rw [place]; rfl⟩

/-- A recorded cancellation settles every job that a claimed worker still holds. -/
theorem LifecycleInvariant.recordCancel {s : JobState} (before : s.LifecycleInvariant)
    {fields : JobRow → JobRow} (cancels : ∀ job, (fields job).status = .canceled)
    (place : s.worker = .canceling) :
    StatusMove s.status
        (s.workerUpdate [.queued, .processing, .canceling] fields .leaving .leaving).status ∧
      (s.workerUpdate [.queued, .processing, .canceling] fields
        .leaving .leaving).LifecycleInvariant := by
  rcases s.workerUpdate_cases [.queued, .processing, .canceling] fields .leaving .leaving with
    ⟨job, stored, listed, result⟩ | ⟨unlisted, result⟩
  · have open_ : job.status.terminal = false := by
      rcases (by simpa using listed : _ ∨ _ ∨ _) with queued | processing | canceling
      · rw [queued]
        rfl
      · rw [processing]
        rfl
      · rw [canceling]
        rfl
    rw [result]
    constructor
    · rw [status, status, stored, Option.map_some, Option.map_some, cancels]
      exact .canceled open_
    · exact lifecycle_finalWrite (by rw [cancels]; rfl) fun _ => cancels job
  · rw [result]
    refine ⟨.stay _, before.keep rfl rfl rfl rfl nofun fun own => ?_⟩
    have running := before.running own (by rw [place]; rfl)
    cases stored : s.row with
    | none => simp [Running, status, stored] at running
    | some job =>
        have missed := unlisted job stored
        rcases running with processing | canceling
        · have : job.status = .processing := by simpa [status, stored] using processing
          simp [this] at missed
        · have : job.status = .canceling := by simpa [status, stored] using canceling
          simp [this] at missed

/-- A request that moves the status keeps the invariant when it spares a running job and
abandons the job that it answers for. -/
theorem LifecycleInvariant.request {s next : JobState} (before : s.LifecycleInvariant)
    (move : StatusMove s.status next.status) (worker : next.worker = s.worker)
    (claimed : next.claimed = s.claimed) (running : Running s.status → Running next.status)
    (accepted : next.cancelAccepted = true → s.cancelAccepted = true ∨ Abandoned next.status)
    (files : (∃ status, s.status = some status ∧ status.terminal = false) →
      next.files = s.files) : next.LifecycleInvariant := by
  refine ⟨?_, ?_, ?_, ?_, ?_⟩
  · rw [worker, claimed]
    exact before.unclaimed
  · rw [worker, claimed]
    exact fun own busy => running (before.running own busy)
  · rw [worker, claimed]
    intro own done later same
    by_contra open_
    obtain ⟨earlier, was, opened⟩ :=
      StatusMove.open_before (by simpa using open_) (same ▸ move)
    rw [before.settled own done earlier was] at opened
    cases opened
  · intro answered
    rcases accepted answered with earlier | now
    · exact StatusMove.abandoned (before.accepted earlier) move
    · exact now
  · intro later same open_
    obtain ⟨earlier, was, opened⟩ := StatusMove.open_before open_ (same ▸ move)
    rw [files ⟨earlier, was, opened⟩]
    exact before.files earlier was opened

/-- A delete request spares a running job. -/
theorem deleteJob_running {s : JobState} {visible : Bool} {removal : Removal} {status : Status}
    (stored : s.status = some status) (open_ : status.terminal = false) :
    (deleteJob visible removal s.row).1 = s.row ∧
      (deleteJob visible removal s.row).2.1 = false ∧
        (deleteJob visible removal s.row).2.2 ≠ .ok := by
  refine (deleteJob_spec visible removal s.row).2.1 fun job row => ?_
  rw [JobState.status, row, Option.map_some] at stored
  cases stored
  exact open_

/-- Each step moves the status as listed and keeps the invariant. -/
theorem LifecycleInvariant.step {s next : JobState} {event : JobEvent}
    (before : s.LifecycleInvariant) (stepped : s.step event = some next) :
    StatusMove s.status next.status ∧ next.LifecycleInvariant := by
  cases event with
  | start =>
      simp only [JobState.step] at stepped
      split at stepped <;> cases stepped
      rename_i place
      exact ⟨.stay _, before.keep rfl rfl rfl rfl (fun _ => by rw [place]; rfl)
        fun _ => by rw [place]; rfl⟩
  | readRow =>
      simp only [JobState.step] at stepped
      split at stepped <;> cases stepped
      · rename_i place _
        refine ⟨.stay _, before.keep rfl rfl rfl rfl (fun _ => by rw [place]; rfl)
          fun _ => by rw [place]; rfl⟩
      · rename_i place stored
        have free : s.claimed = false := before.unclaimed (by rw [place]; rfl)
        refine ⟨.stay _, before.keep rfl rfl rfl rfl (fun _ => by rw [place]; rfl) fun own => ?_⟩
        rw [free] at own
        cases own
  | claim => exact before.claim stepped
  | report progress stage =>
      simp only [JobState.step] at stepped
      split at stepped <;> cases stepped
      rename_i place
      refine before.report ?_ place
      exact fun _ => rfl
  | addOutput output progress =>
      simp only [JobState.step] at stepped
      split at stepped <;> cases stepped
      rename_i place
      refine before.report ?_ place
      exact fun _ => rfl
  | countUntranslated count =>
      simp only [JobState.step] at stepped
      split at stepped <;> cases stepped
      rename_i place
      exact ⟨.stay _, before.keep rfl rfl rfl rfl nofun fun _ => by rw [place]; rfl⟩
  | poll seen =>
      simp only [JobState.step] at stepped
      split at stepped <;> cases stepped
      exact ⟨.stay _, before.keep rfl rfl rfl rfl id fun _ => rfl⟩
  | checkCanceled seen =>
      simp only [JobState.step] at stepped
      split at stepped <;> cases stepped
      rename_i place
      cases stop : (stopRequested s.cancelEvent seen).1 with
      | false => exact ⟨.stay _, before.keep rfl rfl rfl rfl nofun fun _ => by rw [place]; rfl⟩
      | true => exact ⟨.stay _, before.keep rfl rfl rfl rfl nofun fun _ => by rw [place]; rfl⟩
  | complete segments targets =>
      simp only [JobState.step] at stepped
      split at stepped <;> cases stepped
      rename_i place
      exact before.complete (fun _ => rfl) place
  | fail message =>
      simp only [JobState.step] at stepped
      split at stepped <;> cases stepped
      · rename_i place
        have free : s.claimed = false := before.unclaimed (by rw [place]; rfl)
        refine ⟨.stay _, before.keep rfl rfl rfl rfl nofun fun own => ?_⟩
        rw [free] at own
        cases own
      · rename_i place
        exact ⟨.stay _, before.keep rfl rfl rfl rfl nofun fun _ => by rw [place]; rfl⟩
  | readCancelEvent =>
      simp only [JobState.step] at stepped
      split at stepped <;> cases stepped
      rename_i place
      cases s.cancelEvent with
      | false => exact ⟨.stay _, before.keep rfl rfl rfl rfl nofun fun _ => by rw [place]; rfl⟩
      | true => exact ⟨.stay _, before.keep rfl rfl rfl rfl nofun fun _ => by rw [place]; rfl⟩
  | recordFailure =>
      simp only [JobState.step] at stepped
      split at stepped <;> cases stepped
      rename_i place
      exact before.recordFailure (fun _ => rfl) place
  | recordCancel =>
      simp only [JobState.step] at stepped
      split at stepped <;> cases stepped
      rename_i place
      exact before.recordCancel (fun _ => rfl) place
  | finish =>
      simp only [JobState.step] at stepped
      split at stepped <;> cases stepped
      rename_i place
      exact ⟨.stay _, before.keep rfl rfl rfl rfl nofun fun _ => by rw [place]; rfl⟩
  | cancel visible =>
      cases stepped
      obtain ⟨move, abandons, running⟩ := cancelJob_spec visible s.row
      refine ⟨move, before.request move rfl rfl running (fun answered => ?_) fun _ => rfl⟩
      rcases Bool.or_eq_true _ _ ▸ answered with earlier | now
      · exact .inl earlier
      · exact .inr (abandons (beq_iff_eq.mp now))
  | signal sameProcess =>
      simp only [JobState.step] at stepped
      split at stepped <;> cases stepped
      exact ⟨.stay _, before.keep rfl rfl rfl rfl id fun _ => rfl⟩
  | delete visible removal sameProcess =>
      cases stepped
      have move := (deleteJob_spec visible removal s.row).1
      refine ⟨move, before.request move rfl rfl (fun running => ?_) .inl ?_⟩
      · cases stored : s.status with
        | none =>
            rw [stored] at running
            simp [Running] at running
        | some status =>
            have open_ : status.terminal = false := Running.open_ (stored ▸ running)
            change Running ((deleteJob visible removal s.row).1.map JobRow.status)
            rw [(deleteJob_running stored open_).1]
            exact running
      · rintro ⟨status, stored, open_⟩
        change (s.files && !(deleteJob visible removal s.row).2.1) = s.files
        rw [(deleteJob_running stored open_).2.1, Bool.not_false, Bool.and_true]

end JobState

/-- In every run of one job, a terminal status stays until the row is deleted, a job with an
accepted cancel request never completes or fails, no delete request succeeds or removes files
between a claim and the final write, and a claimed worker returns with a terminal status. -/
theorem job_lifecycle {events later : List JobEvent} {s last : JobState}
    (reached : Machine.run JobState.step .initial events = some s)
    (continued : Machine.run JobState.step s later = some last) :
    (∀ status, s.status = some status → status.terminal = true →
      last.status = some status ∨ last.status = none) ∧
    (s.cancelAccepted = true → last.status ≠ some .completed ∧ last.status ≠ some .failed) ∧
    (s.claimed = true → s.worker.unsettled = true → s.files = true ∧
      ∀ visible removal, (deleteJob visible removal s.row).1 = s.row ∧
        (deleteJob visible removal s.row).2.1 = false ∧
        (deleteJob visible removal s.row).2.2 ≠ .ok) ∧
    (s.claimed = true → s.worker = .returned →
      ∀ status, s.status = some status → status.terminal = true) := by
  have invariant : s.LifecycleInvariant :=
    Machine.run_invariant JobState.LifecycleInvariant
      (fun _ _ _ before stepped => (before.step stepped).2) JobState.initial_lifecycle reached
  refine ⟨fun status stored terminal => ?_, fun answered => ?_, fun own busy => ?_,
    fun own place => invariant.settled own (by rw [place]; rfl)⟩
  · have kept : last.LifecycleInvariant ∧ (last.status = some status ∨ last.status = none) := by
      refine Machine.run_invariant
        (fun now => now.LifecycleInvariant ∧ (now.status = some status ∨ now.status = none)) ?_
        ⟨invariant, .inl stored⟩ continued
      intro now event next before stepped
      obtain ⟨move, after⟩ := before.1.step stepped
      rcases before.2 with same | gone
      · exact ⟨after, StatusMove.of_terminal terminal (same ▸ move)⟩
      · exact ⟨after, .inr (StatusMove.of_none (gone ▸ move))⟩
    exact kept.2
  · have kept : last.LifecycleInvariant ∧ Abandoned last.status := by
      refine Machine.run_invariant (fun now => now.LifecycleInvariant ∧ Abandoned now.status) ?_
        ⟨invariant, invariant.accepted answered⟩ continued
      intro now event next before stepped
      obtain ⟨move, after⟩ := before.1.step stepped
      exact ⟨after, StatusMove.abandoned before.2 move⟩
    rcases kept.2 with same | same | same <;> rw [same] <;> exact ⟨nofun, nofun⟩
  · have running := invariant.running own busy
    cases stored : s.status with
    | none =>
        rw [stored] at running
        simp [Running] at running
    | some status =>
        have open_ : status.terminal = false := Running.open_ (stored ▸ running)
        exact ⟨invariant.files status stored open_, fun _ _ => JobState.deleteJob_running stored open_⟩

/-- A user cancels a job while its worker translates. -/
def canceledWhileWorking : List JobEvent :=
  [.start, .readRow, .claim, .report 5 "Parsed 3 cues", .cancel true]

/-- The worker misses the signal, tries to complete the job, and records the cancellation. -/
def lateCompletion : List JobEvent :=
  [.complete 3 1, .signal false, .recordCancel, .finish, .delete true .removed true]

theorem canceledWhileWorking_run :
    ((Machine.run JobState.step .initial canceledWhileWorking).map fun s =>
      (s.status, s.claimed, s.worker.unsettled, s.cancelAccepted)) =
        some (some .canceling, true, true, true) ∧
    ((Machine.run JobState.step .initial (canceledWhileWorking ++ lateCompletion)).map fun s =>
      (s.status, s.worker)) = some (none, .returned) := by
  decide +kernel

theorem job_lifecycle_example :
    ∃ s last, Machine.run JobState.step .initial canceledWhileWorking = some s ∧
      s.status = some .canceling ∧ Machine.run JobState.step s lateCompletion = some last ∧
      last.worker = .returned ∧ last.status ≠ some .completed ∧ last.status ≠ some .failed ∧
      s.files = true := by
  obtain ⟨s, reached, early⟩ := Option.map_eq_some_iff.mp canceledWhileWorking_run.1
  obtain ⟨last, ran, late⟩ := Option.map_eq_some_iff.mp canceledWhileWorking_run.2
  have continued : Machine.run JobState.step s lateCompletion = some last := by
    obtain ⟨middle, first, second⟩ := (Machine.run_append _).mp ran
    cases reached.symm.trans first
    exact second
  have life := job_lifecycle reached continued
  have answered : s.cancelAccepted = true := congrArg (·.2.2.2) early
  have own : s.claimed = true := congrArg (·.2.1) early
  have busy : s.worker.unsettled = true := congrArg (·.2.2.1) early
  exact ⟨s, last, reached, congrArg Prod.fst early, continued, congrArg Prod.snd late,
    (life.2.1 answered).1, (life.2.1 answered).2, (life.2.2.1 own busy).1⟩

end SubtitleTranslator.Jobs
