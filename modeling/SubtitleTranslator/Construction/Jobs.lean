import SubtitleTranslator.Library.Machine

namespace SubtitleTranslator.Jobs
open Library

inductive Status where
  | queued
  | processing
  | canceling
  | completed
  | failed
  | canceled
  deriving DecidableEq

/-- The set is `TERMINAL_STATUSES`. -/
def Status.terminal : Status → Bool
  | .completed | .failed | .canceled => true
  | .queued | .processing | .canceling => false

/-- One output file of a job and its language. -/
structure Output where
  name : String
  language : String
  deriving DecidableEq

/-- These are the columns of a `jobs` row that the worker and the requests write. -/
structure JobRow where
  status : Status
  progress : Nat
  stage : String
  outputs : List Output
  error : Option String
  warning : Option String
  deriving DecidableEq

/-- This function is `update_job_if_status`: the row after it and whether it matched. -/
def updateJobIfStatus (statuses : List Status) (fields : JobRow → JobRow) (row : Option JobRow) :
    Option JobRow × Bool :=
  match row with
  | none => (none, false)
  | some job => if job.status ∈ statuses then (some (fields job), true) else (some job, false)

/-- This function is the body of `stop_requested`. A poll sees a committed status or a missing
row, or it is skipped; the second part is the cancellation event after it. -/
def stopRequested (cancelEvent : Bool) (seen : Option (Option Status)) : Bool × Bool :=
  if cancelEvent then (true, true)
  else
    match seen with
    | none => (false, false)
    | some status =>
        if status = some .queued ∨ status = some .processing then (false, false) else (true, true)

/-- These are the HTTP statuses that a request answers. -/
inductive Answer where
  | ok
  | accepted
  | badRequest
  | notFound
  | conflict
  | serverError
  deriving DecidableEq

/-- The transaction of `cancel_job`: the row after it and whether it changed. -/
def cancelRow (job : JobRow) : JobRow × Bool :=
  match job.status with
  | .queued => ({ job with status := .canceled, stage := "Canceled", error := none }, true)
  | .processing => ({ job with status := .canceling, stage := "Canceling" }, true)
  | _ => (job, false)

/-- This function is `cancel_job`; `visible` says whether the user may see the job. -/
def cancelJob (visible : Bool) (row : Option JobRow) : Option JobRow × Answer :=
  match row with
  | none => (none, .notFound)
  | some job =>
      if ¬visible then (some job, .notFound)
      else
        let (next, changed) := cancelRow job
        if next.status = .canceling then (some next, .accepted)
        else if changed ∧ next.status = .canceled then (some next, .accepted)
        else (some next, .conflict)

/-- The outcome of the removal of a job folder. -/
inductive Removal where
  | invalidPath
  | failed
  | removed
  deriving DecidableEq

/-- This function is `delete_job`: the row after it, whether it removed files, and the answer. -/
def deleteJob (visible : Bool) (removal : Removal) (row : Option JobRow) :
    Option JobRow × Bool × Answer :=
  match row with
  | none => (none, false, .notFound)
  | some job =>
      if ¬visible then (some job, false, .notFound)
      else if ¬job.status.terminal then (some job, false, .conflict)
      else
        match removal with
        | .invalidPath => (some job, false, .badRequest)
        | .failed => (some job, true, .serverError)
        | .removed => (none, true, .ok)

/-- These are the places of `run_job` between two steps. -/
inductive Worker where
  | submitted
  | reading
  | claiming
  /-- The worker translates; these are the outputs so far and the segments left untranslated. -/
  | working (outputs : List Output) (untranslated : Nat)
  /-- An exception was caught. -/
  | failing (message : String)
  | recordingFailure (message : String)
  /-- The final write is the cancellation. -/
  | canceling
  /-- The final write is done, or there was nothing to write. -/
  | leaving
  | returned
  deriving DecidableEq

/-- The state of one job, its worker and the requests on it. -/
structure JobState where
  row : Option JobRow
  /-- The job folder has all its files. -/
  files : Bool
  worker : Worker
  /-- The flag of the worker's cancellation event. -/
  cancelEvent : Bool
  /-- The event is in the dictionary of the worker's process. -/
  registered : Bool
  /-- Cancel requests that have committed and not signaled. -/
  signals : Nat
  /-- The worker has claimed the job. -/
  claimed : Bool
  /-- A cancel request was answered with 202. -/
  cancelAccepted : Bool

inductive JobEvent where
  | start
  | readRow
  | claim
  /-- A progress report of the worker. -/
  | report (progress : Nat) (stage : String)
  | addOutput (output : Output) (progress : Nat)
  | countUntranslated (count : Nat)
  /-- A poll that only moves the cancellation event. -/
  | poll (seen : Option (Option Status))
  /-- A poll that ends the translation when it asks to stop. -/
  | checkCanceled (seen : Option (Option Status))
  | complete (segments targets : Nat)
  | fail (message : String)
  | readCancelEvent
  | recordFailure
  | recordCancel
  | finish
  | cancel (visible : Bool)
  /-- A committed cancel request signals the worker when it is in its process. -/
  | signal (sameProcess : Bool)
  | delete (visible : Bool) (removal : Removal) (sameProcess : Bool)

namespace JobState

/-- The worker runs `update_job_if_status` and goes on by its result. -/
def workerUpdate (s : JobState) (statuses : List Status) (fields : JobRow → JobRow)
    (matched missed : Worker) : JobState :=
  let (row, changed) := updateJobIfStatus statuses fields s.row
  { s with row := row, worker := if changed then matched else missed }

/-- This step is one transaction or one local step of the worker or of a request. -/
def step (s : JobState) : JobEvent → Option JobState
  | .start =>
      match s.worker with
      | .submitted => some { s with worker := .reading, registered := true }
      | _ => none
  | .readRow =>
      match s.worker, s.row with
      | .reading, none => some { s with worker := .leaving }
      | .reading, some job =>
          let cancelEvent := s.cancelEvent || job.status == .canceling
          some { s with
            cancelEvent := cancelEvent
            worker := if cancelEvent then .canceling else .claiming }
      | _, _ => none
  | .claim =>
      match s.worker with
      | .claiming =>
          let (row, changed) := updateJobIfStatus [.queued]
            (fun job =>
              { job with status := .processing, progress := 2, stage := "Reading subtitle" }) s.row
          some { s with
            row := row
            claimed := changed
            worker := if changed then .working [] 0 else .leaving }
      | _ => none
  | .report progress stage =>
      match s.worker with
      | .working outputs untranslated =>
          some (s.workerUpdate [.processing]
            (fun job => { job with progress := progress, stage := stage })
            (.working outputs untranslated) (.working outputs untranslated))
      | _ => none
  | .addOutput output progress =>
      match s.worker with
      | .working outputs untranslated =>
          let outputs := outputs ++ [output]
          some (s.workerUpdate [.processing]
            (fun job => { job with outputs := outputs, progress := progress })
            (.working outputs untranslated) (.working outputs untranslated))
      | _ => none
  | .countUntranslated count =>
      match s.worker with
      | .working outputs untranslated =>
          some { s with worker := .working outputs (untranslated + count) }
      | _ => none
  | .poll seen =>
      match s.worker with
      | .working _ _ => some { s with cancelEvent := (stopRequested s.cancelEvent seen).2 }
      | _ => none
  | .checkCanceled seen =>
      match s.worker with
      | .working outputs untranslated =>
          let (stop, cancelEvent) := stopRequested s.cancelEvent seen
          some { s with
            cancelEvent := cancelEvent
            worker := if stop then .canceling else .working outputs untranslated }
      | _ => none
  | .complete segments targets =>
      match s.worker with
      | .working outputs untranslated =>
          some (s.workerUpdate [.processing]
            (fun job =>
              { job with
                status := .completed
                progress := 100
                stage := "Ready to download"
                outputs := outputs
                error := none
                warning :=
                  if untranslated = 0 then none
                  else some ("Left untranslated: " ++ toString untranslated ++ " of " ++
                    toString (segments * targets) ++ " segments") })
            .leaving .canceling)
      | _ => none
  | .fail message =>
      match s.worker with
      | .claiming | .working _ _ => some { s with worker := .failing message }
      | _ => none
  | .readCancelEvent =>
      match s.worker with
      | .failing message =>
          some { s with
            worker := if s.cancelEvent then .canceling else .recordingFailure message }
      | _ => none
  | .recordFailure =>
      match s.worker with
      | .recordingFailure message =>
          some (s.workerUpdate [.queued, .processing]
            (fun job =>
              { job with status := .failed, stage := "Translation failed", error := some message })
            .leaving .canceling)
      | _ => none
  | .recordCancel =>
      match s.worker with
      | .canceling =>
          some (s.workerUpdate [.queued, .processing, .canceling]
            (fun job => { job with status := .canceled, stage := "Canceled", error := none })
            .leaving .leaving)
      | _ => none
  | .finish =>
      match s.worker with
      | .leaving => some { s with worker := .returned, registered := false }
      | _ => none
  | .cancel visible =>
      let (row, answer) := cancelJob visible s.row
      some { s with
        row := row
        cancelAccepted := s.cancelAccepted || answer == .accepted
        signals := if (row.map JobRow.status) = some .canceling ∧ answer = .accepted
          then s.signals + 1 else s.signals }
  | .signal sameProcess =>
      if 0 < s.signals then
        some { s with
          signals := s.signals - 1
          cancelEvent := s.cancelEvent || (sameProcess && s.registered) }
      else none
  | .delete visible removal sameProcess =>
      let (row, touched, answer) := deleteJob visible removal s.row
      some { s with
        row := row
        files := s.files && !touched
        registered := s.registered && !(sameProcess && answer == .ok) }

/-- A new job is queued and its worker is submitted. -/
def initial : JobState where
  row := some ⟨.queued, 0, "", [], none, none⟩
  files := true
  worker := .submitted
  cancelEvent := false
  registered := false
  signals := 0
  claimed := false
  cancelAccepted := false

end JobState

end SubtitleTranslator.Jobs
