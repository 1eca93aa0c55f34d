import SubtitleTranslator.Construction.RunJob
import SubtitleTranslator.Proof.BatchDriver
import SubtitleTranslator.Proof.JobLifecycle

namespace SubtitleTranslator.Engine
open Library Library.Text

/-- The suffixes of the languages differ, also as texts of the database. -/
theorem Language.suffix_injective {first second : Language}
    (same : first.suffix.map (fun c => Char.ofNat c.val) =
      second.suffix.map fun c => Char.ofNat c.val) : first = second := by
  cases first <;> cases second <;> first | rfl | exact absurd same (by decide)

theorem Language.dot_mem_suffix (language : Language) : 0x2e ∈ language.suffix := by
  cases language <;> decide

end SubtitleTranslator.Engine

namespace SubtitleTranslator.Jobs
open Library Text
open Engine (Language Segment LoopState ProviderCall CacheFits Entry)

section Names
variable {Key : Type} (plan : JobPlan Key)

/-- Each language has its own output. -/
theorem JobPlan.output_injective {first second : Language}
    (same : (plan.output first).name = (plan.output second).name) : first = second := by
  have letters := congrArg String.toList same
  simp only [JobPlan.output, JobPlan.outputName, translatedFilename, toText, String.toList_ofList,
    List.map_append] at letters
  exact Language.suffix_injective (List.append_cancel_left (List.append_cancel_right letters))

theorem JobPlan.outputName_injective {first second : Language}
    (same : plan.outputName first = plan.outputName second) : first = second :=
  plan.output_injective (congrArg toText same)

/-- No output takes the place of the source. -/
theorem JobPlan.outputName_ne_stored (language : Language) :
    plan.outputName language ≠ plan.stored := by
  intro same
  rw [plan.stored_eq, JobPlan.outputName, translatedFilename, storedName] at same
  have front := List.append_cancel_right same
  have dot : 0x2e ∈ ofString "source" := by
    rw [← front]
    exact List.mem_append_right _ language.dot_mem_suffix
  exact absurd dot (by decide)

end Names

namespace JobState

/-- A step other than the completion completes no job and brings back no files. -/
structure Framed (s next : JobState) : Prop where
  completed : ∀ job, next.row = some job → job.status = .completed → s.row = some job
  files : next.files = true → s.files = true

theorem Framed.refl (s : JobState) : Framed s s := ⟨fun _ stored _ => stored, id⟩

theorem Framed.trans {s middle next : JobState} (first : Framed s middle)
    (second : Framed middle next) : Framed s next where
  completed job stored done := first.completed job (second.completed job stored done) done
  files := first.files ∘ second.files

theorem workerUpdate_framed (s : JobState) {statuses : List Status} {fields : JobRow → JobRow}
    (open_ : ∀ job, job.status ∈ statuses → (fields job).status ≠ .completed)
    (matched missed : Worker) : Framed s (s.workerUpdate statuses fields matched missed) := by
  rcases workerUpdate_cases s statuses fields matched missed with
    ⟨job, stored, listed, same⟩ | ⟨_, same⟩
  · rw [same]
    refine ⟨fun later updated done => ?_, id⟩
    cases updated
    exact absurd done (open_ job listed)
  · rw [same]
    exact ⟨fun _ stored _ => stored, id⟩

theorem cancelJob_completed {visible : Bool} {row : Option JobRow} {job : JobRow}
    (stored : (cancelJob visible row).1 = some job) (done : job.status = .completed) :
    row = some job := by
  cases row with
  | none => cases stored
  | some before =>
      unfold cancelJob at stored
      cases visible with
      | false => exact stored
      | true =>
          cases status : before.status <;> simp [cancelRow, status] at stored <;> subst stored <;>
            first | rfl | cases done

theorem step_framed {s next : JobState} {event : JobEvent} (stepped : s.step event = some next)
    (open_ : ∀ segments targets, event ≠ .complete segments targets) : Framed s next := by
  cases event with
  | complete segments targets => exact absurd rfl (open_ segments targets)
  | start | poll _ | checkCanceled _ | countUntranslated _ | readCancelEvent | finish =>
      simp only [step] at stepped
      split at stepped
      · cases stepped
        exact ⟨fun _ stored _ => stored, id⟩
      · cases stepped
  | readRow | fail _ =>
      simp only [step] at stepped
      split at stepped
      · cases stepped
        exact ⟨fun _ stored _ => stored, id⟩
      · cases stepped
        exact ⟨fun _ stored _ => stored, id⟩
      · cases stepped
  | claim =>
      simp only [step] at stepped
      split at stepped
      · rcases updateJobIfStatus_cases [.queued]
          (fun job => { job with status := .processing, progress := 2, stage := "Reading subtitle" })
          s.row with ⟨job, stored, listed, same⟩ | ⟨_, same⟩
        · rw [same] at stepped
          cases stepped
          refine ⟨fun later updated done => ?_, id⟩
          cases updated
          cases done
        · rw [same] at stepped
          cases stepped
          exact ⟨fun _ stored _ => stored, id⟩
      · cases stepped
  | report progress stage | addOutput output progress =>
      simp only [step] at stepped
      split at stepped
      · cases stepped
        refine workerUpdate_framed s (fun job listed done => ?_) _ _
        have processing := List.mem_singleton.mp listed
        cases processing.symm.trans done
      · cases stepped
  | recordFailure =>
      simp only [step] at stepped
      split at stepped
      · cases stepped
        exact workerUpdate_framed s (fun _ _ done => by cases done) _ _
      · cases stepped
  | recordCancel =>
      simp only [step] at stepped
      split at stepped
      · cases stepped
        exact workerUpdate_framed s (fun _ _ done => by cases done) _ _
      · cases stepped
  | cancel visible =>
      cases stepped
      exact ⟨fun job stored done => cancelJob_completed stored done, id⟩
  | signal sameProcess =>
      simp only [step] at stepped
      split at stepped
      · cases stepped
        exact ⟨fun _ stored _ => stored, id⟩
      · cases stepped
  | delete visible removal sameProcess =>
      cases stepped
      refine ⟨fun job stored done => ?_, fun kept => ?_⟩
      · have row : (deleteJob visible removal s.row).1 = some job := stored
        rcases (deleteJob_spec visible removal s.row).2.2 with same | gone
        · exact same.symm.trans row
        · cases gone.symm.trans row
      · simp only [Bool.and_eq_true] at kept
        exact kept.1

/-- Steps other than the completion keep the invariant of the lifecycle and are framed. -/
theorem run_framed {s last : JobState} {events : List JobEvent} (before : s.LifecycleInvariant)
    (open_ : ∀ event ∈ events, ∀ segments targets, event ≠ .complete segments targets)
    (ran : Machine.run JobState.step s events = some last) :
    Framed s last ∧ last.LifecycleInvariant := by
  induction events generalizing s with
  | nil =>
      cases ran
      exact ⟨.refl _, before⟩
  | cons event rest ih =>
      obtain ⟨next, stepped, later⟩ := (Machine.run_cons _).mp ran
      have first := step_framed stepped (open_ event List.mem_cons_self)
      obtain ⟨second, after⟩ := ih (before.step stepped).2
        (fun other member => open_ other (List.mem_cons_of_mem _ member)) later
      exact ⟨first.trans second, after⟩

section Working
variable {s next : JobState} {outputs : List Output} {untranslated : Nat}

theorem step_report {progress : Nat} {stage : String} (working : s.worker = .working outputs untranslated)
    (stepped : s.step (.report progress stage) = some next) :
    next.worker = s.worker ∧ next.claimed = s.claimed := by
  simp only [step, working] at stepped
  cases stepped
  rcases workerUpdate_cases s [.processing]
    (fun job => { job with progress := progress, stage := stage }) (.working outputs untranslated)
    (.working outputs untranslated) with ⟨_, _, _, same⟩ | ⟨_, same⟩ <;>
    exact ⟨by rw [same, working], by rw [same]⟩

theorem step_addOutput {output : Output} {progress : Nat}
    (working : s.worker = .working outputs untranslated)
    (stepped : s.step (.addOutput output progress) = some next) :
    next.worker = .working (outputs ++ [output]) untranslated ∧ next.claimed = s.claimed := by
  simp only [step, working] at stepped
  cases stepped
  rcases workerUpdate_cases s [.processing]
    (fun job => { job with outputs := outputs ++ [output], progress := progress })
    (.working (outputs ++ [output]) untranslated) (.working (outputs ++ [output]) untranslated) with
    ⟨_, _, _, same⟩ | ⟨_, same⟩ <;>
    exact ⟨by rw [same], by rw [same]⟩

theorem step_countUntranslated {count : Nat} (working : s.worker = .working outputs untranslated)
    (stepped : s.step (.countUntranslated count) = some next) :
    next.worker = .working outputs (untranslated + count) ∧ next.claimed = s.claimed := by
  simp only [step, working] at stepped
  cases stepped
  exact ⟨rfl, rfl⟩

theorem step_checkCanceled {seen : Option (Option Status)}
    (working : s.worker = .working outputs untranslated)
    (stepped : s.step (.checkCanceled seen) = some next) :
    (next.worker = .canceling ∨ next.worker = s.worker) ∧ next.claimed = s.claimed := by
  simp only [step, working] at stepped
  cases stepped
  cases (stopRequested s.cancelEvent seen).1 with
  | true => exact ⟨.inl rfl, rfl⟩
  | false => exact ⟨.inr working.symm, rfl⟩

theorem step_poll {seen : Option (Option Status)} (stepped : s.step (.poll seen) = some next) :
    next.worker = s.worker ∧ next.claimed = s.claimed := by
  simp only [step] at stepped
  split at stepped
  · cases stepped
    exact ⟨rfl, rfl⟩
  · cases stepped

theorem step_request {event : JobEvent} (request : event.isRequest = true)
    (stepped : s.step event = some next) :
    next.worker = s.worker ∧ next.claimed = s.claimed := by
  cases event with
  | cancel visible | delete visible removal sameProcess =>
      cases stepped
      exact ⟨rfl, rfl⟩
  | signal sameProcess =>
      simp only [step] at stepped
      split at stepped
      · cases stepped
        exact ⟨rfl, rfl⟩
      · cases stepped
  | _ => cases request

end Working

end JobState

section Invariant
variable {Key : Type} (plan : JobPlan Key) (source : List UInt8)

/-- The texts of a language: each is the segment's own text, an answer of the provider, or the source
text of a segment that was left untranslated. -/
def Answered (calls : List ProviderCall) (work : Work) (language : Language) (fallen : Finset Nat)
    (out : List Str) : Prop :=
  out.length = work.segments.length ∧ (∀ i ∈ fallen, i < work.segments.length) ∧
    ∀ i seg, work.segments[i]? = some seg →
      ∃ text, out[i]? = some text ∧ Entry calls language seg text (i ∈ fallen)

/-- The file of a language is the document with its rebuilt cues. -/
def Stored (folder : Folder) (calls : List ProviderCall) (work : Work) (language : Language)
    (fallen : Finset Nat) : Prop :=
  ∃ bytes out, folder (plan.outputName language) = some bytes ∧
    plan.bytes work language out = some bytes ∧ Answered calls work language fallen out

/-- The worker has recorded the outputs of the languages before the ones that are left. -/
structure Ahead (s : RunState Key) (work : Work) (rest : List Language) (extra : Nat) : Prop where
  claimed : s.job.claimed = true
  loaded : plan.load (Folder.single plan.stored (some source)) = some work
  progress : ∃ done, ∃ fallen : Language → Finset Nat, plan.targets = done ++ rest ∧
    s.job.worker = .working (done.map plan.output)
      ((done.map fun language => (fallen language).card).sum + extra) ∧
    ∀ language ∈ done, Stored plan s.folder s.calls work language (fallen language)

/-- What holds at each place of the worker. -/
def PlaceHolds (s : RunState Key) : Prop :=
  match s.place with
  | .opening | .closing => True
  | .reading => s.job.claimed = true ∧ s.job.worker = .working [] 0
  | .parsed work | .announcing work => Ahead plan source s work plan.targets 0
  | .next work rest => Ahead plan source s work rest 0
  | .entering work language rest | .calling work language rest =>
      Ahead plan source s work (language :: rest) 0
  | .translating work language rest loop =>
      Ahead plan source s work (language :: rest) loop.fallbacks.sum ∧ loop.raised = none ∧
        s.calls ⊆ loop.calls ∧
          ∃ todo, loop.Consistent plan.digest (plan.request work language) todo
  | .translated work language rest out | .rebuilding work language rest out =>
      ∃ fallen, Ahead plan source s work (language :: rest) fallen.card ∧
        Answered s.calls work language fallen out
  | .recording work language rest =>
      ∃ fallen, Ahead plan source s work (language :: rest) fallen.card ∧
        Stored plan s.folder s.calls work language fallen

/-- The warning of a completed job. -/
def leftUntranslated (untranslated total : Nat) : Option String :=
  if untranslated = 0 then none
  else some ("Left untranslated: " ++ toString untranslated ++ " of " ++ toString total ++ " segments")

/-- A completed job has an output for each language, and its warning counts the segments that were
left untranslated. -/
def Finished (s : RunState Key) (job : JobRow) : Prop :=
  ∃ work, ∃ fallen : Language → Finset Nat,
    plan.load (Folder.single plan.stored (some source)) = some work ∧
    job.outputs = plan.targets.map plan.output ∧
    job.warning = leftUntranslated (plan.targets.map fun language => (fallen language).card).sum
      (work.segments.length * plan.targets.length) ∧
    (s.job.files = true → ∀ language ∈ plan.targets,
      Stored plan s.folder s.calls work language (fallen language))

structure RunInvariant (s : RunState Key) : Prop where
  lifecycle : s.job.LifecycleInvariant
  cache : CacheFits plan.digest s.calls s.cache
  untouched : s.job.files = true → s.folder plan.stored = some source
  place : PlaceHolds plan source s
  completed : ∀ job, s.job.row = some job → job.status = .completed → Finished plan source s job

variable {plan source}

theorem Answered.mono {calls more : List ProviderCall} {work : Work} {language : Language}
    {fallen : Finset Nat} {out : List Str} (answered : Answered calls work language fallen out)
    (kept : calls ⊆ more) : Answered more work language fallen out := by
  obtain ⟨length, inside, entries⟩ := answered
  refine ⟨length, inside, fun i seg found => ?_⟩
  obtain ⟨text, there, entry⟩ := entries i seg found
  exact ⟨text, there, entry.mono kept⟩

theorem Stored.mono {folder later : Folder} {calls more : List ProviderCall} {work : Work}
    {language : Language} {fallen : Finset Nat} (stored : Stored plan folder calls work language fallen)
    (same : later (plan.outputName language) = folder (plan.outputName language))
    (kept : calls ⊆ more) : Stored plan later more work language fallen := by
  obtain ⟨bytes, out, file, rendered, answered⟩ := stored
  exact ⟨bytes, out, same.trans file, rendered, answered.mono kept⟩

/-- The progress of the worker stays when it takes no step itself. -/
theorem Ahead.moved {s t : RunState Key} {work : Work} {rest : List Language} {extra : Nat}
    (ahead : Ahead plan source s work rest extra) (worker : t.job.worker = s.job.worker)
    (claimed : t.job.claimed = s.job.claimed) (folder : t.folder = s.folder)
    (calls : s.calls ⊆ t.calls) : Ahead plan source t work rest extra := by
  obtain ⟨own, loaded, done, fallen, split, working, stored⟩ := ahead
  refine ⟨claimed.trans own, loaded, done, fallen, split, worker.trans working,
    fun language member => (stored language member).mono ?_ calls⟩
  rw [folder]

theorem PlaceHolds.moved {s t : RunState Key} (holds : PlaceHolds plan source s)
    (place : t.place = s.place) (worker : t.job.worker = s.job.worker)
    (claimed : t.job.claimed = s.job.claimed) (folder : t.folder = s.folder)
    (calls : t.calls = s.calls) : PlaceHolds plan source t := by
  have ahead {work : Work} {rest : List Language} {extra : Nat}
      (before : Ahead plan source s work rest extra) : Ahead plan source t work rest extra :=
    before.moved worker claimed folder (calls ▸ List.Subset.refl _)
  unfold PlaceHolds at holds ⊢
  rw [place]
  cases at_ : s.place with
  | opening | closing => trivial
  | reading =>
      rw [at_] at holds
      exact ⟨claimed.trans holds.1, worker.trans holds.2⟩
  | parsed work | announcing work | next work rest | entering work language rest
  | calling work language rest =>
      rw [at_] at holds
      exact ahead holds
  | translating work language rest loop =>
      rw [at_] at holds
      obtain ⟨before, raised, grown, consistent⟩ := holds
      exact ⟨ahead before, raised, calls ▸ grown, consistent⟩
  | translated work language rest out | rebuilding work language rest out =>
      rw [at_] at holds
      obtain ⟨fallen, before, answered⟩ := holds
      exact ⟨fallen, ahead before, calls ▸ answered⟩
  | recording work language rest =>
      rw [at_] at holds
      obtain ⟨fallen, before, stored⟩ := holds
      exact ⟨fallen, ahead before, stored.mono (by rw [folder]) (calls ▸ List.Subset.refl _)⟩

/-- A worker that has claimed the job and not settled it leaves it uncompleted, with its files. -/
theorem RunInvariant.open_ {s : RunState Key} (before : RunInvariant plan source s)
    (claimed : s.job.claimed = true) {outputs : List Output} {untranslated : Nat}
    (working : s.job.worker = .working outputs untranslated) :
    Running s.job.status ∧ s.job.files = true := by
  have running := before.lifecycle.running claimed (by rw [working]; rfl)
  refine ⟨running, ?_⟩
  rcases running with processing | canceling
  · exact before.lifecycle.files _ processing rfl
  · exact before.lifecycle.files _ canceling rfl

theorem not_completed {s : JobState} (running : Running s.status) {job : JobRow}
    (stored : s.row = some job) : job.status ≠ .completed := by
  intro done
  rw [JobState.status, stored, Option.map_some, done] at running
  rcases running with same | same <;> cases same

/-- A framed step that leaves the folder keeps the invariant when its new place holds. -/
theorem RunInvariant.moved {s t : RunState Key} (before : RunInvariant plan source s)
    (framed : s.job.Framed t.job) (lifecycle : t.job.LifecycleInvariant)
    (folder : t.folder = s.folder) (calls : s.calls ⊆ t.calls)
    (cache : CacheFits plan.digest t.calls t.cache) (holds : PlaceHolds plan source t) :
    RunInvariant plan source t where
  lifecycle := lifecycle
  cache := cache
  untouched kept := folder ▸ before.untouched (framed.files kept)
  place := holds
  completed job stored done := by
    obtain ⟨work, fallen, loaded, outputs, warning, files⟩ :=
      before.completed job (framed.completed job stored done) done
    exact ⟨work, fallen, loaded, outputs, warning, fun kept language member =>
      (files (framed.files kept) language member).mono (by rw [folder]) calls⟩

theorem advance_cases {s next : RunState Key} {events : List JobEvent} {place : Place Key}
    (advanced : s.advance events place = some next) :
    ∃ job, Machine.run JobState.step s.job events = some job ∧
      next = { s with job := job, place := place } := by
  obtain ⟨job, ran, rfl⟩ := Option.map_eq_some_iff.mp advanced
  exact ⟨job, ran, rfl⟩

theorem check_cases {s next : RunState Key} {seen : Option (Option Status)}
    {events : List JobEvent} {place : Place Key} (checked : s.check seen events place = some next) :
    ∃ job, s.job.step (.checkCanceled seen) = some job ∧
      ((job.worker = .canceling ∧ next = { s with job := job, place := .closing }) ∨
        (job.worker ≠ .canceling ∧
          ({ s with job := job } : RunState Key).advance events place = some next)) := by
  obtain ⟨job, stepped, later⟩ := Option.bind_eq_some_iff.mp checked
  refine ⟨job, stepped, ?_⟩
  dsimp only at later
  split at later
  · next canceling =>
      cases later
      exact .inl ⟨canceling, rfl⟩
  · next going => exact .inr ⟨going, later⟩

def JobEvent.isReport : JobEvent → Bool
  | .report .. => true
  | _ => false

/-- Progress reports leave the worker's variables. -/
theorem run_reports {job last : JobState} {events : List JobEvent} {outputs : List Output}
    {untranslated : Nat} (working : job.worker = .working outputs untranslated)
    (reports : events.all JobEvent.isReport = true)
    (ran : Machine.run JobState.step job events = some last) :
    last.worker = job.worker ∧ last.claimed = job.claimed := by
  induction events generalizing job with
  | nil =>
      cases ran
      exact ⟨rfl, rfl⟩
  | cons event rest ih =>
      obtain ⟨next, stepped, later⟩ := (Machine.run_cons _).mp ran
      rw [List.all_cons, Bool.and_eq_true] at reports
      obtain ⟨report, reports⟩ := reports
      cases event with
      | report progress stage =>
          obtain ⟨worker, claimed⟩ := JobState.step_report working stepped
          obtain ⟨workerLater, claimedLater⟩ := ih (worker.trans working) reports later
          exact ⟨workerLater.trans worker, claimedLater.trans claimed⟩
      | _ => cases report

/-- Progress reports lead to a place that holds. -/
theorem RunInvariant.reports {s next : RunState Key} (before : RunInvariant plan source s)
    {outputs : List Output} {untranslated : Nat}
    (working : s.job.worker = .working outputs untranslated) {events : List JobEvent}
    (reports : events.all JobEvent.isReport = true)
    {place : Place Key} (advanced : s.advance events place = some next)
    (holds : ∀ job : JobState, job.worker = s.job.worker → job.claimed = s.job.claimed →
      PlaceHolds plan source { s with job := job, place := place }) :
    RunInvariant plan source next := by
  obtain ⟨job, ran, rfl⟩ := advance_cases advanced
  obtain ⟨worker, claimed⟩ := run_reports working reports ran
  have open_ (event : JobEvent) (member : event ∈ events) (segments targets : Nat) :
      event ≠ .complete segments targets := by
    rintro rfl
    cases List.all_eq_true.mp reports _ member
  obtain ⟨framed, lifecycle⟩ := JobState.run_framed before.lifecycle open_ ran
  exact before.moved framed lifecycle rfl (List.Subset.refl _) before.cache (holds job worker claimed)

/-- A check of the cancellation ends the work or leads on to a place that holds. -/
theorem RunInvariant.check {s next : RunState Key} (before : RunInvariant plan source s)
    {outputs : List Output} {untranslated : Nat}
    (working : s.job.worker = .working outputs untranslated) {events : List JobEvent}
    (reports : events.all JobEvent.isReport = true)
    {seen : Option (Option Status)} {place : Place Key}
    (checked : s.check seen events place = some next)
    (holds : ∀ job : JobState, job.worker = s.job.worker → job.claimed = s.job.claimed →
      PlaceHolds plan source { s with job := job, place := place }) :
    RunInvariant plan source next := by
  obtain ⟨job, stepped, ended⟩ := check_cases checked
  have framed := JobState.step_framed stepped (fun _ _ same => by cases same)
  have lifecycle := (before.lifecycle.step stepped).2
  obtain ⟨worker, claimed⟩ := JobState.step_checkCanceled working stepped
  rcases ended with ⟨_, rfl⟩ | ⟨going, advanced⟩
  · exact before.moved framed lifecycle rfl (List.Subset.refl _) before.cache trivial
  · have same := worker.resolve_left going
    have middle : RunInvariant plan source { s with job := job } :=
      before.moved framed lifecycle rfl (List.Subset.refl _) before.cache
        (before.place.moved rfl same claimed rfl rfl)
    refine middle.reports (same.trans working) reports advanced fun later worker claimedLater => ?_
    exact holds later (worker.trans same) (claimedLater.trans claimed)

theorem Ahead.working {s : RunState Key} {work : Work} {rest : List Language} {extra : Nat}
    (ahead : Ahead plan source s work rest extra) :
    ∃ outputs untranslated, s.job.worker = .working outputs untranslated := by
  obtain ⟨_, _, _, _, _, working, _⟩ := ahead
  exact ⟨_, _, working⟩

/-- An exception ends the work. -/
theorem RunInvariant.raise {s next : RunState Key} (before : RunInvariant plan source s)
    {message : String} (advanced : s.advance [.fail message] .closing = some next) :
    RunInvariant plan source next := by
  obtain ⟨job, ran, rfl⟩ := advance_cases advanced
  have open_ (event : JobEvent) (member : event ∈ [JobEvent.fail message]) (segments targets : Nat) :
      event ≠ .complete segments targets := by
    cases List.mem_singleton.mp member
    exact nofun
  obtain ⟨framed, lifecycle⟩ := JobState.run_framed before.lifecycle open_ ran
  exact before.moved framed lifecycle rfl (List.Subset.refl _) before.cache trivial

section Steps
variable [DecidableEq Key]

/-- The worker goes on from a check. -/
theorem RunInvariant.checkCanceled {s next : RunState Key} (before : RunInvariant plan source s)
    {seen : Option (Option Status)} (stepped : s.step plan (.checkCanceled seen) = some next) :
    RunInvariant plan source next := by
  have here := before.place
  simp only [RunState.step] at stepped
  unfold PlaceHolds at here
  split at stepped
  · next work at_ =>
      rw [at_] at here
      obtain ⟨_, _, working⟩ := here.working
      exact before.check working rfl stepped fun job worker claimed =>
        here.moved worker claimed rfl (List.Subset.refl _)
  · next work language rest at_ =>
      rw [at_] at here
      obtain ⟨_, _, working⟩ := here.working
      exact before.check working rfl stepped fun job worker claimed =>
        here.moved worker claimed rfl (List.Subset.refl _)
  · next work language rest loop at_ =>
      rw [at_] at here
      obtain ⟨ahead, raised, grown, consistent⟩ := here
      obtain ⟨_, _, working⟩ := ahead.working
      exact before.check working rfl stepped fun job worker claimed =>
        ⟨ahead.moved worker claimed rfl (List.Subset.refl _), raised, grown, consistent⟩
  · next work language rest out at_ =>
      rw [at_] at here
      obtain ⟨fallen, ahead, answered⟩ := here
      obtain ⟨_, _, working⟩ := ahead.working
      exact before.check working rfl stepped fun job worker claimed =>
        ⟨fallen, ahead.moved worker claimed rfl (List.Subset.refl _), answered⟩
  · cases stepped

theorem RunInvariant.report {s next : RunState Key} (before : RunInvariant plan source s)
    (stepped : s.step plan .report = some next) : RunInvariant plan source next := by
  have here := before.place
  simp only [RunState.step] at stepped
  unfold PlaceHolds at here
  split at stepped
  · next work at_ =>
      rw [at_] at here
      obtain ⟨_, _, working⟩ := here.working
      exact before.reports working rfl stepped fun job worker claimed =>
        here.moved worker claimed rfl (List.Subset.refl _)
  · next work language rest at_ =>
      rw [at_] at here
      obtain ⟨_, _, working⟩ := here.working
      exact before.reports working rfl stepped fun job worker claimed =>
        here.moved worker claimed rfl (List.Subset.refl _)
  · cases stepped

theorem RunInvariant.callTranslate (injective : Function.Injective plan.digest)
    {s next : RunState Key} (before : RunInvariant plan source s) {seen : Option (Option Status)}
    (stepped : s.step plan (.callTranslate seen) = some next) : RunInvariant plan source next := by
  have here := before.place
  simp only [RunState.step] at stepped
  unfold PlaceHolds at here
  split at stepped
  · next work language rest at_ =>
      rw [at_] at here
      obtain ⟨_, _, working⟩ := here.working
      split at stepped
      · cases stepped
      · next loop started =>
          have consistent := LoopState.start_consistent injective before.cache started
          obtain ⟨results, _, same⟩ := Fallible.bind_ok.mp started
          refine before.check working rfl stepped fun job worker claimed => ?_
          cases same
          exact ⟨here.moved worker claimed rfl (List.Subset.refl _), rfl, List.Subset.refl _, _,
            consistent⟩
  · cases stepped

/-- A batch that finishes adds its fallbacks. -/
theorem finish_fallbacks {digest : Str → Key} {request : Engine.Request} {loop later : LoopState Key}
    {batch : List Nat} {script : List Engine.Attempt}
    (stepped : loop.step digest request (.finish batch script) = some later) :
    loop.fallbacks.sum ≤ later.fallbacks.sum := by
  simp only [LoopState.step] at stepped
  split at stepped
  · obtain ⟨called, _, ended⟩ := Option.bind_eq_some_iff.mp stepped
    split at ended
    · cases ended
      exact le_rfl
    · next lines _ =>
        cases ended
        simp only [LoopState.collect]
        split
        · exact le_rfl
        · rw [List.sum_append]
          exact Nat.le_add_right _ _
  · cases stepped

theorem RunInvariant.finishBatch {s next : RunState Key} (before : RunInvariant plan source s)
    {batch : List Nat} {script : List Engine.Attempt} {seen : Option (Option Status)}
    {message : String} (stepped : s.step plan (.finishBatch batch script seen message) = some next) :
    RunInvariant plan source next := by
  have here := before.place
  simp only [RunState.step] at stepped
  unfold PlaceHolds at here
  split at stepped
  · next work language rest loop at_ =>
      rw [at_] at here
      obtain ⟨ahead, raised, grown, todo, consistent⟩ := here
      obtain ⟨later, finished, ended⟩ := Option.bind_eq_some_iff.mp stepped
      have calls := List.Subset.trans grown (LoopState.step_calls finished)
      have cache := before.cache.mono calls
      split at ended
      · obtain ⟨job, checked, ended⟩ := Option.bind_eq_some_iff.mp ended
        split at ended
        · cases ended
          exact before.moved (JobState.step_framed checked fun _ _ same => by cases same)
            (before.lifecycle.step checked).2 rfl calls cache trivial
        · cases ended
      · have logged : RunInvariant plan source { s with place := .closing, calls := later.calls } :=
          before.moved (.refl _) before.lifecycle rfl calls cache trivial
        exact logged.raise ended
      · next unraised =>
          obtain ⟨claimed, loaded, done, fallen, split, working, stored⟩ := ahead
          obtain ⟨job, ran, rfl⟩ := advance_cases ended
          obtain ⟨middle, counted, reported⟩ := (Machine.run_cons _).mp ran
          obtain ⟨worker, claimedMiddle⟩ := JobState.step_countUntranslated working counted
          obtain ⟨last, stepped, ends⟩ := (Machine.run_cons _).mp reported
          cases ends
          obtain ⟨workerLast, claimedLast⟩ := JobState.step_report worker stepped
          have framed := (JobState.step_framed counted fun _ _ same => by cases same).trans
            (JobState.step_framed stepped fun _ _ same => by cases same)
          have lifecycle := ((before.lifecycle.step counted).2.step stepped).2
          refine before.moved framed lifecycle rfl (List.Subset.refl _) before.cache ⟨⟨?_, loaded,
            done, fallen, split, ?_, stored⟩, unraised, calls, todo, consistent.step finished⟩
          · exact claimedLast.trans (claimedMiddle.trans claimed)
          · have more := finish_fallbacks finished
            rw [workerLast, worker]
            congr 1
            omega
  · cases stepped

theorem RunInvariant.endTranslate {s next : RunState Key} (before : RunInvariant plan source s)
    {seen : Option (Option Status)} (stepped : s.step plan (.endTranslate seen) = some next) :
    RunInvariant plan source next := by
  have here := before.place
  simp only [RunState.step] at stepped
  unfold PlaceHolds at here
  split at stepped
  · next work language rest loop at_ =>
      rw [at_] at here
      obtain ⟨ahead, raised, grown, todo, consistent⟩ := here
      split at stepped
      · next finished =>
          obtain ⟨_, _, working⟩ := ahead.working
          have reply := consistent.reply finished
          obtain ⟨fallen, count, inside, entries⟩ := reply.entries
          have aheadNow : Ahead plan source
              { s with cache := loop.cache, calls := loop.calls } work (language :: rest)
              fallen.card := count ▸ ahead.moved rfl rfl rfl grown
          have taken : RunInvariant plan source
              { s with cache := loop.cache, calls := loop.calls } := by
            refine before.moved (.refl _) before.lifecycle rfl grown consistent.cache ?_
            unfold PlaceHolds
            rw [at_]
            exact ⟨ahead.moved rfl rfl rfl grown, raised, List.Subset.refl _, todo, consistent⟩
          refine taken.check working rfl stepped fun job worker claimed =>
            ⟨fallen, aheadNow.moved worker claimed rfl (List.Subset.refl _), reply.length, inside,
              entries⟩
      · cases stepped
  · cases stepped

end Steps

/-- A file that the worker writes leaves the recorded outputs and the source. -/
theorem RunInvariant.write {s : RunState Key} (before : RunInvariant plan source s) {work : Work}
    {language : Language} {rest : List Language} {extra : Nat}
    (ahead : Ahead plan source s work (language :: rest) extra) (content : Option (List UInt8))
    (place : Place Key)
    (holds : Ahead plan source
      { s with folder := Function.update s.folder (plan.outputName language) content } work
        (language :: rest) extra →
      PlaceHolds plan source
        { s with
          folder := Function.update s.folder (plan.outputName language) content
          place := place }) :
    RunInvariant plan source
      { s with
        folder := Function.update s.folder (plan.outputName language) content
        place := place } where
  lifecycle := before.lifecycle
  cache := before.cache
  untouched kept := by
    show Function.update s.folder (plan.outputName language) content plan.stored = some source
    rw [Function.update_of_ne (plan.outputName_ne_stored language).symm]
    exact before.untouched kept
  place := by
    obtain ⟨claimed, loaded, done, fallen, split, working, stored⟩ := ahead
    refine holds ⟨claimed, loaded, done, fallen, split, working, fun other member => ?_⟩
    refine (stored other member).mono (Function.update_of_ne (fun same => ?_) _ _)
      (List.Subset.refl _)
    have apart := List.disjoint_of_nodup_append (split ▸ plan.targets_nodup)
    rw [plan.outputName_injective same] at member
    exact apart member List.mem_cons_self
  completed job stored done := by
    obtain ⟨_, _, working⟩ := ahead.working
    exact absurd done (not_completed (before.open_ ahead.claimed working).1 stored)

section Steps
variable [DecidableEq Key]

theorem RunInvariant.writeOutput {s next : RunState Key} (before : RunInvariant plan source s)
    (stepped : s.step plan .writeOutput = some next) : RunInvariant plan source next := by
  have here := before.place
  simp only [RunState.step] at stepped
  unfold PlaceHolds at here
  split at stepped
  · next work language rest out at_ =>
      rw [at_] at here
      obtain ⟨fallen, ahead, answered⟩ := here
      obtain ⟨bytes, rendered, rfl⟩ := Option.map_eq_some_iff.mp stepped
      exact before.write ahead (some bytes) _ fun later => ⟨fallen,
        later.moved rfl rfl rfl (List.Subset.refl _), bytes, out, Function.update_self _ _ _,
        rendered, answered⟩
  · cases stepped

theorem RunInvariant.failWrite {s next : RunState Key} (before : RunInvariant plan source s)
    {content : Option (List UInt8)} {message : String}
    (stepped : s.step plan (.failWrite content message) = some next) :
    RunInvariant plan source next := by
  have here := before.place
  simp only [RunState.step] at stepped
  unfold PlaceHolds at here
  split at stepped
  · next work language rest out at_ =>
      rw [at_] at here
      obtain ⟨fallen, ahead, _⟩ := here
      have written := before.write ahead content .closing fun _ => trivial
      exact written.raise stepped
  · cases stepped

theorem RunInvariant.recordOutput {s next : RunState Key} (before : RunInvariant plan source s)
    (stepped : s.step plan .recordOutput = some next) : RunInvariant plan source next := by
  have here := before.place
  simp only [RunState.step] at stepped
  unfold PlaceHolds at here
  split at stepped
  · next work language rest at_ =>
      rw [at_] at here
      obtain ⟨now, ⟨claimed, loaded, done, fallen, split, working, stored⟩, file⟩ := here
      obtain ⟨job, ran, rfl⟩ := advance_cases stepped
      obtain ⟨middle, added, ends⟩ := (Machine.run_cons _).mp ran
      cases ends
      obtain ⟨worker, claimedNow⟩ := JobState.step_addOutput working added
      have new : language ∉ done := fun member =>
        List.disjoint_of_nodup_append (split ▸ plan.targets_nodup) member List.mem_cons_self
      have old (other : Language) (member : other ∈ done) :
          Function.update fallen language now other = fallen other := by
        refine Function.update_of_ne (fun same => ?_) _ _
        rw [same] at member
        exact new member
      refine before.moved (JobState.step_framed added fun _ _ same => by cases same)
        (before.lifecycle.step added).2 rfl (List.Subset.refl _) before.cache
        ⟨claimedNow.trans claimed, loaded, done ++ [language], Function.update fallen language now,
          ?_, ?_, fun other member => ?_⟩
      · rw [split, List.append_assoc]
        rfl
      · have cards : done.map (fun other => (Function.update fallen language now other).card) =
            done.map fun other => (fallen other).card :=
          List.map_congr_left fun other member => by rw [old other member]
        rw [worker, List.map_append, List.map_append, List.sum_append, cards, List.map_singleton,
          List.map_singleton, List.sum_singleton, Function.update_self, Nat.add_zero]
      · rcases List.mem_append.mp member with earlier | last
        · rw [old other earlier]
          exact stored other earlier
        · rw [List.mem_singleton.mp last, Function.update_self]
          exact file
  · cases stepped

theorem RunInvariant.complete {s next : RunState Key} (before : RunInvariant plan source s)
    (stepped : s.step plan .complete = some next) : RunInvariant plan source next := by
  have here := before.place
  simp only [RunState.step] at stepped
  unfold PlaceHolds at here
  split at stepped
  · next work at_ =>
      rw [at_] at here
      obtain ⟨claimed, loaded, done, fallen, split, working, stored⟩ := here
      rw [List.append_nil] at split
      obtain ⟨job, ran, rfl⟩ := advance_cases stepped
      obtain ⟨middle, completed, ends⟩ := (Machine.run_cons _).mp ran
      cases ends
      have lifecycle := (before.lifecycle.step completed).2
      have open_ := before.open_ claimed working
      simp only [JobState.step, working] at completed
      have same := (Option.some.inj completed).symm
      rcases JobState.workerUpdate_cases s.job [.processing] _ .leaving .canceling with
        ⟨row, _, _, result⟩ | ⟨_, result⟩
      · rw [result] at same
        refine ⟨lifecycle, before.cache, fun _ => before.untouched open_.2, trivial,
          fun last last_ _ => ⟨work, fallen, loaded, ?_, ?_, fun _ => split ▸ stored⟩⟩
        · rw [same] at last_
          cases last_
          rw [split]
        · rw [same] at last_
          cases last_
          rw [split]
          rfl
      · rw [result] at same
        refine ⟨lifecycle, before.cache, fun _ => before.untouched open_.2, trivial,
          fun last last_ ended => ?_⟩
        rw [same] at last_
        exact absurd ended (not_completed open_.1 last_)
  · cases stepped

theorem RunInvariant.load {s next : RunState Key} (before : RunInvariant plan source s)
    (stepped : s.step plan .load = some next) : RunInvariant plan source next := by
  have here := before.place
  simp only [RunState.step] at stepped
  unfold PlaceHolds at here
  split at stepped
  · next at_ =>
      rw [at_] at here
      obtain ⟨work, loaded, rfl⟩ := Option.map_eq_some_iff.mp stepped
      have there : s.folder plan.stored =
          Folder.single plan.stored (some source) plan.stored := by
        rw [before.untouched (before.open_ here.1 here.2).2, Folder.single, if_pos rfl]
      rw [JobPlan.load, there] at loaded
      exact before.moved (.refl _) before.lifecycle rfl (List.Subset.refl _) before.cache
        ⟨here.1, loaded, [], fun _ => ∅, rfl, here.2, nofun⟩
  · cases stepped

theorem RunInvariant.claim {s next : RunState Key} (before : RunInvariant plan source s)
    (stepped : s.step plan .claim = some next) : RunInvariant plan source next := by
  simp only [RunState.step] at stepped
  split at stepped
  · obtain ⟨job, claims, rfl⟩ := Option.map_eq_some_iff.mp stepped
    have worker : job.claimed = true → job.worker = .working [] 0 := by
      intro own
      simp only [JobState.step] at claims
      split at claims
      · cases claims
        exact if_pos own
      · cases claims
    refine before.moved (JobState.step_framed claims fun _ _ same => by cases same)
      (before.lifecycle.step claims).2 rfl (List.Subset.refl _) before.cache ?_
    cases own : job.claimed with
    | false => trivial
    | true => exact ⟨own, worker own⟩
  · cases stepped

end Steps

theorem runInvariant_initial (plan : JobPlan Key) (source : List UInt8) :
    RunInvariant plan source (RunState.initial plan source) where
  lifecycle := JobState.initial_lifecycle
  cache := nofun
  untouched _ := if_pos rfl
  place := trivial
  completed job stored done := by
    cases stored
    cases done

/-- A worker that is on its way through the translation is in no other place. -/
theorem PlaceHolds.working {s : RunState Key} (holds : PlaceHolds plan source s) :
    s.place = .opening ∨ s.place = .closing ∨
      s.job.claimed = true ∧ ∃ outputs untranslated, s.job.worker = .working outputs untranslated := by
  unfold PlaceHolds at holds
  cases at_ : s.place with
  | opening => exact .inl rfl
  | closing => exact .inr (.inl rfl)
  | reading =>
      rw [at_] at holds
      exact .inr (.inr ⟨holds.1, _, _, holds.2⟩)
  | parsed work | announcing work | next work rest | entering work language rest
  | calling work language rest =>
      rw [at_] at holds
      exact .inr (.inr ⟨holds.claimed, holds.working⟩)
  | translating work language rest loop =>
      rw [at_] at holds
      exact .inr (.inr ⟨holds.1.claimed, holds.1.working⟩)
  | translated work language rest out | rebuilding work language rest out
  | recording work language rest =>
      rw [at_] at holds
      obtain ⟨_, ahead, _⟩ := holds
      exact .inr (.inr ⟨ahead.claimed, ahead.working⟩)

/-- Of the steps outside the translation, a working worker takes a poll only. -/
theorem control_working {s next : JobState} {event : JobEvent} {outputs : List Output}
    {untranslated : Nat} (control : event.isControl = true)
    (working : s.worker = .working outputs untranslated) (stepped : s.step event = some next) :
    next.worker = s.worker ∧ next.claimed = s.claimed := by
  cases event with
  | poll seen => exact JobState.step_poll stepped
  | readRow => cases row : s.row <;> simp [JobState.step, working, row] at stepped
  | start | readCancelEvent | recordFailure | recordCancel | finish =>
      simp [JobState.step, working] at stepped
  | _ => cases control

/-- A request leaves the files when it leaves the folder of the job complete. -/
theorem folderAfter_of_files {s next : JobState} {event : JobEvent} {left : Str → Bool}
    {folder : Folder} (stepped : s.step event = some next) (kept : next.files = true) :
    folderAfter s left folder event = folder := by
  cases event with
  | delete visible removal sameProcess =>
      cases stepped
      have untouched : (deleteJob visible removal s.row).2.1 = false := by
        simp only [Bool.and_eq_true, Bool.not_eq_true'] at kept
        exact kept.2
      simp [folderAfter, untouched]
  | _ => rfl

section Steps
variable [DecidableEq Key]

theorem RunInvariant.request {s next : RunState Key} (before : RunInvariant plan source s)
    {event : JobEvent} {left : Str → Bool} (stepped : s.step plan (.request event left) = some next) :
    RunInvariant plan source next := by
  simp only [RunState.step] at stepped
  split at stepped
  · next asked =>
      obtain ⟨job, ran, rfl⟩ := advance_cases stepped
      obtain ⟨later, moved, ends⟩ := (Machine.run_cons _).mp ran
      cases ends
      have framed := JobState.step_framed moved fun segments targets same => by
        rw [same] at asked
        cases asked
      have lifecycle := (before.lifecycle.step moved).2
      obtain ⟨worker, claimed⟩ := JobState.step_request asked moved
      have folder (kept : job.files = true) : folderAfter s.job left s.folder event = s.folder :=
        folderAfter_of_files moved kept
      refine ⟨lifecycle, before.cache, fun kept => ?_, ?_, fun last stored done => ?_⟩
      · show folderAfter s.job left s.folder event plan.stored = some source
        rw [folder kept]
        exact before.untouched (framed.files kept)
      · rcases before.place.working with opening | closing | ⟨own, outputs, untranslated, working⟩
        · unfold PlaceHolds
          rw [opening]
          trivial
        · unfold PlaceHolds
          rw [closing]
          trivial
        · have running := lifecycle.running (claimed.trans own) (by rw [worker, working]; rfl)
          have kept : job.files = true := by
            rcases running with processing | canceling
            · exact lifecycle.files _ processing rfl
            · exact lifecycle.files _ canceling rfl
          exact before.place.moved rfl worker claimed (folder kept) rfl
      · obtain ⟨work, fallen, loaded, outputs, warning, files⟩ :=
          before.completed last (framed.completed last stored done) done
        refine ⟨work, fallen, loaded, outputs, warning, fun kept language member => ?_⟩
        show Stored plan (folderAfter s.job left s.folder event) s.calls work language _
        rw [folder kept]
        exact files (framed.files kept) language member
  · cases stepped

theorem RunInvariant.control {s next : RunState Key} (before : RunInvariant plan source s)
    {event : JobEvent} (stepped : s.step plan (.control event) = some next) :
    RunInvariant plan source next := by
  simp only [RunState.step] at stepped
  split at stepped
  · next control =>
      obtain ⟨job, ran, rfl⟩ := advance_cases stepped
      obtain ⟨later, moved, ends⟩ := (Machine.run_cons _).mp ran
      cases ends
      have framed := JobState.step_framed moved fun segments targets same => by
        rw [same] at control
        cases control
      refine before.moved framed (before.lifecycle.step moved).2 rfl (List.Subset.refl _)
        before.cache ?_
      rcases before.place.working with opening | closing | ⟨own, outputs, untranslated, working⟩
      · unfold PlaceHolds
        rw [opening]
        trivial
      · unfold PlaceHolds
        rw [closing]
        trivial
      · obtain ⟨worker, claimed⟩ := control_working control working moved
        exact before.place.moved rfl worker claimed rfl rfl
  · cases stepped

/-- Every step of the worker and every request keeps the invariant. -/
theorem RunInvariant.step (injective : Function.Injective plan.digest) {s next : RunState Key}
    {event : RunEvent} (before : RunInvariant plan source s)
    (stepped : s.step plan event = some next) : RunInvariant plan source next := by
  cases event with
  | control event => exact before.control stepped
  | claim => exact before.claim stepped
  | load => exact before.load stepped
  | checkCanceled seen => exact before.checkCanceled stepped
  | report => exact before.report stepped
  | callTranslate seen => exact before.callTranslate injective stepped
  | finishBatch batch script seen message => exact before.finishBatch stepped
  | endTranslate seen => exact before.endTranslate stepped
  | writeOutput => exact before.writeOutput stepped
  | failWrite content message => exact before.failWrite stepped
  | recordOutput => exact before.recordOutput stepped
  | complete => exact before.complete stepped
  | raise message => exact before.raise stepped
  | request event left => exact before.request stepped

/-- A job that is completed has one output for each of its languages in their order, with names that
differ from each other and from the source. Its files are the document with the cues rebuilt from the
provider's answers, its source is unchanged, and its warning counts the segments left untranslated. -/
theorem run_job_outputs (injective : Function.Injective plan.digest) {events : List RunEvent}
    {last : RunState Key}
    (ran : Machine.run (RunState.step plan) (RunState.initial plan source) events = some last)
    {job : JobRow} (stored : last.job.row = some job) (completed : job.status = .completed) :
    job.outputs = plan.targets.map plan.output ∧ (job.outputs.map Output.name).Nodup ∧
    (∀ language, plan.outputName language ≠ plan.stored) ∧
    (last.job.files = true → last.folder plan.stored = some source) ∧
    ∃ work, ∃ fallen : Language → Finset Nat,
      plan.load (Folder.single plan.stored (some source)) = some work ∧
      job.warning = leftUntranslated (plan.targets.map fun language => (fallen language).card).sum
        (work.segments.length * plan.targets.length) ∧
      (last.job.files = true → ∀ language ∈ plan.targets,
        Stored plan last.folder last.calls work language (fallen language)) := by
  have holds : RunInvariant plan source last :=
    Machine.run_invariant (RunInvariant plan source)
      (fun _ _ _ before stepped => before.step injective stepped)
      (runInvariant_initial plan source) ran
  obtain ⟨work, fallen, loaded, outputs, warning, files⟩ := holds.completed job stored completed
  refine ⟨outputs, ?_, plan.outputName_ne_stored, holds.untouched, work, fallen, loaded, warning,
    files⟩
  rw [outputs, List.map_map]
  exact plan.targets_nodup.map fun first second same => plan.output_injective same

end Steps

end Invariant

def samplePlan : JobPlan Str where
  filename := ofString "film.en.srt"
  stored := ofString "source.srt"
  stored_eq := by decide +kernel
  encoding := ofString "utf-8"
  targets := [.fr]
  targets_nodup := List.nodup_singleton _
  sourceLanguage := ofString "English"
  batchSize := 20
  batchSize_pos := by decide
  width := 20
  maxLines := 2
  codecs := fun _ raw => .ok (decodeIgnore 0 raw)
  unescape := id
  wide := fun _ => false
  digest := id

def sampleSource : List UInt8 :=
  (utf8? (ofString "1\n00:00:01,000 --> 00:00:02,000\nHi\n")).getD []

/-- The worker translates the one segment of the sample. -/
def sampleRun : List RunEvent :=
  [.control .start, .control .readRow, .claim, .load, .checkCanceled none, .report,
    .checkCanceled none, .report, .callTranslate none,
    .finishBatch [0] [{ answer := .returns (some [some (ofString "Salut")]) }] none "",
    .endTranslate none, .checkCanceled none, .writeOutput, .recordOutput, .complete]

theorem run_job_outputs_example :
    ∃ last job, Machine.run (RunState.step samplePlan) (RunState.initial samplePlan sampleSource)
        sampleRun = some last ∧
      last.job.row = some job ∧ job.outputs.map Output.name = ["film.fr.srt"] ∧
      last.folder (ofString "source.srt") = some sampleSource := by
  have completes : ((Machine.run (RunState.step samplePlan)
      (RunState.initial samplePlan sampleSource) sampleRun).any fun last =>
        last.job.files && last.job.row.any fun job => job.status = .completed) = true := by
    decide +kernel
  obtain ⟨last, ran, holds⟩ := (Option.any_eq_true _ _).mp completes
  obtain ⟨files, row⟩ := Bool.and_eq_true_iff.mp holds
  obtain ⟨job, stored, done⟩ := (Option.any_eq_true _ _).mp row
  obtain ⟨outputs, _, _, untouched, _⟩ :=
    run_job_outputs Function.injective_id ran stored (of_decide_eq_true done)
  refine ⟨last, job, ran, stored, ?_, untouched files⟩
  rw [outputs]
  decide +kernel

end SubtitleTranslator.Jobs
