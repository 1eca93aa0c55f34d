import SubtitleTranslator.Construction.Server
import SubtitleTranslator.Proof.CaptchaSettings
import SubtitleTranslator.Proof.JobLifecycle

namespace SubtitleTranslator.Server
open Library Library.Text Settings
open Jobs (JobRow JobState JobEvent Status StatusMove Abandoned recoverJob cancelJob_spec deleteJob_spec)

/-- The recovery moves a status as a step of the job can. -/
theorem recoverJob_moves (job : JobRow) :
    StatusMove (some job.status) (some (recoverJob job).status) ∧
      (recoverJob job).status.terminal = true := by
  unfold recoverJob
  cases status : job.status with
  | queued => exact ⟨.failed (.inl rfl), rfl⟩
  | processing => exact ⟨.failed (.inr rfl), rfl⟩
  | canceling => exact ⟨.canceled rfl, rfl⟩
  | completed | failed | canceled =>
      simp only [status]
      exact ⟨.stay _, rfl⟩

theorem ServerJob.recover_moves (job : ServerJob) :
    StatusMove job.state.status job.recover.state.status ∧
      ∀ status, job.recover.state.status = some status → status.terminal = true := by
  unfold ServerJob.recover JobState.status
  cases job.state.row with
  | none => exact ⟨.stay _, nofun⟩
  | some row =>
      refine ⟨(recoverJob_moves row).1, ?_⟩
      intro status stored
      cases stored
      exact (recoverJob_moves row).2

/-- A request for a job moves its status, and it is accepted only for a job that it abandons. -/
theorem request_moves {state next : JobState} {event : JobEvent} {own : Bool}
    (taken : takenIn own event = true) (orphan : own = false)
    (stepped : state.step event = some next) :
    StatusMove state.status next.status ∧
      (next.cancelAccepted = true → state.cancelAccepted = true ∨ Abandoned next.status) := by
  subst orphan
  cases event with
  | cancel visible =>
      cases stepped
      obtain ⟨moves, accepted, _⟩ := cancelJob_spec visible state.row
      refine ⟨moves, fun answered => ?_⟩
      rcases Bool.or_eq_true_iff.mp answered with earlier | now
      · exact .inl earlier
      · exact .inr (accepted (eq_of_beq now))
  | signal sameProcess =>
      simp only [JobState.step] at stepped
      split at stepped
      · cases stepped
        exact ⟨.stay _, .inl⟩
      · cases stepped
  | delete visible removal sameProcess =>
      cases stepped
      exact ⟨(deleteJob_spec visible removal state.row).1, .inl⟩
  | _ => cases taken

/-- What holds of the jobs and the processes of the server. -/
structure ServerInvariant (s : ServerState) : Prop where
  unborn : ∀ p, s.started ≤ p → s.processes p = none
  gone : ∀ p < s.first, s.processes p = none
  first_le : s.first ≤ s.started
  alone : ∀ p process, s.processes p = some process → process.recovering = true →
    ∀ q, q ≠ p → s.processes q = none
  born : ∀ id job, s.jobs id = some job → job.process < s.started
  lifecycle : ∀ id job, s.jobs id = some job → ∀ process, s.processes job.process = some process →
    process.phase = .serving ∧ job.state.LifecycleInvariant
  accepted : ∀ id job, s.jobs id = some job → job.state.cancelAccepted = true →
    Abandoned job.state.status
  settled : (∃ p process, s.processes p = some process ∧ process.recovering = false) →
    ∀ id job, s.jobs id = some job → job.process < s.first →
      ∀ status, job.state.status = some status → status.terminal = true

namespace ServerInvariant
variable {s next : ServerState} {env : Environment} {fernet : Fernet}

theorem initial (panel : PanelState) : ServerInvariant (.initial panel) where
  unborn _ _ := rfl
  gone _ _ := rfl
  first_le := le_rfl
  alone _ _ here := by cases here
  born _ _ stored := by cases stored
  lifecycle _ _ stored := by cases stored
  accepted _ _ stored := by cases stored
  settled _ _ _ stored := by cases stored

theorem withPanel (before : ServerInvariant s) (panel : PanelState) :
    ServerInvariant { s with panel := panel } :=
  ⟨before.unborn, before.gone, before.first_le, before.alone, before.born, before.lifecycle,
    before.accepted, before.settled⟩

/-- A process goes on or ends. -/
theorem setProcess (before : ServerInvariant s) {p : Nat} {old : Process} {new : Option Process}
    (live : s.processes p = some old)
    (recovering : ∀ process, new = some process → process.recovering = true → old.recovering = true)
    (serving : ∀ process, new = some process → old.phase = .serving → process.phase = .serving)
    (settles : ∀ process, new = some process → process.recovering = false →
      old.recovering = false ∨ ∀ id job, s.jobs id = some job →
        ∀ status, job.state.status = some status → status.terminal = true) :
    ServerInvariant (s.setProcess p new) := by
  have stays {q : Nat} (dead : s.processes q = none) : (s.setProcess p new).processes q = none := by
    simp only [ServerState.setProcess]
    rw [Function.update_of_ne]
    · exact dead
    · rintro rfl
      cases dead.symm.trans live
  refine ⟨fun q high => stays (before.unborn q high), fun q low => stays (before.gone q low),
    before.first_le, fun q process here recovers other different => ?_, before.born,
    fun id job stored process here => ?_, before.accepted, fun ⟨q, process, here, done⟩ => ?_⟩
  · simp only [ServerState.setProcess] at here ⊢
    by_cases same : q = p
    · subst same
      rw [Function.update_self] at here
      rw [Function.update_of_ne different]
      exact before.alone q old live (recovering process here recovers) other different
    · rw [Function.update_of_ne same] at here
      have none_ := before.alone q process here recovers p (Ne.symm same)
      cases none_.symm.trans live
  · simp only [ServerState.setProcess] at here
    by_cases same : job.process = p
    · rw [same, Function.update_self] at here
      obtain ⟨serves, alive⟩ := before.lifecycle id job stored old (same ▸ live)
      exact ⟨serving process here serves, alive⟩
    · rw [Function.update_of_ne same] at here
      exact before.lifecycle id job stored process here
  · intro id job stored earlier
    simp only [ServerState.setProcess] at here
    by_cases same : q = p
    · subst same
      rw [Function.update_self] at here
      rcases settles process here done with quiet | all
      · exact before.settled ⟨q, old, live, quiet⟩ id job stored earlier
      · exact all id job stored
    · rw [Function.update_of_ne same] at here
      exact before.settled ⟨q, process, here, done⟩ id job stored earlier

/-- A process that starts has a new number. -/
theorem start (before : ServerInvariant s) {process : Process} {first : Nat}
    (reach : first = s.first ∧ process.recovering = false ∧
        (∃ p other, s.processes p = some other ∧ other.recovering = false) ∨
      first = s.started ∧ process.recovering = true ∧ ∀ p, s.processes p = none) :
    ServerInvariant { s.setProcess s.started (some process) with
      started := s.started + 1
      first := first } := by
  have other {p : Nat} (different : p ≠ s.started) :
      (s.setProcess s.started (some process)).processes p = s.processes p :=
    Function.update_of_ne different _ _
  have self : (s.setProcess s.started (some process)).processes s.started = some process :=
    Function.update_self _ _ _
  refine ⟨fun p high => ?_, fun p low => ?_, ?_, fun p new here recovers q different => ?_,
    fun id job stored => (before.born id job stored).trans (Nat.lt_succ_self _),
    fun id job stored new here => ?_, before.accepted, fun ⟨p, new, here, done⟩ => ?_⟩
  · exact (other (by dsimp only at high; omega)).trans
      (before.unborn p (by dsimp only at high; omega))
  · rcases reach with ⟨rfl, _, _⟩ | ⟨rfl, _, all⟩
    · exact (other (by have := before.first_le; dsimp only at low; omega)).trans (before.gone p low)
    · exact (other (Nat.ne_of_lt low)).trans (all p)
  · rcases reach with ⟨rfl, _, _⟩ | ⟨rfl, _, _⟩
    · exact before.first_le.trans (Nat.le_succ _)
    · exact Nat.le_succ _
  · dsimp only at here ⊢
    rcases reach with ⟨_, quiet, earlier, old, there, done⟩ | ⟨_, _, all⟩
    · by_cases same : p = s.started
      · rw [same, self] at here
        cases here
        rw [quiet] at recovers
        cases recovers
      · rw [other same] at here
        by_cases one : earlier = p
        · rw [one, here] at there
          cases there
          rw [done] at recovers
          cases recovers
        · cases (before.alone p new here recovers earlier one).symm.trans there
    · by_cases same : p = s.started
      · exact (other (same ▸ different)).trans (all q)
      · rw [other same, all p] at here
        cases here
  · dsimp only at here
    rw [other (Nat.ne_of_lt (before.born id job stored))] at here
    exact before.lifecycle id job stored new here
  · dsimp only at here ⊢
    rcases reach with ⟨rfl, _, there⟩ | ⟨_, recovers, all⟩
    · exact before.settled there
    · by_cases same : p = s.started
      · rw [same, self] at here
        cases here
        rw [recovers] at done
        cases done
      · rw [other same, all p] at here
        cases here

/-- The recovery finds no other process, and it ends every job. -/
theorem recover (before : ServerInvariant s) {p : Nat} {process : Process}
    (live : s.processes p = some process) (recovers : process.recovering = true) :
    ServerInvariant { s with jobs := fun id => (s.jobs id).map ServerJob.recover } ∧
      ∀ id job, (s.jobs id).map ServerJob.recover = some job →
        ∀ status, job.state.status = some status → status.terminal = true := by
  have ends : ∀ id job, (s.jobs id).map ServerJob.recover = some job →
      ∀ status, job.state.status = some status → status.terminal = true := by
    intro id job stored
    obtain ⟨old, _, rfl⟩ := Option.map_eq_some_iff.mp stored
    exact old.recover_moves.2
  refine ⟨⟨before.unborn, before.gone, before.first_le, before.alone, fun id job stored => ?_,
    fun id job stored other here => ?_, fun id job stored answered => ?_,
    fun _ id job stored _ => ends id job stored⟩, ends⟩
  · obtain ⟨old, there, rfl⟩ := Option.map_eq_some_iff.mp stored
    exact before.born id old there
  · obtain ⟨old, there, rfl⟩ := Option.map_eq_some_iff.mp stored
    obtain ⟨serves, _⟩ := before.lifecycle id old there other here
    by_cases same : old.process = p
    · rw [← same] at live
      cases here.symm.trans live
      rw [Process.recovering, serves] at recovers
      cases recovers
    · cases here.symm.trans (before.alone p process live recovers old.process same)
  · obtain ⟨old, there, rfl⟩ := Option.map_eq_some_iff.mp stored
    exact StatusMove.abandoned (before.accepted id old there answered) old.recover_moves.1

/-- A step of a job in the process of its worker, or a request for the job. -/
theorem job (before : ServerInvariant s) {p id : Nat} {job : ServerJob} {event : JobEvent}
    {state : JobState} (stored : s.jobs id = some job) (serves : s.serves p = true)
    (taken : takenIn (job.process == p) event = true) (stepped : job.state.step event = some state) :
    StatusMove job.state.status state.status ∧
      ServerInvariant
        { s with jobs := Function.update s.jobs id (some { job with state := state }) } := by
  obtain ⟨server, live, _⟩ := (Option.any_eq_true _ _).mp serves
  have outcome : StatusMove job.state.status state.status ∧
      (state.cancelAccepted = true → Abandoned state.status) ∧
      ∀ process, s.processes job.process = some process →
        process.phase = .serving ∧ state.LifecycleInvariant := by
    cases own : s.processes job.process with
    | none =>
        have orphan : (job.process == p) = false := by
          rw [beq_eq_false_iff_ne]
          rintro rfl
          cases own.symm.trans live
        obtain ⟨moves, answered⟩ := request_moves taken orphan stepped
        refine ⟨moves, fun accepted => ?_, fun _ => by intro there; cases there⟩
        rcases answered accepted with earlier | now
        · exact StatusMove.abandoned (before.accepted id job stored earlier) moves
        · exact now
    | some process =>
        obtain ⟨serving, alive⟩ := before.lifecycle id job stored process own
        obtain ⟨moves, after⟩ := alive.step stepped
        refine ⟨moves, after.accepted, fun other there => ?_⟩
        cases there
        exact ⟨serving, after⟩
  obtain ⟨moves, accepted, alive⟩ := outcome
  refine ⟨moves, before.unborn, before.gone, before.first_le, before.alone, fun other new there => ?_,
    fun other new there process here => ?_, fun other new there answered => ?_,
    fun serving other new there earlier status current => ?_⟩
  all_goals
    dsimp only at there
    by_cases same : other = id
  · rw [same, Function.update_self] at there
    cases there
    exact before.born id job stored
  · rw [Function.update_of_ne same] at there
    exact before.born other new there
  · rw [same, Function.update_self] at there
    cases there
    exact alive process here
  · rw [Function.update_of_ne same] at there
    exact before.lifecycle other new there process here
  · rw [same, Function.update_self] at there
    cases there
    exact accepted answered
  · rw [Function.update_of_ne same] at there
    exact before.accepted other new there answered
  · rw [same, Function.update_self] at there
    cases there
    have ended := before.settled serving id job stored earlier
    change state.status = some status at current
    rw [current] at moves
    cases old : job.state.status with
    | none =>
        rw [old] at moves
        cases moves.of_none
    | some terminal =>
        rw [old] at moves
        rcases moves.of_terminal (ended terminal old) with kept | removed
        · cases kept
          exact ended status old
        · cases removed
  · rw [Function.update_of_ne same] at there
    exact before.settled serving other new there earlier status current

/-- A request of a serving process makes a job. -/
theorem create (before : ServerInvariant s) {p id : Nat} (serves : s.serves p = true) :
    ServerInvariant { s with jobs := Function.update s.jobs id (some ⟨.initial, p⟩) } := by
  obtain ⟨server, live, serving⟩ := (Option.any_eq_true _ _).mp serves
  refine ⟨before.unborn, before.gone, before.first_le, before.alone, fun other new there => ?_,
    fun other new there process here => ?_, fun other new there answered => ?_,
    fun some_ other new there earlier status current => ?_⟩
  all_goals
    dsimp only at there
    by_cases same : other = id
  · rw [same, Function.update_self] at there
    cases there
    by_contra high
    cases (before.unborn p (Nat.le_of_not_lt high)).symm.trans live
  · rw [Function.update_of_ne same] at there
    exact before.born other new there
  · rw [same, Function.update_self] at there
    cases there
    cases live.symm.trans here
    exact ⟨of_decide_eq_true serving, JobState.initial_lifecycle⟩
  · rw [Function.update_of_ne same] at there
    exact before.lifecycle other new there process here
  · rw [same, Function.update_self] at there
    cases there
    cases answered
  · rw [Function.update_of_ne same] at there
    exact before.accepted other new there answered
  · rw [same, Function.update_self] at there
    cases there
    cases (before.gone p earlier).symm.trans live
  · rw [Function.update_of_ne same] at there
    exact before.settled some_ other new there earlier status current

/-- A failed attempt leaves the process where it was, or ends it. -/
theorem retry (before : ServerInvariant s) {p attempt : Nat} {role : Role} {old : Phase}
    {phase : Nat → Phase} (live : s.processes p = some ⟨role, old⟩) (waits : old ≠ .serving)
    (same : ∀ attempt, (⟨role, phase attempt⟩ : Process).recovering = (⟨role, old⟩ : Process).recovering) :
    ServerInvariant (s.retry p role attempt phase) := by
  unfold ServerState.retry
  split
  · refine before.setProcess live (fun process here => ?_) (fun _ _ serves => absurd serves waits)
      fun process here done => .inl ?_ <;> cases here
    · exact fun recovers => same _ ▸ recovers
    · exact same _ ▸ done
  · exact before.setProcess live (fun _ here => by cases here) (fun _ here => by cases here)
      fun _ here => by cases here

theorem step (before : ServerInvariant s) {event : ServerEvent}
    (stepped : s.step env fernet event = some next) : ServerInvariant next := by
  cases event with
  | launch supervised =>
      simp only [ServerState.step] at stepped
      split at stepped
      · next none_ =>
          cases stepped
          refine before.start (.inr ⟨rfl, ?_, fun p => ?_⟩)
          · cases supervised <;> rfl
          · by_cases low : p < s.started
            · exact none_ p low
            · exact before.unborn p (Nat.le_of_not_lt low)
      · cases stepped
  | fork =>
      simp only [ServerState.step] at stepped
      split at stepped
      · next supervisor =>
          cases stepped
          exact before.start (.inl ⟨rfl, rfl, s.first, _, supervisor, rfl⟩)
      · cases stepped
  | readSettings p =>
      simp only [ServerState.step] at stepped
      split at stepped
      · next live =>
          cases stepped
          refine before.setProcess live (fun process here => ?_) (fun _ _ serves => by cases serves)
            fun process here done => .inl ?_ <;> cases here
          · exact id
          · exact done
      · cases stepped
  | commitSeed p =>
      simp only [ServerState.step] at stepped
      split at stepped
      · next role attempt missing live =>
          split at stepped
          · cases stepped
            exact before.retry live nofun fun _ => rfl
          · cases stepped
            cases role with
            | worker =>
                refine withPanel (before.setProcess live (fun process here recovers => ?_)
                  (fun _ _ serves => by cases serves) fun _ _ _ => .inl rfl) _
                cases here
                cases recovers
            | supervisor | alone =>
                obtain ⟨recovered, ended⟩ := before.recover live rfl
                refine withPanel (recovered.setProcess live (fun process here recovers => ?_)
                  (fun _ _ serves => by cases serves) fun _ _ _ => .inr ended) _
                cases here
                cases recovers
      · cases stepped
  | databaseError p =>
      simp only [ServerState.step] at stepped
      split at stepped
      · next live =>
          cases stepped
          exact before.retry live nofun fun _ => rfl
      · next live =>
          cases stepped
          exact before.retry live nofun fun _ => rfl
      · cases stepped
  | readSecrets p =>
      simp only [ServerState.step] at stepped
      split at stepped
      · next live =>
          split at stepped <;> cases stepped <;>
            exact before.setProcess live (fun process here recovers => by cases here; cases recovers)
              (fun _ _ serves => by cases serves) fun _ _ _ => .inl rfl
      · cases stepped
  | commitSecrets p random =>
      simp only [ServerState.step] at stepped
      split at stepped
      · next live =>
          split at stepped
          · cases stepped
            exact before.setProcess live (fun _ here => by cases here) (fun _ here => by cases here)
              fun _ here => by cases here
          · cases stepped
            refine withPanel (before.setProcess live (fun process here recovers => ?_)
              (fun _ _ serves => by cases serves) fun _ _ _ => .inl rfl) _
            cases here
            cases recovers
      · cases stepped
  | saveSettings p random payload =>
      simp only [ServerState.step] at stepped
      split at stepped
      · obtain ⟨panel, _, rfl⟩ := Option.map_eq_some_iff.mp stepped
        exact before.withPanel panel
      · cases stepped
  | deleteKey p provider =>
      simp only [ServerState.step] at stepped
      split at stepped
      · obtain ⟨panel, _, rfl⟩ := Option.map_eq_some_iff.mp stepped
        exact before.withPanel panel
      · cases stepped
  | createJob p id =>
      simp only [ServerState.step] at stepped
      split at stepped
      · next free =>
          cases stepped
          exact before.create free.1
      · cases stepped
  | job p id event =>
      simp only [ServerState.step] at stepped
      split at stepped
      · next job stored =>
          split at stepped
          · next free =>
              obtain ⟨state, moved, rfl⟩ := Option.map_eq_some_iff.mp stepped
              exact (before.job stored free.1 free.2 moved).2
          · cases stepped
      · cases stepped
  | crash p =>
      simp only [ServerState.step] at stepped
      split at stepped
      · next live =>
          cases stepped
          exact before.setProcess live (fun _ here => by cases here) (fun _ here => by cases here)
            fun _ here => by cases here
      · cases stepped
  | shutdown =>
      cases stepped
      exact ⟨fun _ _ => rfl, fun _ _ => rfl, before.first_le, fun _ _ here => (by cases here),
        before.born, fun _ _ _ _ here => (by cases here), before.accepted,
        fun ⟨_, _, here, _⟩ => (by cases here)⟩

/-- A step moves the status of each job as a step of the job can. -/
theorem step_moves (before : ServerInvariant s) {event : ServerEvent}
    (stepped : s.step env fernet event = some next) {id : Nat} {job : ServerJob}
    (stored : s.jobs id = some job) :
    ∃ later, next.jobs id = some later ∧ StatusMove job.state.status later.state.status := by
  cases event with
  | launch _ | fork | createJob _ _ =>
      simp only [ServerState.step] at stepped
      split at stepped
      · next free =>
          cases stepped
          refine ⟨job, ?_, .stay _⟩
          first
          | exact stored
          | rw [← stored]
            refine Function.update_of_ne ?_ _ _
            rintro rfl
            rw [stored] at free
            cases free.2
      · cases stepped
  | readSettings p | databaseError p | crash p =>
      simp only [ServerState.step] at stepped
      split at stepped <;> cases stepped <;> exact ⟨job, stored, .stay _⟩
  | readSecrets p | commitSecrets p random =>
      simp only [ServerState.step] at stepped
      split at stepped
      · split at stepped <;> cases stepped <;> exact ⟨job, stored, .stay _⟩
      · cases stepped
  | commitSeed p =>
      simp only [ServerState.step] at stepped
      split at stepped
      · next role attempt missing live =>
          split at stepped <;> cases stepped
          · exact ⟨job, stored, .stay _⟩
          · cases role with
            | worker => exact ⟨job, stored, .stay _⟩
            | supervisor | alone =>
                exact ⟨job.recover, congrArg (Option.map ServerJob.recover) stored,
                  job.recover_moves.1⟩
      · cases stepped
  | saveSettings _ _ _ | deleteKey _ _ =>
      simp only [ServerState.step] at stepped
      split at stepped
      · obtain ⟨panel, _, rfl⟩ := Option.map_eq_some_iff.mp stepped
        exact ⟨job, stored, .stay _⟩
      · cases stepped
  | job p other event =>
      simp only [ServerState.step] at stepped
      split at stepped
      · next own there =>
          split at stepped
          · next free =>
              obtain ⟨state, moved, rfl⟩ := Option.map_eq_some_iff.mp stepped
              by_cases same : id = other
              · subst same
                cases stored.symm.trans there
                exact ⟨_, Function.update_self _ _ _, (before.job there free.1 free.2 moved).1⟩
              · exact ⟨job, (Function.update_of_ne same _ _).trans stored, .stay _⟩
          · cases stepped
      · cases stepped
  | shutdown =>
      cases stepped
      exact ⟨job, stored, .stay _⟩

/-- What the moves of a status keep holds of a job in every later state of the server. -/
theorem run_keeps (Holds : Option Status → Prop)
    (closed : ∀ status later, Holds status → StatusMove status later → Holds later)
    (before : ServerInvariant s) {id : Nat} {job : ServerJob} (stored : s.jobs id = some job)
    (holds : Holds job.state.status) {events : List ServerEvent} {last : ServerState}
    (ran : Machine.run (ServerState.step env fernet) s events = some last) :
    ∃ later, last.jobs id = some later ∧ Holds later.state.status := by
  refine (Machine.run_invariant (fun now : ServerState => ServerInvariant now ∧
    ∃ later, now.jobs id = some later ∧ Holds later.state.status) ?_
    ⟨before, job, stored, holds⟩ ran).2
  rintro now event next ⟨sound, later, there, kept⟩ stepped
  obtain ⟨after, stays, moves⟩ := sound.step_moves stepped there
  exact ⟨sound.step stepped, after, stays, closed _ _ kept moves⟩

end ServerInvariant

/-- Over all restarts of the server and of its workers, the recovery of the jobs runs when no other
process is left. A job that has ended keeps its status until its row is deleted, and one with an
accepted cancel request never completes or fails. While a process is past the recovery, an open job
belongs to this run of the server, and its worker has not made its final write while its process
lives. -/
theorem server_settles_jobs {env : Environment} {fernet : Fernet} {panel : PanelState}
    {events later : List ServerEvent} {s last : ServerState}
    (reached : Machine.run (ServerState.step env fernet) (.initial panel) events = some s)
    (continued : Machine.run (ServerState.step env fernet) s later = some last) :
    (∀ p process, s.processes p = some process → process.recovering = true →
      ∀ q, q ≠ p → s.processes q = none) ∧
    (∀ id job status, s.jobs id = some job → job.state.status = some status →
      status.terminal = true → ∃ after, last.jobs id = some after ∧
        (after.state.status = some status ∨ after.state.status = none)) ∧
    (∀ id job, s.jobs id = some job → job.state.cancelAccepted = true →
      ∃ after, last.jobs id = some after ∧ after.state.status ≠ some .completed ∧
        after.state.status ≠ some .failed) ∧
    ((∃ p process, s.processes p = some process ∧ process.recovering = false) →
      ∀ id job status, s.jobs id = some job → job.state.status = some status →
        status.terminal = false → s.first ≤ job.process ∧
          (s.serves job.process = true → job.state.claimed = true →
            job.state.worker.unsettled = true)) := by
  have holds : ServerInvariant s := Machine.run_invariant ServerInvariant
    (fun _ _ _ before stepped => before.step stepped) (.initial panel) reached
  refine ⟨holds.alone, fun id job status stored current terminal => ?_,
    fun id job stored answered => ?_, fun ready id job status stored current open_ => ⟨?_, ?_⟩⟩
  · refine holds.run_keeps (fun now => now = some status ∨ now = none) ?_ stored
      (.inl current) continued
    rintro now after (rfl | rfl) moves
    · exact moves.of_terminal terminal
    · exact .inr moves.of_none
  · obtain ⟨after, stays, abandoned⟩ := holds.run_keeps Abandoned (fun _ _ => StatusMove.abandoned) stored
      (holds.accepted id job stored answered) continued
    refine ⟨after, stays, ?_⟩
    rcases abandoned with same | same | same <;> rw [same] <;> exact ⟨nofun, nofun⟩
  · by_contra earlier
    rw [holds.settled ready id job stored (Nat.lt_of_not_le earlier) status current] at open_
    cases open_
  · intro serves own
    obtain ⟨process, live, _⟩ := (Option.any_eq_true _ _).mp serves
    have alive := (holds.lifecycle id job stored process live).2
    by_contra settled
    rw [alive.settled own (Bool.eq_false_of_not_eq_true settled) status current] at open_
    cases open_

/-- A cipher that shows its text. -/
def plainFernet : Fernet where
  encrypt _ text := text
  decrypt := some
  correct _ _ := rfl

/-- A supervisor forks a worker, whose job is asked to stop while it runs. -/
def supervisedRun : List ServerEvent :=
  [.launch true, .readSettings 0, .commitSeed 0, .fork, .readSettings 1, .commitSeed 1,
    .readSecrets 1, .commitSecrets 1 0, .createJob 1 7, .job 1 7 .start, .job 1 7 .readRow,
    .job 1 7 .claim, .job 1 7 (.cancel true)]

/-- The worker crashes, another one serves, and the server starts again as one process. -/
def restartedRun : List ServerEvent :=
  [.crash 1, .fork, .readSettings 2, .commitSeed 2, .readSecrets 2, .commitSecrets 2 0,
    .job 2 7 (.cancel true), .shutdown, .launch false, .readSettings 3, .commitSeed 3]

theorem server_settles_jobs_example :
    ∃ s last job after,
      Machine.run (ServerState.step plainEnvironment plainFernet)
        (.initial emptyPanel) supervisedRun = some s ∧
      Machine.run (ServerState.step plainEnvironment plainFernet) s restartedRun =
        some last ∧
      s.jobs 7 = some job ∧ job.state.status = some .canceling ∧ s.first ≤ job.process ∧
      last.jobs 7 = some after ∧ after.state.status ≠ some .completed := by
  have runs : ((Machine.run (ServerState.step plainEnvironment plainFernet)
      (.initial emptyPanel) supervisedRun).any fun s =>
        (s.jobs 7).any (fun job => decide (job.state.status = some .canceling) &&
          job.state.cancelAccepted) && decide (s.processes 1 = some ⟨.worker, .serving⟩) &&
        (Machine.run (ServerState.step plainEnvironment plainFernet) s restartedRun).isSome) =
          true := by
    decide +kernel
  obtain ⟨s, reached, holds⟩ := (Option.any_eq_true _ _).mp runs
  obtain ⟨early, goes⟩ := Bool.and_eq_true_iff.mp holds
  obtain ⟨asked, serves⟩ := Bool.and_eq_true_iff.mp early
  obtain ⟨job, stored, canceling⟩ := (Option.any_eq_true _ _).mp asked
  obtain ⟨status, accepted⟩ := Bool.and_eq_true_iff.mp canceling
  obtain ⟨last, continued⟩ := Option.isSome_iff_exists.mp goes
  obtain ⟨_, _, abandoned, settled⟩ := server_settles_jobs reached continued
  obtain ⟨after, stays, incomplete, _⟩ := abandoned 7 job stored accepted
  have ready : ∃ p process, s.processes p = some process ∧ process.recovering = false :=
    ⟨1, _, of_decide_eq_true serves, rfl⟩
  exact ⟨s, last, job, after, reached, continued, stored, of_decide_eq_true status,
    (settled ready 7 job _ stored (of_decide_eq_true status) rfl).1, stays, incomplete⟩

end SubtitleTranslator.Server
