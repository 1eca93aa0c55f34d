import SubtitleTranslator.Construction.CancelMonitor

namespace SubtitleTranslator.Jobs
open Library

theorem cancelPollSeconds_pos : 0 < cancelPollSeconds := by
  norm_num [cancelPollSeconds]

/-- A poll had no result when a check began: it is under way, it failed, or it ended later. -/
def Unfinished (start : ℚ) : PollOutcome → Prop
  | .pending | .failed => True
  | .handled time _ => start ≤ time

/-- No poll had found the job stopped when a check began. -/
def NotFound (s : MonitorState) (start : ℚ) : Prop :=
  ∀ poll ∈ s.polls, ∀ time, poll.outcome = .handled time true → start ≤ time

/-- What holds of a check at its place. -/
def CheckHolds (s : MonitorState) : CheckStage → Prop
  | .outside => True
  | .entered start => start ≤ s.clock ∧ NotFound s start
  | .timed start moment => start ≤ moment ∧ moment ≤ s.clock ∧ NotFound s start
  | .polling start moment =>
      start ≤ moment ∧ moment ≤ s.clock ∧ NotFound s start ∧ ∃ poll ∈ s.polls, poll.moment = moment
  | .polled start moment stopped =>
      start ≤ moment ∧ moment ≤ s.clock ∧ NotFound s start ∧
        (stopped = true → s.stopped.isSome = true) ∧
        (stopped = false → ∀ time, s.stopped = some time → moment ≤ time)

/-- A check that answers "stop" is right. One that does not began before a poll found the stop;
where the job had stopped for the time between polls by then, it met a poll that began after the
stop and had no result yet. -/
def AnswerHolds (s : MonitorState) (answer : CheckAnswer) : Prop :=
  answer.start ≤ s.clock ∧ (answer.stop = true → s.stopped.isSome = true) ∧
    (answer.stop = false → NotFound s answer.start ∧ ∀ time, s.stopped = some time →
      time + cancelPollSeconds ≤ answer.start →
        ∃ poll ∈ s.polls, time < poll.moment ∧ Unfinished answer.start poll.outcome)

/-- What holds of the polls, the event and the time of the next poll. -/
structure PollsHold (s : MonitorState) : Prop where
  positive : 0 ≤ s.clock
  stopped : ∀ time, s.stopped = some time → 0 ≤ time ∧ time ≤ s.clock
  event : s.event = true → s.stopped.isSome = true
  moments : ∀ poll ∈ s.polls, poll.moment ≤ s.clock
  spaced : (s.polls.map Poll.moment).Pairwise fun later earlier =>
    earlier + cancelPollSeconds ≤ later
  later : ∀ poll ∈ s.polls, poll.moment + cancelPollSeconds ≤ s.nextPoll
  last : s.nextPoll = 0 ∨ ∃ poll ∈ s.polls, s.nextPoll = poll.moment + cancelPollSeconds
  found : ∀ poll ∈ s.polls, ∀ time, poll.outcome = .handled time true → s.event = true
  missed : ∀ poll ∈ s.polls, ∀ time, poll.outcome = .handled time false →
    ∀ stop, s.stopped = some stop → poll.moment ≤ stop

structure MonitorInvariant (s : MonitorState) : Prop extends PollsHold s where
  checks : ∀ thread, CheckHolds s (s.threads thread)
  answers : ∀ answer ∈ s.answers, AnswerHolds s answer

/-- How the clock, the job and the polls go on. -/
structure Follows (s next : MonitorState) : Prop where
  clock : s.clock ≤ next.clock
  stopped : next.stopped = s.stopped ∨ s.stopped = none ∧ next.stopped = some s.clock
  kept : ∀ poll ∈ s.polls, ∃ later ∈ next.polls, later.moment = poll.moment ∧
    ∀ start ≤ s.clock, Unfinished start poll.outcome → Unfinished start later.outcome
  handled : ∀ later ∈ next.polls, ∀ time, later.outcome = .handled time true →
    (∃ poll ∈ s.polls, poll.outcome = .handled time true) ∨ s.clock ≤ time

section Follow
variable {s next : MonitorState}

theorem Follows.isSome (follows : Follows s next) (stopped : s.stopped.isSome = true) :
    next.stopped.isSome = true := by
  rcases follows.stopped with same | ⟨running, _⟩
  · rwa [same]
  · rw [running] at stopped
    cases stopped

theorem Follows.notFound (follows : Follows s next) {start : ℚ} (began : start ≤ s.clock)
    (before : NotFound s start) : NotFound next start := by
  intro later member time handled
  rcases follows.handled later member time handled with ⟨poll, there, same⟩ | now
  · exact before poll there time same
  · exact began.trans now

theorem CheckHolds.follow {stage : CheckStage} (holds : CheckHolds s stage)
    (follows : Follows s next) : CheckHolds next stage := by
  cases stage with
  | outside => trivial
  | entered start =>
      obtain ⟨began, before⟩ := holds
      exact ⟨began.trans follows.clock, follows.notFound began before⟩
  | timed start moment =>
      obtain ⟨order, read, before⟩ := holds
      exact ⟨order, read.trans follows.clock, follows.notFound (order.trans read) before⟩
  | polling start moment =>
      obtain ⟨order, read, before, poll, there, same⟩ := holds
      obtain ⟨later, member, moment, _⟩ := follows.kept poll there
      exact ⟨order, read.trans follows.clock, follows.notFound (order.trans read) before,
        later, member, moment.trans same⟩
  | polled start moment stopped =>
      obtain ⟨order, read, before, right, missed⟩ := holds
      refine ⟨order, read.trans follows.clock, follows.notFound (order.trans read) before,
        fun is => follows.isSome (right is), fun is time stop => ?_⟩
      rcases follows.stopped with same | ⟨_, now⟩
      · exact missed is time (same.symm.trans stop)
      · rw [now] at stop
        cases stop
        exact read

theorem AnswerHolds.follow {answer : CheckAnswer} (holds : AnswerHolds s answer)
    (follows : Follows s next) : AnswerHolds next answer := by
  obtain ⟨began, right, late⟩ := holds
  refine ⟨began.trans follows.clock, fun is => follows.isSome (right is), fun is => ?_⟩
  obtain ⟨before, late⟩ := late is
  refine ⟨follows.notFound began before, fun moment stop old => ?_⟩
  rcases follows.stopped with same | ⟨_, now⟩
  · obtain ⟨poll, there, after, unfinished⟩ := late moment (same.symm.trans stop) old
    obtain ⟨later, member, began', kept⟩ := follows.kept poll there
    exact ⟨later, member, began' ▸ after, kept answer.start began unfinished⟩
  · rw [now] at stop
    cases stop
    have second := cancelPollSeconds_pos
    linarith

end Follow

theorem follows_of_same {s next : MonitorState} (clock : s.clock ≤ next.clock)
    (stopped : next.stopped = s.stopped) (polls : next.polls = s.polls) : Follows s next where
  clock := clock
  stopped := .inl stopped
  kept := fun poll member => ⟨poll, polls ▸ member, rfl, fun _ _ unfinished => unfinished⟩
  handled := fun later member _ handled => .inl ⟨later, polls ▸ member, handled⟩

theorem mem_settle {s : MonitorState} {moment : ℚ} {outcome : PollOutcome} {poll : Poll} :
    poll ∈ (s.settle moment outcome).polls ↔ ∃ before ∈ s.polls, before.moment = poll.moment ∧
      poll.outcome = if before.moment = moment then outcome else before.outcome := by
  simp only [MonitorState.settle, List.mem_map]
  constructor
  · rintro ⟨before, member, rfl⟩
    refine ⟨before, member, ?_⟩
    split_ifs <;> exact ⟨rfl, rfl⟩
  · rintro ⟨before, member, moments, outcomes⟩
    refine ⟨before, member, ?_⟩
    obtain ⟨_, _⟩ := poll
    split_ifs at outcomes ⊢
    · cases moments
      cases outcomes
      rfl
    · cases moments
      cases outcomes
      rfl

theorem exists_mem_settle {s : MonitorState} {poll : Poll} (member : poll ∈ s.polls)
    (moment : ℚ) (outcome : PollOutcome) :
    ∃ later ∈ (s.settle moment outcome).polls, later.moment = poll.moment ∧
      later.outcome = if poll.moment = moment then outcome else poll.outcome :=
  ⟨⟨poll.moment, if poll.moment = moment then outcome else poll.outcome⟩,
    mem_settle.mpr ⟨poll, member, rfl, rfl⟩, rfl, rfl⟩

/-- A poll that gets its outcome now is unfinished for every check that began before. -/
theorem follows_settle {s : MonitorState} (moment : ℚ) {outcome : PollOutcome}
    (now : ∀ start ≤ s.clock, Unfinished start outcome) : Follows s (s.settle moment outcome) where
  clock := le_rfl
  stopped := .inl rfl
  kept := by
    intro poll member
    obtain ⟨later, settled, same, outcomes⟩ := exists_mem_settle member moment outcome
    refine ⟨later, settled, same, fun start began unfinished => ?_⟩
    rw [outcomes]
    split_ifs
    · exact now start began
    · exact unfinished
  handled := by
    intro later member time handled
    obtain ⟨poll, there, _, outcomes⟩ := mem_settle.mp member
    rw [handled] at outcomes
    split_ifs at outcomes
    · right
      have kept := now s.clock le_rfl
      rw [← outcomes] at kept
      exact kept
    · exact .inl ⟨poll, there, outcomes.symm⟩

section Keep
variable {s next : MonitorState}

/-- A step that moves no thread keeps the checks and the answers. -/
theorem MonitorInvariant.pass (holds : MonitorInvariant s) (follows : Follows s next)
    (polls : PollsHold next) (threads : next.threads = s.threads)
    (answers : next.answers = s.answers) : MonitorInvariant next where
  toPollsHold := polls
  checks := fun thread => threads ▸ (holds.checks thread).follow follows
  answers := fun answer member => (holds.answers answer (answers ▸ member)).follow follows

theorem MonitorInvariant.setThread (holds : MonitorInvariant s) (thread : Nat)
    {stage : CheckStage} (check : CheckHolds s stage) :
    MonitorInvariant (s.setThread thread stage) where
  toPollsHold := { holds.toPollsHold with }
  checks := by
    intro other
    have follows : Follows s (s.setThread thread stage) := follows_of_same le_rfl rfl rfl
    by_cases same : other = thread
    · subst same
      simp only [MonitorState.setThread, Function.update_self]
      exact check.follow follows
    · simp only [MonitorState.setThread, Function.update_of_ne same]
      exact (holds.checks other).follow follows
  answers := fun answer member =>
    (holds.answers answer member).follow (follows_of_same le_rfl rfl rfl)

theorem MonitorInvariant.answer (holds : MonitorInvariant s) (thread : Nat) {start : ℚ}
    {stop : Bool} (right : AnswerHolds s ⟨start, stop⟩) :
    MonitorInvariant (s.answer thread start stop) := by
  have outside : MonitorInvariant (s.setThread thread .outside) :=
    holds.setThread thread trivial
  have follows : Follows s (s.answer thread start stop) := follows_of_same le_rfl rfl rfl
  refine ⟨{ holds.toPollsHold with }, fun other => ?_, ?_⟩
  · exact (outside.checks other).follow (follows_of_same le_rfl rfl rfl)
  · intro answer member
    rcases List.mem_cons.mp member with rfl | earlier
    · exact right.follow follows
    · exact (holds.answers answer earlier).follow follows

theorem PollsHold.tick (holds : PollsHold s) {now : ℚ} (later : s.clock ≤ now) :
    PollsHold { s with clock := now } :=
  { holds with
    positive := holds.positive.trans later
    stopped := fun time stop =>
      ⟨(holds.stopped time stop).1, (holds.stopped time stop).2.trans later⟩
    moments := fun poll member => (holds.moments poll member).trans later }

theorem PollsHold.stop (holds : PollsHold s) : PollsHold { s with stopped := some s.clock } :=
  { holds with
    stopped := fun _ now => Option.some.inj now ▸ ⟨holds.positive, le_rfl⟩
    event := fun _ => rfl
    missed := fun poll member _ _ _ now => Option.some.inj now ▸ holds.moments poll member }

theorem PollsHold.signal (holds : PollsHold s) (stopped : s.stopped.isSome = true) :
    PollsHold { s with event := true } :=
  { holds with
    event := fun _ => stopped
    found := fun _ _ _ _ => rfl }

theorem PollsHold.poll (holds : PollsHold s) {moment : ℚ} (read : moment ≤ s.clock)
    (due : s.nextPoll ≤ moment) :
    PollsHold { s with
      nextPoll := moment + cancelPollSeconds
      polls := ⟨moment, .pending⟩ :: s.polls } where
  positive := holds.positive
  stopped := holds.stopped
  event := holds.event
  moments := by
    intro poll member
    rcases List.mem_cons.mp member with rfl | earlier
    · exact read
    · exact holds.moments poll earlier
  spaced := by
    refine List.pairwise_cons.mpr ⟨?_, holds.spaced⟩
    intro earlier member
    obtain ⟨poll, there, rfl⟩ := List.mem_map.mp member
    exact (holds.later poll there).trans due
  later := by
    intro poll member
    have second := cancelPollSeconds_pos
    rcases List.mem_cons.mp member with rfl | earlier
    · exact le_rfl
    · have before := holds.later poll earlier
      dsimp only
      linarith
  last := .inr ⟨_, List.mem_cons_self, rfl⟩
  found := by
    intro poll member time handled
    rcases List.mem_cons.mp member with rfl | earlier
    · cases handled
    · exact holds.found poll earlier time handled
  missed := by
    intro poll member time handled
    rcases List.mem_cons.mp member with rfl | earlier
    · cases handled
    · exact holds.missed poll earlier time handled

theorem map_moment_settle (s : MonitorState) (moment : ℚ) (outcome : PollOutcome) :
    (s.settle moment outcome).polls.map Poll.moment = s.polls.map Poll.moment := by
  simp only [MonitorState.settle, List.map_map]
  apply List.map_congr_left
  intro poll _
  simp only [Function.comp_apply]
  split_ifs <;> rfl

/-- A poll may end with a result that agrees with the event and with the time of the stop. -/
theorem PollsHold.settle (holds : PollsHold s) {moment : ℚ} {outcome : PollOutcome}
    (found : ∀ time, outcome = .handled time true → s.event = true)
    (missed : ∀ time, outcome = .handled time false →
      ∀ stop, s.stopped = some stop → moment ≤ stop) : PollsHold (s.settle moment outcome) where
  positive := holds.positive
  stopped := holds.stopped
  event := holds.event
  moments := by
    intro poll member
    obtain ⟨before, there, same, _⟩ := mem_settle.mp member
    exact same ▸ holds.moments before there
  spaced := by
    rw [map_moment_settle]
    exact holds.spaced
  later := by
    intro poll member
    obtain ⟨before, there, same, _⟩ := mem_settle.mp member
    exact same ▸ holds.later before there
  last := by
    rcases holds.last with zero | ⟨poll, there, next⟩
    · exact .inl zero
    · obtain ⟨later, settled, same, _⟩ := exists_mem_settle there moment outcome
      exact .inr ⟨later, settled, same ▸ next⟩
  found := by
    intro poll member time handled
    obtain ⟨before, there, _, outcomes⟩ := mem_settle.mp member
    rw [handled] at outcomes
    split_ifs at outcomes
    · exact found time outcomes.symm
    · exact holds.found before there time outcomes.symm
  missed := by
    intro poll member time handled stop stopped
    obtain ⟨before, there, same, outcomes⟩ := mem_settle.mp member
    rw [handled] at outcomes
    split_ifs at outcomes with own
    · exact (same.symm.trans own) ▸ missed time outcomes.symm stop stopped
    · exact same ▸ holds.missed before there time outcomes.symm stop stopped

end Keep

section Step
variable {s : MonitorState}

theorem follows_poll (moment next : ℚ) :
    Follows s { s with nextPoll := next, polls := ⟨moment, .pending⟩ :: s.polls } where
  clock := le_rfl
  stopped := .inl rfl
  kept := fun poll member =>
    ⟨poll, List.mem_cons_of_mem _ member, rfl, fun _ _ unfinished => unfinished⟩
  handled := by
    intro later member time handled
    rcases List.mem_cons.mp member with rfl | earlier
    · cases handled
    · exact .inl ⟨later, earlier, handled⟩

theorem answerHolds_stop {start : ℚ} (began : start ≤ s.clock)
    (stopped : s.stopped.isSome = true) : AnswerHolds s ⟨start, true⟩ :=
  ⟨began, fun _ => stopped, by simp⟩

theorem answerHolds_go {start : ℚ} (began : start ≤ s.clock) (before : NotFound s start)
    (late : ∀ time, s.stopped = some time → time + cancelPollSeconds ≤ start →
      ∃ poll ∈ s.polls, time < poll.moment ∧ Unfinished start poll.outcome) :
    AnswerHolds s ⟨start, false⟩ :=
  ⟨began, by simp, fun _ => ⟨before, late⟩⟩

/-- A check that comes too early for a poll of its own met the last one, which began after a stop
that is older than the check by the time between polls. -/
theorem MonitorInvariant.early (holds : MonitorInvariant s) {start moment : ℚ}
    (check : CheckHolds s (.timed start moment)) (early : moment < s.nextPoll) :
    AnswerHolds s ⟨start, false⟩ := by
  obtain ⟨order, read, before⟩ := check
  apply answerHolds_go (order.trans read) before
  intro time stop old
  have second := cancelPollSeconds_pos
  rcases holds.last with zero | ⟨poll, member, next⟩
  · -- Without a poll the next one is at zero, and no clock is before it.
    have ⟨positive, _⟩ := holds.stopped time stop
    linarith
  · have after : time < poll.moment := by
      linarith
    refine ⟨poll, member, after, ?_⟩
    cases outcome : poll.outcome with
    | pending => trivial
    | failed => trivial
    | handled finish stopped =>
        cases stopped with
        | true => exact before poll member finish outcome
        | false => exact absurd (holds.missed poll member finish outcome time stop) after.not_ge

theorem follows_failed (s : MonitorState) (moment : ℚ) : Follows s (s.settle moment .failed) :=
  follows_settle moment fun _ _ => trivial

/-- A check whose query failed began its own poll after such a stop. -/
theorem answerHolds_failed {start moment : ℚ}
    (check : CheckHolds s (.polling start moment)) :
    AnswerHolds (s.settle moment .failed) ⟨start, false⟩ := by
  obtain ⟨order, read, before, poll, member, same⟩ := check
  have began : start ≤ (s.settle moment .failed).clock := order.trans read
  apply answerHolds_go began ((follows_failed s moment).notFound (order.trans read) before)
  intro time _ old
  have second := cancelPollSeconds_pos
  obtain ⟨later, settled, moments, outcomes⟩ := exists_mem_settle member moment .failed
  rw [if_pos same] at outcomes
  have after : time < later.moment := by
    linarith
  refine ⟨later, settled, after, ?_⟩
  rw [outcomes]
  trivial

/-- A check whose query found the job active read it before every stop. -/
theorem answerHolds_active {start moment : ℚ}
    (check : CheckHolds s (.polled start moment false)) :
    AnswerHolds s ⟨start, false⟩ := by
  obtain ⟨order, read, before, _, missed⟩ := check
  apply answerHolds_go (order.trans read) before
  intro time stop old
  have second := cancelPollSeconds_pos
  have active := missed rfl time stop
  linarith

theorem MonitorInvariant.check (holds : MonitorInvariant s) {thread : Nat} {stage : CheckStage}
    (place : s.threads thread = stage) : CheckHolds s stage :=
  place ▸ holds.checks thread

theorem MonitorInvariant.notFound (holds : MonitorInvariant s) (quiet : s.event = false)
    (start : ℚ) : NotFound s start := by
  intro poll member time handled
  have found := holds.found poll member time handled
  rw [quiet] at found
  cases found

theorem MonitorInvariant.enter (holds : MonitorInvariant s) {next : MonitorState} {thread : Nat}
    (stepped : s.step (.enter thread) = some next) : MonitorInvariant next := by
  simp only [MonitorState.step] at stepped
  split at stepped
  · split_ifs at stepped with set
    · cases stepped
      exact holds.answer thread (answerHolds_stop le_rfl (holds.event set))
    · cases stepped
      have quiet : s.event = false := by
        simpa using set
      exact holds.setThread thread ⟨le_rfl, holds.notFound quiet s.clock⟩
  · cases stepped

theorem MonitorInvariant.readClock (holds : MonitorInvariant s) {next : MonitorState}
    {thread : Nat} (stepped : s.step (.readClock thread) = some next) :
    MonitorInvariant next := by
  simp only [MonitorState.step] at stepped
  split at stepped
  next start stage =>
    cases stepped
    have check := holds.check stage
    obtain ⟨began, before⟩ := check
    exact holds.setThread thread ⟨began, le_rfl, before⟩
  next => cases stepped

theorem MonitorInvariant.lock (holds : MonitorInvariant s) {next : MonitorState} {thread : Nat}
    (stepped : s.step (.lock thread) = some next) : MonitorInvariant next := by
  simp only [MonitorState.step] at stepped
  split at stepped
  next start moment stage =>
    have check := holds.check stage
    split_ifs at stepped with early
    · cases stepped
      exact holds.answer thread (holds.early check early)
    · cases stepped
      obtain ⟨order, read, before⟩ := check
      have follows := follows_poll (s := s) moment (moment + cancelPollSeconds)
      have polled := holds.pass follows (holds.toPollsHold.poll read (not_lt.mp early)) rfl rfl
      exact polled.setThread thread
        ⟨order, read, follows.notFound (order.trans read) before, _, List.mem_cons_self, rfl⟩
  next => cases stepped

theorem MonitorInvariant.query (holds : MonitorInvariant s) {next : MonitorState} {thread : Nat}
    (stepped : s.step (.query thread) = some next) : MonitorInvariant next := by
  simp only [MonitorState.step] at stepped
  split at stepped
  next start moment stage =>
    cases stepped
    have check := holds.check stage
    obtain ⟨order, read, before, _⟩ := check
    refine holds.setThread thread ⟨order, read, before, fun is => is, fun active time stop => ?_⟩
    rw [stop] at active
    cases active
  next => cases stepped

theorem MonitorInvariant.databaseError (holds : MonitorInvariant s) {next : MonitorState}
    {thread : Nat} (stepped : s.step (.databaseError thread) = some next) :
    MonitorInvariant next := by
  simp only [MonitorState.step] at stepped
  split at stepped
  next start moment stage =>
    cases stepped
    have check := holds.check stage
    have polls : PollsHold (s.settle moment .failed) :=
      holds.toPollsHold.settle (by simp) (by simp)
    have settled := holds.pass (follows_failed s moment) polls rfl rfl
    exact settled.answer thread (answerHolds_failed check)
  next => cases stepped

theorem MonitorInvariant.signal (holds : MonitorInvariant s) (stopped : s.stopped.isSome = true) :
    MonitorInvariant { s with event := true } :=
  holds.pass (follows_of_same le_rfl rfl rfl) (holds.toPollsHold.signal stopped) rfl rfl

theorem MonitorInvariant.handle (holds : MonitorInvariant s) {next : MonitorState}
    {thread : Nat} (stepped : s.step (.handle thread) = some next) : MonitorInvariant next := by
  simp only [MonitorState.step] at stepped
  split at stepped
  next start moment stopped stage =>
    have check := holds.check stage
    have follows : ∀ s : MonitorState,
        Follows s (s.settle moment (.handled s.clock stopped)) :=
      fun s => follows_settle moment fun _ began => began
    cases stopped with
    | true =>
        cases stepped
        obtain ⟨order, read, _, right, _⟩ := check
        have set := holds.signal (right rfl)
        have polls : PollsHold ({ s with event := true }.settle moment (.handled s.clock true)) :=
          set.toPollsHold.settle (fun _ _ => rfl) (by simp)
        have settled := set.pass (follows _) polls rfl rfl
        exact settled.answer thread (answerHolds_stop (order.trans read) (right rfl))
    | false =>
        cases stepped
        have polls : PollsHold (s.settle moment (.handled s.clock false)) :=
          holds.toPollsHold.settle (by simp) fun _ _ => check.2.2.2.2 rfl
        have settled := holds.pass (follows s) polls rfl rfl
        exact settled.answer thread ((answerHolds_active check).follow (follows s))
  next => cases stepped

theorem MonitorInvariant.step (holds : MonitorInvariant s) {event : MonitorEvent}
    {next : MonitorState} (stepped : s.step event = some next) : MonitorInvariant next := by
  cases event with
  | tick now =>
      simp only [MonitorState.step] at stepped
      split_ifs at stepped with later
      cases stepped
      exact holds.pass (follows_of_same later rfl rfl) (holds.toPollsHold.tick later) rfl rfl
  | stop =>
      simp only [MonitorState.step] at stepped
      split_ifs at stepped with running
      cases stepped
      have same : Follows s s := follows_of_same le_rfl rfl rfl
      have follows : Follows s { s with stopped := some s.clock } :=
        { same with stopped := .inr ⟨running, rfl⟩ }
      exact holds.pass follows holds.toPollsHold.stop rfl rfl
  | signal =>
      simp only [MonitorState.step] at stepped
      split_ifs at stepped with stopped
      cases stepped
      exact holds.signal stopped
  | enter thread => exact holds.enter stepped
  | readClock thread => exact holds.readClock stepped
  | lock thread => exact holds.lock stepped
  | query thread => exact holds.query stepped
  | databaseError thread => exact holds.databaseError stepped
  | handle thread => exact holds.handle stepped

end Step

theorem monitorInvariant_initial {start : ℚ} (positive : 0 ≤ start) :
    MonitorInvariant (.initial start) where
  positive := positive
  stopped := by simp [MonitorState.initial]
  event := by simp [MonitorState.initial]
  moments := by simp [MonitorState.initial]
  spaced := by simp [MonitorState.initial]
  later := by simp [MonitorState.initial]
  last := .inl rfl
  found := by simp [MonitorState.initial]
  missed := by simp [MonitorState.initial]
  checks := fun _ => trivial
  answers := by simp [MonitorState.initial]

end SubtitleTranslator.Jobs
