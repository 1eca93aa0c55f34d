import SubtitleTranslator.Library.Machine
import Mathlib.Data.Rat.Defs
import Mathlib.Tactic.Linarith

namespace SubtitleTranslator.Jobs
open Library

/-- This constant is `CANCEL_POLL_SECONDS`. -/
def cancelPollSeconds : ℚ := 1

/-- A thread is outside `stop_requested` or at a place of it. It entered at a time, and has read its
clock before the lock; the status it found may be one that stops the job. -/
inductive CheckStage where
  | outside
  | entered (start : ℚ)
  | timed (start moment : ℚ)
  | polling (start moment : ℚ)
  | polled (start moment : ℚ) (stopped : Bool)
  deriving DecidableEq

/-- A poll has no outcome yet, had a database error, or has handled the status at a time. -/
inductive PollOutcome where
  | pending
  | failed
  | handled (time : ℚ) (stopped : Bool)
  deriving DecidableEq

/-- A status query with the reading of its clock. -/
structure Poll where
  moment : ℚ
  outcome : PollOutcome
  deriving DecidableEq

/-- What a check answered, with the time at which it began. -/
structure CheckAnswer where
  start : ℚ
  stop : Bool
  deriving DecidableEq

/-- The threads of a worker share one monitor. The job has left `queued` and `processing` at the time
`stopped`. The logs of polls and answers have the newest entry first. -/
structure MonitorState where
  clock : ℚ
  stopped : Option ℚ
  event : Bool
  nextPoll : ℚ
  threads : Nat → CheckStage
  polls : List Poll
  answers : List CheckAnswer

inductive MonitorEvent where
  | tick (now : ℚ)
  /-- The status leaves `queued` and `processing`, by a request in any process. -/
  | stop
  /-- A request of this process, which has committed the new status, sets the event. -/
  | signal
  | enter (thread : Nat)
  | readClock (thread : Nat)
  | lock (thread : Nat)
  | query (thread : Nat)
  | databaseError (thread : Nat)
  | handle (thread : Nat)

namespace MonitorState

/-- The monitor starts with no poll; its clock is not negative. -/
def initial (start : ℚ) : MonitorState where
  clock := start
  stopped := none
  event := false
  nextPoll := 0
  threads := fun _ => .outside
  polls := []
  answers := []

def setThread (s : MonitorState) (thread : Nat) (stage : CheckStage) : MonitorState :=
  { s with threads := Function.update s.threads thread stage }

/-- A check ends with its answer. -/
def answer (s : MonitorState) (thread : Nat) (start : ℚ) (stop : Bool) : MonitorState :=
  { s.setThread thread .outside with answers := ⟨start, stop⟩ :: s.answers }

/-- The poll with a reading of the clock gets its outcome. -/
def settle (s : MonitorState) (moment : ℚ) (outcome : PollOutcome) : MonitorState :=
  { s with
    polls := s.polls.map fun poll => if poll.moment = moment then { poll with outcome } else poll }

/-- This step is one move of one thread of `stop_requested`, or one of the world around it. -/
def step (s : MonitorState) : MonitorEvent → Option MonitorState
  | .tick now => if s.clock ≤ now then some { s with clock := now } else none
  | .stop => if s.stopped = none then some { s with stopped := some s.clock } else none
  | .signal => if s.stopped.isSome then some { s with event := true } else none
  | .enter thread =>
      match s.threads thread with
      | .outside =>
          if s.event then some (s.answer thread s.clock true)
          else some (s.setThread thread (.entered s.clock))
      | _ => none
  | .readClock thread =>
      match s.threads thread with
      | .entered start => some (s.setThread thread (.timed start s.clock))
      | _ => none
  | .lock thread =>
      match s.threads thread with
      | .timed start moment =>
          if moment < s.nextPoll then some (s.answer thread start false)
          else some { s.setThread thread (.polling start moment) with
            nextPoll := moment + cancelPollSeconds
            polls := ⟨moment, .pending⟩ :: s.polls }
      | _ => none
  | .query thread =>
      match s.threads thread with
      | .polling start moment =>
          some (s.setThread thread (.polled start moment s.stopped.isSome))
      | _ => none
  | .databaseError thread =>
      match s.threads thread with
      | .polling start moment => some ((s.settle moment .failed).answer thread start false)
      | _ => none
  | .handle thread =>
      match s.threads thread with
      | .polled start moment stopped =>
          let s := (s.settle moment (.handled s.clock stopped)).answer thread start stopped
          some (if stopped then { s with event := true } else s)
      | _ => none

end MonitorState

end SubtitleTranslator.Jobs
