import SubtitleTranslator.Library.Machine

namespace SubtitleTranslator.Engine
open Library

/-- The times are exact numbers of seconds. -/
structure Throttle where
  blockedUntil : ℚ
  nextSlot : ℚ
  interval : ℚ

namespace Throttle

/-- This function is `Throttle(rpm)`. -/
def new (rpm : ℚ) : Throttle := ⟨0, 0, if 0 < rpm then 60 / rpm else 0⟩

/-- A wait is granted, or the worker sleeps before it looks again. -/
inductive Answer where
  | granted
  | delayed (delay : ℚ)
  deriving DecidableEq

/-- This function is the locked section of `wait`. -/
def wait (throttle : Throttle) (now : ℚ) : Throttle × Answer :=
  let target := max throttle.blockedUntil throttle.nextSlot
  if target ≤ now then
    ({ throttle with nextSlot := max now throttle.nextSlot + throttle.interval }, .granted)
  else (throttle, .delayed (target - now))

/-- A throttle with a cancellation callback sleeps for shorter times. -/
def sleepTime (cancelable : Bool) (delay : ℚ) : ℚ := min delay (if cancelable then 1 / 4 else 5)

/-- This function is `penalise`. -/
def penalise (throttle : Throttle) (now seconds : ℚ) : Throttle × ℚ :=
  let blockedUntil := max throttle.blockedUntil (now + seconds)
  ({ throttle with blockedUntil := blockedUntil }, blockedUntil - now)

end Throttle

/-- A worker is outside the throttle, at the head of the loop of `wait`, or asleep in it. -/
inductive Worker where
  | outside
  | looping
  | asleep (wakes : ℚ)
  deriving DecidableEq

/-- The log records the granted waits and the penalties with their times. -/
inductive ThrottleEntry where
  | granted (now : ℚ)
  | penalised (now seconds returned : ℚ)
  deriving DecidableEq

/-- The workers share one throttle; the log has the newest entry first. -/
structure ThrottleState where
  throttle : Throttle
  workers : Nat → Worker
  clock : ℚ
  log : List ThrottleEntry

inductive ThrottleEvent where
  | call (worker : Nat)
  /-- The cancellation callback ends a wait. -/
  | cancel (worker : Nat)
  | look (worker : Nat) (now : ℚ)
  | wake (worker : Nat) (now : ℚ)
  | penalise (worker : Nat) (now seconds : ℚ)

namespace ThrottleState

/-- The workers start with a new throttle. -/
def initial (rpm clock : ℚ) : ThrottleState := ⟨.new rpm, fun _ => .outside, clock, []⟩

def setWorker (s : ThrottleState) (worker : Nat) (place : Worker) : ThrottleState :=
  { s with workers := Function.update s.workers worker place }

/-- A worker in the loop of `wait` takes the lock. -/
def look (cancelable : Bool) (s : ThrottleState) (worker : Nat) (now : ℚ) : ThrottleState :=
  match s.throttle.wait now with
  | (throttle, .granted) =>
      { s.setWorker worker .outside with
        throttle := throttle
        clock := now
        log := .granted now :: s.log }
  | (throttle, .delayed delay) =>
      { s.setWorker worker (.asleep (now + Throttle.sleepTime cancelable delay)) with
        throttle := throttle
        clock := now }

/-- A worker outside the loop takes the lock to park all workers. -/
def penalise (s : ThrottleState) (now seconds : ℚ) : ThrottleState :=
  { s with
    throttle := (s.throttle.penalise now seconds).1
    clock := now
    log := .penalised now seconds (s.throttle.penalise now seconds).2 :: s.log }

/-- This step is one move of one worker; the clock does not go back. -/
def step (cancelable : Bool) (s : ThrottleState) : ThrottleEvent → Option ThrottleState
  | .call worker =>
      if s.workers worker = .outside then some (s.setWorker worker .looping) else none
  | .cancel worker =>
      if cancelable ∧ s.workers worker = .looping then some (s.setWorker worker .outside) else none
  | .look worker now =>
      if s.clock ≤ now ∧ s.workers worker = .looping then some (s.look cancelable worker now)
      else none
  | .wake worker now =>
      match s.workers worker with
      | .asleep wakes =>
          if s.clock ≤ now ∧ wakes ≤ now then
            some { s.setWorker worker .looping with clock := now }
          else none
      | .outside | .looping => none
  | .penalise worker now seconds =>
      if s.clock ≤ now ∧ s.workers worker = .outside then some (s.penalise now seconds) else none

end ThrottleState

end SubtitleTranslator.Engine
