import SubtitleTranslator.Construction.Throttle
import SubtitleTranslator.Library.Log

namespace SubtitleTranslator.Engine
open Library

namespace Throttle

/-- A wait is granted from the end of the pause and the next slot on. -/
theorem wait_granted_iff (throttle : Throttle) (now : ℚ) :
    (throttle.wait now).2 = .granted ↔ throttle.blockedUntil ≤ now ∧ throttle.nextSlot ≤ now := by
  rw [← max_le_iff, wait]
  split
  · next open_ => simp [open_]
  · next closed => simp [closed]

theorem wait_of_granted {throttle : Throttle} {now : ℚ}
    (slot : throttle.nextSlot ≤ now) (pause : throttle.blockedUntil ≤ now) :
    throttle.wait now = ({ throttle with nextSlot := now + throttle.interval }, .granted) := by
  rw [wait, if_pos (max_le pause slot), max_eq_left slot]

theorem wait_of_delayed {throttle : Throttle} {now delay : ℚ}
    (delayed : (throttle.wait now).2 = .delayed delay) : (throttle.wait now).1 = throttle := by
  unfold wait at delayed ⊢
  dsimp only at delayed ⊢
  split
  · next open_ =>
      rw [if_pos open_] at delayed
      cases delayed
  · rfl

/-- A penalty lasts at least as long as asked, and it never ends a pause earlier. -/
theorem penalise_spec (throttle : Throttle) (now seconds : ℚ) :
    (throttle.penalise now seconds).1 =
        { throttle with blockedUntil := now + (throttle.penalise now seconds).2 } ∧
      seconds ≤ (throttle.penalise now seconds).2 ∧
        throttle.blockedUntil ≤ now + (throttle.penalise now seconds).2 := by
  have longer := le_max_left throttle.blockedUntil (now + seconds)
  have asked := le_max_right throttle.blockedUntil (now + seconds)
  refine ⟨?_, ?_, ?_⟩
  · simp [penalise]
  · show seconds ≤ max throttle.blockedUntil (now + seconds) - now
    linarith
  · show throttle.blockedUntil ≤ now + (max throttle.blockedUntil (now + seconds) - now)
    linarith

end Throttle

/-- An entry keeps its distance from the older grants and respects the older penalties. -/
def SafeEntry (interval : ℚ) : ThrottleEntry → List ThrottleEntry → Prop
  | .granted now, older =>
      (∀ earlier, .granted earlier ∈ older → earlier + interval ≤ now) ∧
        ∀ time seconds returned, .penalised time seconds returned ∈ older → time + seconds ≤ now
  | .penalised now seconds returned, older =>
      seconds ≤ returned ∧
        ∀ time asked pause, .penalised time asked pause ∈ older → time + pause ≤ now + returned

namespace ThrottleState

/-- The throttle knows the end of every pause and the first time after the latest grant. -/
structure SafetyInvariant (interval : ℚ) (s : ThrottleState) : Prop where
  pace : s.throttle.interval = interval
  nonneg : 0 ≤ interval
  granted : ∀ now, .granted now ∈ s.log → now + interval ≤ s.throttle.nextSlot
  penalised : ∀ now seconds returned, .penalised now seconds returned ∈ s.log →
    seconds ≤ returned ∧ now + returned ≤ s.throttle.blockedUntil
  safe : Log.Justified (SafeEntry interval) s.log

theorem initial_safety (rpm clock : ℚ) :
    (initial rpm clock).SafetyInvariant (if 0 < rpm then 60 / rpm else 0) := by
  refine ⟨rfl, ?_, fun _ member => ?_, fun _ _ _ member => ?_, trivial⟩
  · split
    · positivity
    · rfl
  · cases member
  · cases member

/-- The throttle and the log do not see where a worker is. -/
theorem SafetyInvariant.of_same {interval : ℚ} {s next : ThrottleState}
    (before : s.SafetyInvariant interval) (throttle : next.throttle = s.throttle)
    (log : next.log = s.log) : next.SafetyInvariant interval := by
  obtain ⟨pace, nonneg, granted, penalised, safe⟩ := before
  rw [← throttle] at pace
  rw [← log] at safe
  refine ⟨pace, nonneg, ?_, ?_, safe⟩
  · rw [throttle, log]
    exact granted
  · rw [throttle, log]
    exact penalised

theorem SafetyInvariant.look {interval : ℚ} {s : ThrottleState}
    (before : s.SafetyInvariant interval) (cancelable : Bool) (worker : Nat) (now : ℚ) :
    (s.look cancelable worker now).SafetyInvariant interval := by
  unfold ThrottleState.look
  cases answer : s.throttle.wait now with
  | mk throttle result =>
      cases result with
      | delayed delay =>
          have same : throttle = s.throttle := by
            have kept := Throttle.wait_of_delayed (congrArg Prod.snd answer)
            rwa [answer] at kept
          exact before.of_same same rfl
      | granted =>
          obtain ⟨pause, slot⟩ := (s.throttle.wait_granted_iff now).mp (congrArg Prod.snd answer)
          rw [Throttle.wait_of_granted slot pause] at answer
          obtain rfl := congrArg Prod.fst answer
          obtain ⟨pace, nonneg, granted, penalised, safe⟩ := before
          subst pace
          refine ⟨rfl, nonneg, ?_, ?_, ⟨?_, ?_⟩, safe⟩
          · intro time member
            show time + s.throttle.interval ≤ now + s.throttle.interval
            cases member with
            | head => exact le_rfl
            | tail _ older =>
                have spaced := granted time older
                linarith
          · intro time seconds returned member
            cases member with
            | tail _ older => exact penalised time seconds returned older
          · intro earlier older
            exact (granted earlier older).trans slot
          · intro time seconds returned older
            obtain ⟨enough, ends⟩ := penalised time seconds returned older
            linarith

theorem SafetyInvariant.penalise {interval : ℚ} {s : ThrottleState}
    (before : s.SafetyInvariant interval) (now seconds : ℚ) :
    (s.penalise now seconds).SafetyInvariant interval := by
  obtain ⟨pause, enough, longer⟩ := s.throttle.penalise_spec now seconds
  obtain ⟨pace, nonneg, granted, penalised, safe⟩ := before
  refine ⟨pace, nonneg, ?_, ?_, ⟨enough, ?_⟩, safe⟩
  · intro time member
    cases member with
    | tail _ older => exact granted time older
  · intro time asked returned member
    show asked ≤ returned ∧ time + returned ≤ (s.throttle.penalise now seconds).1.blockedUntil
    rw [pause]
    cases member with
    | head => exact ⟨enough, le_rfl⟩
    | tail _ older =>
        obtain ⟨least, ends⟩ := penalised time asked returned older
        exact ⟨least, ends.trans longer⟩
  · intro time asked returned older
    exact (penalised time asked returned older).2.trans longer

theorem SafetyInvariant.step {interval : ℚ} {cancelable : Bool} {s next : ThrottleState}
    {event : ThrottleEvent} (before : s.SafetyInvariant interval)
    (stepped : s.step cancelable event = some next) : next.SafetyInvariant interval := by
  cases event with
  | call worker =>
      obtain ⟨_, ⟨⟩⟩ := Option.ite_none_right_eq_some.mp stepped
      exact before.of_same rfl rfl
  | cancel worker =>
      obtain ⟨_, ⟨⟩⟩ := Option.ite_none_right_eq_some.mp stepped
      exact before.of_same rfl rfl
  | look worker now =>
      obtain ⟨_, ⟨⟩⟩ := Option.ite_none_right_eq_some.mp stepped
      exact before.look cancelable worker now
  | wake worker now =>
      unfold ThrottleState.step at stepped
      dsimp only at stepped
      split at stepped
      · obtain ⟨_, ⟨⟩⟩ := Option.ite_none_right_eq_some.mp stepped
        exact before.of_same rfl rfl
      · cases stepped
      · cases stepped
  | penalise worker now seconds =>
      obtain ⟨_, ⟨⟩⟩ := Option.ite_none_right_eq_some.mp stepped
      exact before.penalise now seconds

/-- Grants are spaced, no grant lies in a pause, and no penalty shortens a pause. -/
theorem throttle_safe {rpm clock : ℚ} {cancelable : Bool} {events : List ThrottleEvent}
    {s : ThrottleState}
    (ran : Machine.run (ThrottleState.step cancelable) (initial rpm clock) events = some s)
    {newer older : List ThrottleEntry} {entry : ThrottleEntry}
    (log : s.log = newer ++ entry :: older) :
    match entry with
    | .granted now =>
        (0 < rpm → ∀ earlier, .granted earlier ∈ older → 60 / rpm ≤ now - earlier) ∧
          ∀ time seconds returned, .penalised time seconds returned ∈ older → time + seconds ≤ now
    | .penalised now seconds returned =>
        seconds ≤ returned ∧
          ∀ time asked pause, .penalised time asked pause ∈ older → time + pause ≤ now + returned := by
  have invariant := Machine.run_invariant (SafetyInvariant (if 0 < rpm then 60 / rpm else 0))
    (fun _ _ _ before stepped => before.step stepped) (initial_safety rpm clock) ran
  have safe := invariant.safe
  rw [log] at safe
  have fits := safe.split
  cases entry with
  | granted now =>
      obtain ⟨spaced, respected⟩ := fits
      refine ⟨fun positive earlier member => ?_, respected⟩
      have apart := spaced earlier member
      rw [if_pos positive] at apart
      linarith
  | penalised now seconds returned => exact fits

/-- A worker gets a slot, and another one parks all workers and gets its own slot later. -/
def parkedRun : List ThrottleEvent :=
  [.call 0, .look 0 1, .call 1, .look 1 (3 / 2), .penalise 0 (3 / 2) 10, .wake 1 (7 / 4),
    .look 1 (7 / 4), .wake 1 20, .look 1 20]

theorem throttle_safe_example :
    (0 < (60 : ℚ) → ∀ earlier, .granted earlier ∈
        [ThrottleEntry.penalised (3 / 2) 10 10, .granted 1] → 60 / 60 ≤ 20 - earlier) ∧
      ∀ time seconds returned, .penalised time seconds returned ∈
        [ThrottleEntry.penalised (3 / 2) 10 10, .granted 1] → time + seconds ≤ 20 := by
  have logged : (Machine.run (ThrottleState.step true) (initial 60 0) parkedRun).map (·.log) =
      some [.granted 20, .penalised (3 / 2) 10 10, .granted 1] := by decide +kernel
  obtain ⟨s, ran, log⟩ := Option.map_eq_some_iff.mp logged
  exact @throttle_safe _ _ _ _ _ ran [] _ _ log

end ThrottleState

end SubtitleTranslator.Engine
