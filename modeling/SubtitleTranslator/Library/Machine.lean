import Mathlib.Tactic

namespace Library

/-- A machine answers an event with its next state or refuses the event. -/
abbrev Machine (State Event : Type) := State → Event → Option State

namespace Machine
variable {State Event : Type} (step : Machine State Event)

/-- A run is accepted when the machine accepts its events one after the other. -/
def run : State → List Event → Option State
  | s, [] => some s
  | s, event :: rest => (step s event).bind fun next => run next rest

/-- Each step of the run meets a condition on its event and the state before it. -/
def Meets (condition : State → Event → Prop) : State → List Event → Prop
  | _, [] => True
  | s, event :: rest =>
      condition s event ∧ ∀ next, step s event = some next → Meets condition next rest

theorem run_nil (s : State) : run step s [] = some s := rfl

theorem run_cons {s last : State} {event : Event} {rest : List Event} :
    run step s (event :: rest) = some last ↔
      ∃ next, step s event = some next ∧ run step next rest = some last :=
  Option.bind_eq_some_iff

/-- A run over two event lists passes through the state between them. -/
theorem run_append {s last : State} {first second : List Event} :
    run step s (first ++ second) = some last ↔
      ∃ middle, run step s first = some middle ∧ run step middle second = some last := by
  induction first generalizing s with
  | nil => simp [run]
  | cons event rest ih =>
      simp only [List.cons_append, run_cons, ih]
      constructor
      · rintro ⟨next, stepped, middle, before, after⟩
        exact ⟨middle, ⟨next, stepped, before⟩, after⟩
      · rintro ⟨middle, ⟨next, stepped, before⟩, after⟩
        exact ⟨next, stepped, middle, before, after⟩

variable {step}

/-- An invariant that every step meeting the condition keeps holds after every such run. -/
theorem run_invariant_of_meets {condition : State → Event → Prop} (Invariant : State → Prop)
    (kept : ∀ s event next, Invariant s → condition s event → step s event = some next →
      Invariant next)
    {s last : State} {events : List Event} (start : Invariant s)
    (meets : Meets step condition s events) (ran : run step s events = some last) :
    Invariant last := by
  induction events generalizing s with
  | nil =>
      cases ran
      exact start
  | cons event rest ih =>
      obtain ⟨next, stepped, later⟩ := (run_cons step).mp ran
      exact ih (kept s event next start meets.1 stepped) (meets.2 next stepped) later

/-- The trivial condition holds of every run. -/
theorem meets_trivial (s : State) (events : List Event) :
    Meets step (fun _ _ => True) s events := by
  induction events generalizing s with
  | nil => trivial
  | cons event rest ih => exact ⟨trivial, fun next _ => ih next⟩

/-- An invariant that every step keeps holds after every run. -/
theorem run_invariant (Invariant : State → Prop)
    (kept : ∀ s event next, Invariant s → step s event = some next → Invariant next)
    {s last : State} {events : List Event} (start : Invariant s)
    (ran : run step s events = some last) : Invariant last :=
  run_invariant_of_meets Invariant (fun s event next holds _ => kept s event next holds) start
    (meets_trivial s events) ran

/-- A run whose events satisfy the condition in every state meets it. -/
theorem meets_of_forall {condition : State → Event → Prop} {events : List Event} (s : State)
    (all : ∀ event ∈ events, ∀ s, condition s event) : Meets step condition s events := by
  induction events generalizing s with
  | nil => trivial
  | cons event rest ih =>
      exact ⟨all event List.mem_cons_self s,
        fun next _ => ih next fun other member => all other (List.mem_cons_of_mem _ member)⟩

/-- A run that goes on from where another one ends meets a condition when both parts do. -/
theorem meets_append {condition : State → Event → Prop} {first second : List Event} {s : State}
    (met : Meets step condition s first)
    (later : ∀ middle, run step s first = some middle → Meets step condition middle second) :
    Meets step condition s (first ++ second) := by
  induction first generalizing s with
  | nil => exact later s rfl
  | cons event rest ih =>
      exact ⟨met.1, fun next stepped => ih (met.2 next stepped) fun middle ran =>
        later middle ((run_cons _).mpr ⟨next, stepped, ran⟩)⟩

/-- This machine refuses the events that do not meet the condition. -/
def restrict (step : Machine State Event) (condition : State → Event → Bool) :
    Machine State Event :=
  fun s event => if condition s event then step s event else none

/-- A run of the restricted machine is a run whose steps meet the condition. -/
theorem run_restrict {condition : State → Event → Bool} {s last : State} {events : List Event}
    (ran : run (restrict step condition) s events = some last) :
    run step s events = some last ∧ Meets step (fun s event => condition s event = true) s events := by
  induction events generalizing s with
  | nil => exact ⟨ran, trivial⟩
  | cons event rest ih =>
      obtain ⟨next, stepped, later⟩ := (run_cons _).mp ran
      have allowed : condition s event = true := by
        by_contra refused
        rw [restrict, if_neg refused] at stepped
        cases stepped
      rw [restrict, if_pos allowed] at stepped
      obtain ⟨ranLater, met⟩ := ih later
      refine ⟨(run_cons step).mpr ⟨next, stepped, ranLater⟩, allowed, fun other same => ?_⟩
      cases stepped.symm.trans same
      exact met

/-- A run meets every condition that the condition met implies. -/
theorem Meets.imp {first second : State → Event → Prop} {s : State} {events : List Event}
    (implied : ∀ s event, first s event → second s event) (met : Meets step first s events) :
    Meets step second s events := by
  induction events generalizing s with
  | nil => trivial
  | cons event rest ih =>
      exact ⟨implied s event met.1, fun next stepped => ih (met.2 next stepped)⟩

/-- A machine whose steps another machine follows is followed over whole runs; an event without a
counterpart leaves the other machine where it is. -/
theorem run_simulates {State' Event' : Type} {other : Machine State' Event'}
    {condition : State → Event → Prop} (translate : Event → Option Event')
    (Related : State → State' → Prop)
    (kept : ∀ s t event next, Related s t → condition s event → step s event = some next →
      ∃ after, run other t (translate event).toList = some after ∧ Related next after)
    {s last : State} {t : State'} {events : List Event} (start : Related s t)
    (met : Meets step condition s events) (ran : run step s events = some last) :
    ∃ after, run other t (events.filterMap translate) = some after ∧ Related last after := by
  induction events generalizing s t with
  | nil =>
      cases ran
      exact ⟨t, rfl, start⟩
  | cons event rest ih =>
      obtain ⟨next, stepped, later⟩ := (run_cons _).mp ran
      obtain ⟨middle, followed, related⟩ := kept s t event next start met.1 stepped
      obtain ⟨after, finished, holds⟩ := ih related (met.2 next stepped) later
      refine ⟨after, ?_, holds⟩
      have split : (event :: rest).filterMap translate =
          (translate event).toList ++ rest.filterMap translate := by
        rw [List.filterMap_cons]
        cases translate event <;> rfl
      rw [split]
      exact (run_append _).mpr ⟨middle, followed, finished⟩

/-- A fact about the events so far and the state that they lead to holds at the end of a run. -/
theorem run_induction {motive : List Event → State → Prop} {s : State} (nil : motive [] s)
    (concat : ∀ events middle event next, run step s events = some middle → motive events middle →
      step middle event = some next → motive (events ++ [event]) next)
    {events : List Event} {last : State} (ran : run step s events = some last) :
    motive events last := by
  induction events using List.reverseRecOn generalizing last with
  | nil =>
      cases ran
      exact nil
  | append_singleton events event ih =>
      obtain ⟨middle, before, after⟩ := (run_append step).mp ran
      obtain ⟨next, stepped, ends⟩ := (run_cons step).mp after
      cases ends
      exact concat events middle event _ before (ih before) stepped

variable (step) in
/-- A run goes through a state. -/
def Passes (s : State) (events : List Event) (middle : State) : Prop :=
  ∃ front back, events = front ++ back ∧ run step s front = some middle

theorem passes_end {s last : State} {events : List Event} (ran : run step s events = some last) :
    Passes step s events last :=
  ⟨events, [], (List.append_nil events).symm, ran⟩

theorem Passes.append {s middle : State} {events : List Event}
    (passes : Passes step s events middle) (more : List Event) :
    Passes step s (events ++ more) middle := by
  obtain ⟨front, back, rfl, ran⟩ := passes
  exact ⟨front, back ++ more, List.append_assoc .., ran⟩

end Machine

end Library
