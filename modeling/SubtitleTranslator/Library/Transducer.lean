import Mathlib.Tactic

namespace Library

/-- A transducer answers each input and moves to its next state. -/
abbrev Transducer (State Input Output : Type) := State → Input → State × Output

namespace Transducer
variable {State Other Input Output : Type}

/-- The answers of a run come in the order of its inputs. -/
def run (step : Transducer State Input Output) : State → List Input → State × List Output
  | s, [] => (s, [])
  | s, input :: rest =>
      let (next, answer) := step s input
      let (last, answers) := run step next rest
      (last, answer :: answers)

/-- Two transducers give the same answers when a relation of their states, which may depend on
the inputs to come, gives the same answer and is kept. -/
theorem run_simulates {first : Transducer State Input Output}
    {second : Transducer Other Input Output} {Related : List Input → State → Other → Prop}
    (kept : ∀ input rest s t, Related (input :: rest) s t →
      (first s input).2 = (second t input).2 ∧
        Related rest (first s input).1 (second t input).1)
    {inputs later : List Input} {s : State} {t : Other} (related : Related (inputs ++ later) s t) :
    (run first s inputs).2 = (run second t inputs).2 ∧
      Related later (run first s inputs).1 (run second t inputs).1 := by
  induction inputs generalizing s t with
  | nil => exact ⟨rfl, related⟩
  | cons input rest ih =>
      obtain ⟨answer, next⟩ := kept input (rest ++ later) s t related
      obtain ⟨answers, last⟩ := ih next
      exact ⟨congrArg₂ List.cons answer answers, last⟩

end Transducer

end Library
