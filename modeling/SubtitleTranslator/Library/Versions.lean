import Mathlib.Tactic

namespace Library.Versions
variable {α : Type} {mark next : Nat → Option α} {latest : Nat}

/-- The versions up to the latest one that carry the same mark have no other version between them. -/
def Consecutive (mark : Nat → Option α) (latest : Nat) : Prop :=
  ∀ a first middle last, first ≤ middle → middle ≤ last → last ≤ latest →
    mark first = some a → mark last = some a → mark middle = some a

/-- A history of one version is consecutive. -/
theorem consecutive_zero (mark : Nat → Option α) : Consecutive mark 0 := by
  intro a first middle last before after bound marked _
  have same : middle = first := by omega
  rw [same, marked]

/-- A version that keeps the mark, drops it or takes one that was never used keeps the marks
consecutive. -/
theorem Consecutive.extend (consecutive : Consecutive mark latest)
    (same : ∀ version ≤ latest, next version = mark version)
    (moved : next (latest + 1) = mark latest ∨
      ∀ version ≤ latest, ∀ a, next (latest + 1) = some a → mark version ≠ some a) :
    Consecutive next (latest + 1) := by
  intro a first middle last before after bound marked markedLast
  by_cases inside : last ≤ latest
  · rw [same middle (by omega)]
    rw [same first (by omega)] at marked
    rw [same last inside] at markedLast
    exact consecutive a first middle last before after inside marked markedLast
  · obtain rfl : last = latest + 1 := by omega
    by_cases old : middle = latest + 1
    · rw [old, markedLast]
    · rw [same first (by omega)] at marked
      rw [same middle (by omega)]
      rcases moved with kept | fresh
      · rw [kept] at markedLast
        exact consecutive a first middle latest before (by omega) le_rfl marked markedLast
      · exact absurd marked (fresh first (by omega) a markedLast)

/-- The mark of a version changed, or there is none. -/
def Moved (mark : Nat → Option α) (version : Nat) : Prop :=
  mark version = none ∨ mark version ≠ mark (version - 1)

/-- A version between two that carry one mark did not move it. -/
theorem Consecutive.not_moved (consecutive : Consecutive mark latest) {a : α}
    {first version last : Nat} (after : first < version) (before : version ≤ last)
    (bound : last ≤ latest) (marked : mark first = some a) (markedLast : mark last = some a) :
    ¬Moved mark version := by
  have here : mark version = some a :=
    consecutive a first version last after.le before bound marked markedLast
  have earlier : mark (version - 1) = some a :=
    consecutive a first (version - 1) last (by omega) (by omega) bound marked markedLast
  intro moved
  rcases moved with missing | changed
  · rw [here] at missing
    cases missing
  · exact changed (here.trans earlier.symm)

/-- Data taken under a mark is at least as new as every move of the mark that is not after a
version that carries it. -/
theorem Consecutive.le_of_moved (consecutive : Consecutive mark latest) {a : α}
    {first taken version last : Nat} (before : first ≤ taken) (observed : version ≤ last)
    (bound : last ≤ latest) (marked : mark first = some a) (markedLast : mark last = some a)
    (moved : Moved mark version) : version ≤ taken := by
  by_contra later
  exact consecutive.not_moved (by omega) observed bound marked markedLast moved

end Library.Versions
