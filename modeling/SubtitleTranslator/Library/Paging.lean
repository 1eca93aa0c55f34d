import Mathlib.Tactic

namespace Library

variable {α : Type}

/-- A reader takes the pages of a list one after the other; between two pages the list only
grows. -/
inductive Paged (limit : Nat) (first : List α) : List α → Nat → List α → Prop where
  | start : Paged limit first first 0 []
  | page {items later shown : List α} {offset : Nat} (before : Paged limit first items offset shown)
      (grown : List.Sublist items later) :
      Paged limit first later (offset + limit) (shown ++ (later.drop offset).take limit)

/-- What a growing list adds moves no item to the front. -/
theorem mem_take_of_sublist {items later : List α} {x : α} (grown : List.Sublist items later)
    (distinct : later.Nodup) (member : x ∈ items) {n : Nat} (early : x ∈ later.take n) :
    x ∈ items.take n := by
  induction grown generalizing n with
  | slnil => cases member
  | cons new grown ih =>
      cases n with
      | zero => cases early
      | succ n =>
          rw [List.take_succ_cons] at early
          rcases List.mem_cons.mp early with rfl | early
          · exact absurd (grown.subset member) (List.nodup_cons.mp distinct).1
          · have front := ih (List.nodup_cons.mp distinct).2 member early
            exact List.take_subset_take_left _ (Nat.le_succ n) front
  | cons_cons old grown ih =>
      cases n with
      | zero => cases early
      | succ n =>
          rw [List.take_succ_cons] at early ⊢
          rcases List.mem_cons.mp early with rfl | early
          · exact List.mem_cons_self
          · rcases List.mem_cons.mp member with rfl | member
            · exact List.mem_cons_self
            · exact List.mem_cons_of_mem _ (ih (List.nodup_cons.mp distinct).2 member early)

namespace Paged
variable {limit offset : Nat} {first items shown : List α}

theorem sublist (paged : Paged limit first items offset shown) : List.Sublist first items := by
  induction paged with
  | start => exact List.Sublist.refl _
  | page _ grown ih => exact ih.trans grown

/-- The pages so far show the first items that were there from the start. -/
theorem mem_shown (paged : Paged limit first items offset shown) (distinct : items.Nodup) {x : α}
    (member : x ∈ first) (early : x ∈ items.take offset) : x ∈ shown := by
  induction paged with
  | start =>
      rw [List.take_zero] at early
      cases early
  | @page items later shown offset before grown ih =>
      rw [List.take_add] at early
      rw [List.mem_append]
      refine (List.mem_append.mp early).imp_left fun early => ?_
      exact ih (distinct.sublist grown)
        (mem_take_of_sublist grown distinct (before.sublist.subset member) early)

/-- A reader who has come to the end has seen every item that was there from the start. -/
theorem complete (paged : Paged limit first items offset shown) (distinct : items.Nodup)
    (ends : items.length ≤ offset) {x : α} (member : x ∈ first) : x ∈ shown := by
  apply paged.mem_shown distinct member
  rw [List.take_of_length_le ends]
  exact paged.sublist.subset member

/-- A reader of a list that stays the same sees its items once and in their order. -/
theorem exact (paged : Paged limit first items offset shown)
    (same : items.length = first.length) : shown = first.take offset := by
  induction paged with
  | start => exact List.take_zero.symm
  | @page items later shown offset before grown ih =>
      have short := before.sublist.length_le
      have long := grown.length_le
      obtain rfl := before.sublist.eq_of_length (by omega)
      obtain rfl := grown.eq_of_length same.symm
      rw [ih rfl, List.take_add]

end Paged

end Library
