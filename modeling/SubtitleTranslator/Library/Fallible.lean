import Mathlib.Tactic

namespace Library.Fallible
variable {ε α β : Type}

/-- A sequence that succeeds passes through the value of its first part. -/
theorem bind_ok {first : Except ε α} {next : α → Except ε β} {value : β} :
    (first >>= next) = .ok value ↔ ∃ middle, first = .ok middle ∧ next middle = .ok value := by
  cases first with
  | error failure => exact ⟨nofun, nofun⟩
  | ok middle => exact ⟨fun done => ⟨middle, rfl, done⟩, fun ⟨_, same, done⟩ => by cases same; exact done⟩

/-- A map of a sequence is a map of its last part. -/
theorem map_bind {γ : Type} (first : Except ε α) (next : α → Except ε β) (f : β → γ) :
    (first >>= next).map f = first >>= fun value => (next value).map f := by
  cases first <;> rfl

theorem mapError_ok {ε' : Type} {f : ε → ε'} {x : Except ε α} {value : α} :
    x.mapError f = .ok value ↔ x = .ok value := by
  cases x with
  | error e => exact iff_of_false nofun nofun
  | ok y => exact ⟨fun same => by cases same; rfl, fun same => by cases same; rfl⟩

/-- A map over a list succeeds when every element does, one result for each element. -/
theorem mapM_ok {f : α → Except ε β} {xs : List α} {ys : List β} :
    xs.mapM f = .ok ys ↔ List.Forall₂ (fun x y => f x = .ok y) xs ys := by
  induction xs generalizing ys with
  | nil =>
      rw [List.mapM_nil, List.forall₂_nil_left_iff]
      exact ⟨fun done => by cases done; rfl, fun same => by rw [same]; rfl⟩
  | cons x xs ih =>
      rw [List.mapM_cons, bind_ok, List.forall₂_cons_left_iff]
      constructor
      · rintro ⟨y, first, done⟩
        obtain ⟨rest, others, same⟩ := bind_ok.mp done
        cases same
        exact ⟨y, rest, first, ih.mp others, rfl⟩
      · rintro ⟨y, rest, first, others, rfl⟩
        exact ⟨y, first, bind_ok.mpr ⟨rest, ih.mpr others, rfl⟩⟩

/-- A map over a list fails as one of the elements does. -/
theorem mapM_error {f : α → Except ε β} {xs : List α} {failure : ε}
    (failed : xs.mapM f = .error failure) : ∃ x ∈ xs, f x = .error failure := by
  induction xs with
  | nil => cases failed
  | cons x xs ih =>
      rw [List.mapM_cons] at failed
      cases first : f x with
      | error earlier =>
          rw [first] at failed
          cases failed
          exact ⟨x, List.mem_cons_self, first⟩
      | ok y =>
          rw [first] at failed
          cases others : xs.mapM f with
          | error later =>
              obtain ⟨other, member, same⟩ := ih (by
                rw [others] at failed ⊢
                cases failed
                rfl)
              exact ⟨other, List.mem_cons_of_mem _ member, same⟩
          | ok ys =>
              rw [others] at failed
              cases failed

/-- A map over a list succeeds when each element has a result. -/
theorem exists_mapM {f : α → Except ε β} {related : α → β → Prop} {xs : List α}
    (each : ∀ x ∈ xs, ∃ y, f x = .ok y ∧ related x y) :
    ∃ ys, xs.mapM f = .ok ys ∧ List.Forall₂ related xs ys := by
  induction xs with
  | nil => exact ⟨[], rfl, .nil⟩
  | cons x xs ih =>
      rw [List.forall_mem_cons] at each
      obtain ⟨y, first, holds⟩ := each.1
      obtain ⟨ys, others, all⟩ := ih each.2
      refine ⟨y :: ys, ?_, .cons holds all⟩
      rw [List.mapM_cons, first, others]
      rfl

theorem exists_of_forall₂ {related : α → β → Prop} {xs : List α} {ys : List β}
    (all : List.Forall₂ related xs ys) {x : α} (member : x ∈ xs) : ∃ y ∈ ys, related x y := by
  induction all with
  | nil => cases member
  | cons first _ ih =>
      rcases List.mem_cons.mp member with rfl | later
      · exact ⟨_, List.mem_cons_self, first⟩
      · obtain ⟨y, inYs, holds⟩ := ih later
        exact ⟨y, List.mem_cons_of_mem _ inYs, holds⟩

theorem forall_of_forall₂ {related : α → β → Prop} {xs : List α} {ys : List β}
    (all : List.Forall₂ related xs ys) {y : β} (member : y ∈ ys) : ∃ x ∈ xs, related x y :=
  exists_of_forall₂ all.flip member

/-- The results of a map have a property when each element succeeds with it. -/
theorem exists_mapM_iff {f : α → Except ε β} {property : β → Prop} {xs : List α} :
    (∃ ys, xs.mapM f = .ok ys ∧ ∀ y ∈ ys, property y) ↔
      ∀ x ∈ xs, ∃ y, f x = .ok y ∧ property y := by
  constructor
  · rintro ⟨ys, mapped, all⟩ x member
    obtain ⟨y, inYs, result⟩ := exists_of_forall₂ (mapM_ok.mp mapped) member
    exact ⟨y, result, all y inYs⟩
  · intro each
    obtain ⟨ys, mapped, all⟩ := exists_mapM each
    refine ⟨ys, mapped, fun y member => ?_⟩
    obtain ⟨_, _, holds⟩ := forall_of_forall₂ all member
    exact holds

/-- A map over a list whose elements succeed under a condition is a plain map under all of them. -/
theorem mapM_eq_map {f : α → Except ε β} {condition : α → Prop} {g : α → β}
    (each : ∀ x y, f x = .ok y ↔ condition x ∧ y = g x) {xs : List α} {ys : List β} :
    xs.mapM f = .ok ys ↔ (∀ x ∈ xs, condition x) ∧ ys = xs.map g := by
  rw [mapM_ok]
  induction xs generalizing ys with
  | nil => simp
  | cons x xs ih =>
      rw [List.forall₂_cons_left_iff, List.forall_mem_cons, List.map_cons]
      constructor
      · rintro ⟨y, rest, first, others, rfl⟩
        obtain ⟨holds, rfl⟩ := (each x y).mp first
        obtain ⟨all, rfl⟩ := ih.mp others
        exact ⟨⟨holds, all⟩, rfl⟩
      · rintro ⟨⟨holds, all⟩, rfl⟩
        exact ⟨g x, xs.map g, (each x _).mpr ⟨holds, rfl⟩, ih.mpr ⟨all, rfl⟩, rfl⟩

/-- A fold whose steps succeed under a condition on the element is a plain fold under all of them. -/
theorem foldlM_eq_foldl {State : Type} {f : State → α → Except ε State} {condition : α → Prop}
    {g : State → α → State}
    (each : ∀ s x next, f s x = .ok next ↔ condition x ∧ next = g s x) {xs : List α}
    {s last : State} :
    xs.foldlM f s = .ok last ↔ (∀ x ∈ xs, condition x) ∧ last = xs.foldl g s := by
  induction xs generalizing s with
  | nil =>
      constructor
      · intro same
        cases same
        exact ⟨List.forall_mem_nil _, rfl⟩
      · rintro ⟨_, rfl⟩
        rfl
  | cons x xs ih =>
      rw [List.foldlM_cons, bind_ok, List.forall_mem_cons, List.foldl_cons]
      constructor
      · rintro ⟨next, stepped, later⟩
        obtain ⟨holds, rfl⟩ := (each s x next).mp stepped
        obtain ⟨all, rfl⟩ := ih.mp later
        exact ⟨⟨holds, all⟩, rfl⟩
      · rintro ⟨⟨holds, all⟩, rfl⟩
        exact ⟨g s x, (each s x _).mpr ⟨holds, rfl⟩, ih.mpr ⟨all, rfl⟩⟩

/-- A property that each step of a fold keeps holds of its result. -/
theorem foldlM_invariant {State : Type} {f : State → α → Except ε State} (Invariant : State → Prop)
    {xs : List α} (kept : ∀ s x next, Invariant s → x ∈ xs → f s x = .ok next → Invariant next)
    {s last : State} (start : Invariant s) (ran : xs.foldlM f s = .ok last) : Invariant last := by
  induction xs generalizing s with
  | nil =>
      cases ran
      exact start
  | cons x xs ih =>
      rw [List.foldlM_cons, bind_ok] at ran
      obtain ⟨next, stepped, later⟩ := ran
      exact ih (fun s y next holds member => kept s y next holds (List.mem_cons_of_mem _ member))
        (kept s x next start List.mem_cons_self stepped) later

/-- The last step of a fold follows the fold over the rest. -/
theorem foldlM_concat {State : Type} {f : State → α → Except ε State} {xs : List α} {x : α}
    {s last : State} :
    (xs ++ [x]).foldlM f s = .ok last ↔
      ∃ middle, xs.foldlM f s = .ok middle ∧ f middle x = .ok last := by
  rw [List.foldlM_append, bind_ok]
  refine exists_congr fun middle => and_congr_right fun _ => ?_
  rw [List.foldlM_cons, bind_ok]
  constructor
  · rintro ⟨next, stepped, same⟩
    cases same
    exact stepped
  · exact fun stepped => ⟨last, stepped, rfl⟩

/-- A fold whose steps fail under a condition on the element alone fails when one element does. -/
theorem foldlM_cases {State : Type} {f : State → α → Except ε State} {condition : α → Prop}
    {failure : ε} (each : ∀ s x,
      (condition x ∧ ∃ next, f s x = .ok next) ∨ (¬condition x ∧ f s x = .error failure))
    (s : State) (xs : List α) :
    ((∀ x ∈ xs, condition x) ∧ ∃ last, xs.foldlM f s = .ok last) ∨
      ((¬∀ x ∈ xs, condition x) ∧ xs.foldlM f s = .error failure) := by
  induction xs generalizing s with
  | nil => exact .inl ⟨List.forall_mem_nil _, s, rfl⟩
  | cons x xs ih =>
      rw [List.forall_mem_cons, List.foldlM_cons]
      rcases each s x with ⟨holds, next, stepped⟩ | ⟨fails, stopped⟩
      · rw [stepped]
        rcases ih next with ⟨all, ran⟩ | ⟨some_, stopped⟩
        · exact .inl ⟨⟨holds, all⟩, ran⟩
        · exact .inr ⟨fun all => some_ all.2, stopped⟩
      · rw [stopped]
        exact .inr ⟨fun all => fails all.1, rfl⟩

/-- A map whose elements fail under a condition fails when one element does. -/
theorem mapM_cases {f : α → Except ε β} {condition : α → Prop} {failure : ε}
    (each : ∀ x, (condition x ∧ ∃ y, f x = .ok y) ∨ (¬condition x ∧ f x = .error failure))
    (xs : List α) :
    ((∀ x ∈ xs, condition x) ∧ ∃ ys, xs.mapM f = .ok ys) ∨
      ((¬∀ x ∈ xs, condition x) ∧ xs.mapM f = .error failure) := by
  induction xs with
  | nil => exact .inl ⟨List.forall_mem_nil _, [], rfl⟩
  | cons x xs ih =>
      rw [List.forall_mem_cons, List.mapM_cons]
      rcases each x with ⟨holds, y, first⟩ | ⟨fails, stopped⟩
      · rw [first]
        rcases ih with ⟨all, ys, others⟩ | ⟨some_, stopped⟩
        · rw [others]
          exact .inl ⟨⟨holds, all⟩, y :: ys, rfl⟩
        · rw [stopped]
          exact .inr ⟨fun all => some_ all.2, rfl⟩
      · rw [stopped]
        exact .inr ⟨fun all => fails all.1, rfl⟩

end Library.Fallible
