import Mathlib.Tactic

namespace Library.Packing
variable {α : Type} (width : α → Nat)

/-- The width of a row of items with gaps of one between them. -/
def span (row : List α) : Nat := (row.map width).sum + (row.length - 1)

/-- A row of several items is within the limit; one item may be as wide as it is. -/
def Fits (limit : Nat) (row : List α) : Prop := 2 ≤ row.length → span width row ≤ limit

/-- The finished rows and the current one. -/
structure Rows (α : Type) where
  finished : List (List α)
  current : List α

/-- An item starts a new row when the current one has no room for it. -/
def place (limit : Nat) (rows : Rows α) (item : α) : Rows α :=
  if rows.current ≠ [] ∧ limit < span width rows.current + 1 + width item then
    ⟨rows.finished ++ [rows.current], [item]⟩
  else { rows with current := rows.current ++ [item] }

/-- All rows; an empty current row is none. -/
def Rows.all (rows : Rows α) : List (List α) :=
  if rows.current ≠ [] then rows.finished ++ [rows.current] else rows.finished

/-- The rows that greedy placing makes of the items. -/
def pack (limit : Nat) (items : List α) : List (List α) :=
  (items.foldl (place width limit) ⟨[], []⟩).all

theorem span_singleton (item : α) : span width [item] = width item := by
  simp [span]

theorem span_cons (item : α) {row : List α} (nonempty : row ≠ []) :
    span width (item :: row) = width item + 1 + span width row := by
  have := List.length_pos_iff.mpr nonempty
  simp only [span, List.map_cons, List.sum_cons, List.length_cons]
  omega

theorem span_append {front back : List α} (nonempty : front ≠ []) (more : back ≠ []) :
    span width (front ++ back) = span width front + 1 + span width back := by
  have := List.length_pos_iff.mpr nonempty
  have := List.length_pos_iff.mpr more
  simp only [span, List.map_append, List.sum_append, List.length_append]
  omega

theorem span_concat {row : List α} (nonempty : row ≠ []) (item : α) :
    span width (row ++ [item]) = span width row + 1 + width item := by
  rw [span_append width nonempty (List.cons_ne_nil _ _), span_singleton]

theorem span_le_append (front back : List α) : span width front ≤ span width (front ++ back) := by
  simp only [span, List.map_append, List.sum_append, List.length_append]
  omega

variable {width}

theorem Fits.tail {limit : Nat} {item : α} {row : List α} (fits : Fits width limit (item :: row)) :
    Fits width limit row := by
  intro several
  have nonempty : row ≠ [] := by
    rintro rfl
    simp at several
  have whole := fits (by rw [List.length_cons]; omega)
  rw [span_cons width item nonempty] at whole
  omega

/-- The rows hold the items in order, none is empty and each fits. -/
structure Layout (width : α → Nat) (limit : Nat) (items : List α) (rows : Rows α) : Prop where
  items : rows.finished.flatten ++ rows.current = items
  nonempty : ∀ row ∈ rows.finished, row ≠ []
  fits : ∀ row ∈ rows.finished, Fits width limit row
  current : Fits width limit rows.current

theorem Layout.place {limit : Nat} {items : List α} {rows : Rows α}
    (layout : Layout width limit items rows) (item : α) :
    Layout width limit (items ++ [item]) (place width limit rows item) := by
  unfold Packing.place
  split_ifs with full
  · refine ⟨?_, ?_, ?_, fun several => ?_⟩
    · rw [← layout.items]
      simp
    · rw [List.forall_mem_append, List.forall_mem_singleton]
      exact ⟨layout.nonempty, full.1⟩
    · rw [List.forall_mem_append, List.forall_mem_singleton]
      exact ⟨layout.fits, layout.current⟩
    · simp at several
  · refine ⟨?_, layout.nonempty, layout.fits, fun several => ?_⟩
    · rw [← layout.items, List.append_assoc]
    · by_cases empty : rows.current = []
      · simp [empty] at several
      · rw [span_concat width empty]
        by_contra wide
        exact full ⟨empty, by omega⟩

theorem Layout.foldl {limit : Nat} {front : List α} {rows : Rows α}
    (layout : Layout width limit front rows) (items : List α) :
    Layout width limit (front ++ items) (items.foldl (Packing.place width limit) rows) := by
  induction items generalizing front rows with
  | nil => rwa [List.append_nil]
  | cons item items ih =>
      rw [List.foldl_cons, List.append_cons]
      exact ih (layout.place item)

theorem layout_nil (limit : Nat) : Layout width limit [] ⟨[], []⟩ :=
  ⟨rfl, List.forall_mem_nil _, List.forall_mem_nil _, fun several => absurd several (by simp)⟩

theorem layout_pack (limit : Nat) (items : List α) :
    Layout width limit items (items.foldl (place width limit) ⟨[], []⟩) :=
  (layout_nil limit).foldl items

/-- Packing keeps the items and their order. -/
theorem pack_flatten (limit : Nat) (items : List α) : (pack width limit items).flatten = items := by
  have layout := @layout_pack α width limit items
  unfold pack Rows.all
  split_ifs with some_
  · rw [List.flatten_append, List.flatten_singleton, layout.items]
  · have whole := layout.items
    rwa [not_not.mp some_, List.append_nil] at whole

theorem nonempty_of_mem_pack {limit : Nat} {items row : List α}
    (member : row ∈ pack width limit items) : row ≠ [] := by
  have layout := @layout_pack α width limit items
  unfold pack Rows.all at member
  split_ifs at member with some_
  · rcases List.mem_append.mp member with before | last
    · exact layout.nonempty row before
    · rw [List.mem_singleton.mp last]
      exact some_
  · exact layout.nonempty row member

theorem fits_of_mem_pack {limit : Nat} {items row : List α}
    (member : row ∈ pack width limit items) : Fits width limit row := by
  have layout := @layout_pack α width limit items
  unfold pack Rows.all at member
  split_ifs at member with some_
  · rcases List.mem_append.mp member with before | last
    · exact layout.fits row before
    · rw [List.mem_singleton.mp last]
      exact layout.current
  · exact layout.fits row member

theorem Rows.all_length (rows : Rows α) :
    rows.all.length = rows.finished.length + if rows.current = [] then 0 else 1 := by
  unfold all
  split_ifs with some_ empty
  all_goals simp_all

/-- Items that fit behind the current row stay in it. -/
theorem foldl_place_within {limit : Nat} {rows : Rows α} (started : rows.current ≠ [])
    {items : List α} (fits : span width (rows.current ++ items) ≤ limit) :
    items.foldl (place width limit) rows = { rows with current := rows.current ++ items } := by
  induction items generalizing rows with
  | nil => rw [List.foldl_nil, List.append_nil]
  | cons item items ih =>
      have front : span width (rows.current ++ [item]) ≤ limit := by
        rw [List.append_cons] at fits
        exact (span_le_append width _ items).trans fits
      have kept : place width limit rows item = { rows with current := rows.current ++ [item] } := by
        unfold place
        rw [span_concat width started] at front
        exact if_neg fun full => absurd full.2 (by omega)
      rw [List.foldl_cons, kept, ih (by simp) (by simpa using fits)]
      simp

/-- A row that fits stays together when its first item starts a row. -/
theorem foldl_place_started {limit : Nat} {rows : Rows α} {item : α} {row : List α}
    (started : rows.current = [item]) (fits : Fits width limit (item :: row)) :
    (row.foldl (place width limit) rows).all.length = rows.all.length := by
  cases row with
  | nil => rfl
  | cons next row =>
      have whole := fits (by rw [List.length_cons, List.length_cons]; omega)
      rw [foldl_place_within (by simp [started]) (by simpa [started] using whole),
        Rows.all_length, Rows.all_length, started, if_neg (by simp), if_neg (by simp)]

/-- A row that fits makes at most one more row of the greedy placing. -/
theorem foldl_place_length_le {limit : Nat} (rows : Rows α) {row : List α}
    (fits : Fits width limit row) :
    (row.foldl (place width limit) rows).all.length ≤ rows.all.length + 1 := by
  induction row generalizing rows with
  | nil => exact Nat.le_succ _
  | cons item row ih =>
      rw [List.foldl_cons]
      by_cases full : rows.current ≠ [] ∧ limit < span width rows.current + 1 + width item
      · have next : place width limit rows item = ⟨rows.finished ++ [rows.current], [item]⟩ :=
          if_pos full
        rw [next, foldl_place_started rfl fits, Rows.all_length, Rows.all_length, if_neg full.1]
        simp
      · have next : place width limit rows item = { rows with current := rows.current ++ [item] } :=
          if_neg full
        rw [next]
        by_cases empty : rows.current = []
        · rw [foldl_place_started (by rw [empty]; rfl) fits, Rows.all_length, Rows.all_length]
          simp [empty]
        · have same : ({ rows with current := rows.current ++ [item] } : Rows α).all.length =
              rows.all.length := by
            rw [Rows.all_length, Rows.all_length]
            simp [empty]
          exact same ▸ ih _ fits.tail

theorem foldl_flatten_length_le {limit : Nat} (start : Rows α) {rows : List (List α)}
    (fits : ∀ row ∈ rows, Fits width limit row) :
    (rows.flatten.foldl (place width limit) start).all.length ≤ start.all.length + rows.length := by
  induction rows generalizing start with
  | nil => exact le_rfl
  | cons row rows ih =>
      rw [List.forall_mem_cons] at fits
      have first := foldl_place_length_le start fits.1
      have rest := ih (row.foldl (place width limit) start) fits.2
      rw [List.flatten_cons, List.foldl_append, List.length_cons]
      omega

/-- Greedy placing makes the fewest rows. -/
theorem pack_length_le {limit : Nat} {items : List α} {rows : List (List α)}
    (same : rows.flatten = items) (fits : ∀ row ∈ rows, Fits width limit row) :
    (pack width limit items).length ≤ rows.length := by
  have bound := foldl_flatten_length_le ⟨[], []⟩ fits
  rw [same] at bound
  simpa [pack, Rows.all] using bound

theorem width_le_span {item : α} {row : List α} (member : item ∈ row) :
    width item ≤ span width row := by
  have inSum := List.le_sum_of_mem (@List.mem_map_of_mem _ _ row item width member)
  exact inSum.trans (Nat.le_add_right _ _)

/-- When the items have rows within the limit, single items included, the packed rows are so. -/
theorem pack_within {limit : Nat} {items : List α} {rows : List (List α)}
    (same : rows.flatten = items) (within : ∀ row ∈ rows, span width row ≤ limit) :
    ∀ row ∈ pack width limit items, span width row ≤ limit := by
  intro row member
  match row with
  | [] => exact absurd rfl (nonempty_of_mem_pack member)
  | [item] =>
      have inItems : item ∈ rows.flatten := by
        rw [same, ← @pack_flatten _ width limit items]
        exact List.mem_flatten.mpr ⟨[item], member, List.mem_singleton_self item⟩
      obtain ⟨other, inRows, inside⟩ := List.mem_flatten.mp inItems
      rw [span_singleton]
      exact (width_le_span inside).trans (within other inRows)
  | first :: second :: rest => exact fits_of_mem_pack member (by simp)

/-- Placing more items only adds to the first row. -/
theorem foldl_place_first {limit : Nat} {front : List α} (items : List α) (rows : Rows α)
    (started : rows.current ≠ [])
    (first : ∃ more rest, rows.all = (front ++ more) :: rest) :
    ∃ more rest, (items.foldl (place width limit) rows).all = (front ++ more) :: rest := by
  induction items generalizing rows with
  | nil => exact first
  | cons item items ih =>
      rw [List.foldl_cons]
      obtain ⟨more, rest, form⟩ := first
      rw [Rows.all, if_pos started] at form
      unfold place
      split_ifs
      · apply ih _ (List.cons_ne_nil _ _)
        rw [Rows.all, if_pos (List.cons_ne_nil _ _), form]
        exact ⟨more, rest ++ [[item]], rfl⟩
      · apply ih _ (by simp)
        rw [Rows.all, if_pos (by simp)]
        cases finished : rows.finished with
        | nil =>
            rw [finished, List.nil_append, List.cons.injEq] at form
            exact ⟨more ++ [item], [], by simp [form.1]⟩
        | cons row others =>
            rw [finished, List.cons_append, List.cons.injEq] at form
            exact ⟨more, others ++ [rows.current ++ [item]], by rw [form.1, List.cons_append]⟩

/-- The first packed row holds every front of the items that fits. -/
theorem pack_first {limit : Nat} {front : List α} (started : front ≠ [])
    (within : span width front ≤ limit) (back : List α) :
    ∃ more rest, pack width limit (front ++ back) = (front ++ more) :: rest := by
  cases front with
  | nil => exact absurd rfl started
  | cons item front =>
      have placed : (item :: front).foldl (place width limit) ⟨[], []⟩ = ⟨[], item :: front⟩ := by
        rw [List.foldl_cons]
        exact @foldl_place_within _ width limit ⟨[], [item]⟩ (List.cons_ne_nil _ _) front within
      rw [pack, List.foldl_append, placed]
      apply foldl_place_first back _ started
      exact ⟨[], [], by simp [Rows.all]⟩

end Library.Packing
