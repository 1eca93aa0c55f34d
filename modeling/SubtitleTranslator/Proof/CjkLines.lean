import SubtitleTranslator.Proof.CjkWidths

namespace SubtitleTranslator.Engine
open Library Library.Text

/-- A text is its lines in order with whitespace between them. -/
inductive WrappedAs : List Str → Str → Prop where
  | one (line : Str) : WrappedAs [line] line
  | cons (line : Str) {gap : Str} {lines : List Str} {rest : Str}
      (blank : ∀ c ∈ gap, isSpace c = true) (laid : WrappedAs lines rest) :
      WrappedAs (line :: lines) (line ++ (gap ++ rest))

/-- Raw lines are what is shown of them, with whitespace around and between. -/
theorem exists_wrappedAs {raw : List Str} (some_ : shown raw ≠ []) :
    ∃ front text back, raw.flatten = front ++ (text ++ back) ∧ WrappedAs (shown raw) text ∧
      (∀ c ∈ front, isSpace c = true) ∧ ∀ c ∈ back, isSpace c = true := by
  induction raw with
  | nil => exact absurd rfl some_
  | cons line raw ih =>
      obtain ⟨before, after, whole, blankBefore, blankAfter⟩ := exists_strip line
      by_cases blank : strip line = []
      · have same : shown (line :: raw) = shown raw := by simp [shown, blank]
        rw [same] at some_ ⊢
        obtain ⟨front, text, back, flat, laid, blankFront, blankBack⟩ := ih some_
        rw [blank, List.append_nil] at whole
        refine ⟨before ++ after ++ front, text, back, ?_, laid, ?_, blankBack⟩
        · rw [List.flatten_cons, whole, flat]
          simp only [List.append_assoc]
        · simp only [List.mem_append]
          rintro c ((inside | inside) | inside)
          · exact blankBefore c inside
          · exact blankAfter c inside
          · exact blankFront c inside
      · have same : shown (line :: raw) = strip line :: shown raw := by simp [shown, blank]
        by_cases none_ : shown raw = []
        · refine ⟨before, strip line, after ++ raw.flatten, ?_, ?_, blankBefore, ?_⟩
          · rw [List.flatten_cons]
            conv_lhs => rw [whole]
            simp only [List.append_assoc]
          · rw [same, none_]
            exact .one _
          · intro c member
            rcases List.mem_append.mp member with inside | inside
            · exact blankAfter c inside
            · exact blank_of_shown none_ c inside
        · obtain ⟨front, text, back, flat, laid, blankFront, blankBack⟩ := ih none_
          refine ⟨before, strip line ++ ((after ++ front) ++ text), back, ?_, ?_, blankBefore,
            blankBack⟩
          · rw [List.flatten_cons, flat]
            conv_lhs => rw [whole]
            simp only [List.append_assoc]
          · rw [same]
            refine .cons _ (fun c member => ?_) laid
            rcases List.mem_append.mp member with inside | inside
            · exact blankAfter c inside
            · exact blankFront c inside

/-- A laid out text starts and ends as its lines do. -/
theorem WrappedAs.solid {lines : List Str} {text : Str} (laid : WrappedAs lines text)
    (solid : ∀ line ∈ lines, Solid line) : Solid text := by
  induction laid with
  | one line => exact solid line List.mem_cons_self
  | @cons line gap lines rest blank laid ih =>
      obtain ⟨first, isFirst, seenFirst⟩ := (solid line List.mem_cons_self).front
      obtain ⟨last, isLast, seenLast⟩ :=
        (ih fun other member => solid other (List.mem_cons_of_mem line member)).back
      refine ⟨⟨first, ?_, seenFirst⟩, last, ?_, seenLast⟩
      · rw [List.head?_append, Option.mem_def.mp isFirst]
        rfl
      · rw [List.getLast?_append, List.getLast?_append, Option.mem_def.mp isLast]
        rfl

section Width
variable (wide : CodePoint → Bool)

/-- `wrap_cjk` only drops whitespace, and only between its lines; there are at most `max_lines` of
them, and none is blank. -/
theorem wrap_cjk_lossless {s : Str} (seen : visible s ≠ []) (limit : ℚ) {maxLines : Nat}
    (some_ : 1 ≤ maxLines) :
    WrappedAs (wrapCjk wide s limit maxLines) (strip s) ∧
      (wrapCjk wide s limit maxLines).length ≤ maxLines ∧
      ∀ line ∈ wrapCjk wide s limit maxLines, Solid line := by
  have solid := strip_solid (strip_ne_nil seen)
  by_cases long : Overlong wide (strip s) limit
  · rw [wrapCjk_of_overlong wide long]
    change WrappedAs (shown _) _ ∧ (shown _).length ≤ _ ∧ ∀ line ∈ shown _, Solid line
    have lines : ∀ line ∈ shown (rawLines (balanceFull wide (strip s) limit maxLines) (strip s)),
        Solid line := by
      intro line member
      obtain ⟨raw, _, kept, rfl⟩ := mem_shown.mp member
      exact strip_solid kept
    refine ⟨?_, ?_, lines⟩
    · have last := @shown_rawLines (balanceFull wide (strip s) limit maxLines) (strip s) solid
      have shows : shown (rawLines (balanceFull wide (strip s) limit maxLines) (strip s)) ≠ [] := by
        rw [last]
        simp
      obtain ⟨front, text, back, flat, laid, blankFront, blankBack⟩ := exists_wrappedAs shows
      -- The text is stripped, so the whitespace around the lines is empty.
      rw [rawLines_flatten, ← List.append_assoc] at flat
      have inner := (laid.solid lines).strip_between blankFront blankBack
      rw [← flat, solid.strip_eq] at inner
      rwa [← inner] at laid
    · have kept := List.length_filter_le (strip · ≠ [])
        (rawLines (balanceFull wide (strip s) limit maxLines) (strip s))
      have few := readTo_lines_le wide (targetWidth wide (strip s) limit maxLines)
        (lineCount wide (strip s) limit maxLines) (strip s)
      rw [← balanceFull_eq] at few
      have enough : lineCount wide (strip s) limit maxLines ≤ maxLines := by
        simp only [lineCount]
        split_ifs <;> omega
      rw [rawLines, List.length_append, List.length_singleton] at kept
      rw [shown, List.length_map]
      exact kept.trans (by omega)
  · rw [wrapCjk_of_short wide long]
    exact ⟨.one _, some_, fun line member => List.mem_singleton.mp member ▸ solid⟩

end Width

/-- Two spaces at a break are dropped. -/
theorem wrap_cjk_lossless_example :
    WrappedAs (wrapCjk isEastAsian (ofString "我我我  我我") 2 2) (strip (ofString "我我我  我我")) ∧
      (wrapCjk isEastAsian (ofString "我我我  我我") 2 2).length ≤ 2 ∧
      ∀ line ∈ wrapCjk isEastAsian (ofString "我我我  我我") 2 2, Solid line :=
  wrap_cjk_lossless isEastAsian (by decide +kernel) 2 (by decide)

end SubtitleTranslator.Engine
