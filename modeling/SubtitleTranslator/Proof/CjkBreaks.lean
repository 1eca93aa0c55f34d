import SubtitleTranslator.Proof.Wrapping

namespace SubtitleTranslator.Engine
open Library Library.Text

/-- The line that a break finishes: it loses an opening punctuation mark at its end. -/
def WrapState.finished (state : WrapState) : Str :=
  match state.cur.getLast? with
  | some last => if last ∈ noTrail then state.cur.dropLast else state.cur
  | none => state.cur

/-- The opening punctuation mark that a break carries to the next line. -/
def WrapState.carried (state : WrapState) : Str :=
  match state.cur.getLast? with
  | some last => if last ∈ noTrail then [last] else []
  | none => []

theorem WrapState.cut_eq (state : WrapState) (c : CodePoint) :
    state.cut c = ⟨state.lines ++ [state.finished], state.carried ++ [c]⟩ := by
  unfold cut finished carried
  cases last : state.cur.getLast? with
  | none => rfl
  | some mark =>
      dsimp only
      split_ifs
      · rfl
      · rfl

theorem WrapState.finished_append (state : WrapState) :
    state.finished ++ state.carried = state.cur := by
  unfold finished carried
  cases last : state.cur.getLast? with
  | none => simp
  | some c =>
      dsimp only
      split_ifs
      · exact List.dropLast_append_getLast? c last
      · exact List.append_nil _

/-- At most one mark is carried. -/
theorem WrapState.carried_cases (state : WrapState) :
    state.carried = [] ∧ state.finished = state.cur ∧
        (∀ last ∈ state.cur.getLast?, last ∉ noTrail) ∨
      ∃ mark ∈ noTrail, state.carried = [mark] := by
  unfold finished carried
  cases last : state.cur.getLast? with
  | none => exact .inl ⟨rfl, rfl, nofun⟩
  | some c =>
      dsimp only
      by_cases opening : c ∈ noTrail
      · rw [if_pos opening]
        exact .inr ⟨c, opening, rfl⟩
      · rw [if_neg opening, if_neg opening]
        exact .inl ⟨rfl, rfl, fun d same => by cases same; exact opening⟩

/-- A loop of `wrap_cjk` after it has read a front of the text. -/
def readTo (full : WrapState → CodePoint → Bool) (front : Str) : WrapState :=
  front.foldl (WrapState.step full) ⟨[], []⟩

/-- The characters that may not start a line. -/
def staysBehind (c : CodePoint) : Bool := c ∈ noLead || isPlaceholder c

/-- The test with which a loop of `wrap_cjk` breaks its line before a character. -/
def breaksBefore (full : WrapState → CodePoint → Bool) (state : WrapState) (c : CodePoint) : Bool :=
  state.cur ≠ [] && full state c && !staysBehind c

theorem step_of_break {full : WrapState → CodePoint → Bool} {state : WrapState} {c : CodePoint}
    (breaks : breaksBefore full state c = true) :
    WrapState.step full state c = ⟨state.lines ++ [state.finished], state.carried ++ [c]⟩ := by
  rw [← WrapState.cut_eq]
  unfold WrapState.step
  rw [if_pos]
  simpa [breaksBefore, staysBehind, and_assoc] using breaks

theorem step_of_no_break {full : WrapState → CodePoint → Bool} {state : WrapState} {c : CodePoint}
    (goes : breaksBefore full state c = false) :
    WrapState.step full state c = { state with cur := state.cur ++ [c] } := by
  unfold WrapState.step
  rw [if_neg]
  rintro ⟨some_, isFull, leads, tag⟩
  rw [breaksBefore, staysBehind] at goes
  simp [some_, isFull, leads, tag] at goes

theorem readTo_concat (full : WrapState → CodePoint → Bool) (front : Str) (c : CodePoint) :
    readTo full (front ++ [c]) = WrapState.step full (readTo full front) c := by
  rw [readTo, List.foldl_append]
  rfl

/-- The lines and the current line are the characters that were read. -/
theorem readTo_text (full : WrapState → CodePoint → Bool) (front : Str) :
    (readTo full front).lines.flatten ++ (readTo full front).cur = front := by
  have whole := WrapState.text_foldl full ⟨[], []⟩ front
  simp only [WrapState.text, List.flatten_nil, List.nil_append] at whole
  exact whole

theorem readTo_cur_ne_nil (full : WrapState → CodePoint → Bool) {front : Str}
    (started : front ≠ []) : (readTo full front).cur ≠ [] := by
  rcases List.eq_nil_or_concat front with rfl | ⟨front, c, rfl⟩
  · exact absurd rfl started
  · rw [List.concat_eq_append, readTo_concat]
    cases breaks : breaksBefore full (readTo full front) c with
    | true => simp [step_of_break breaks]
    | false => simp [step_of_no_break breaks]

/-- A break of a loop over a text: before `c`, after a front of the text. -/
structure BreaksAt (full : WrapState → CodePoint → Bool) (s front : Str) (c : CodePoint)
    (back : Str) : Prop where
  text : s = front ++ c :: back
  test : breaksBefore full (readTo full front) c = true

/-- The finished lines are those of the breaks. -/
theorem mem_lines_iff (full : WrapState → CodePoint → Bool) (s line : Str) :
    line ∈ (readTo full s).lines ↔
      ∃ front c back, BreaksAt full s front c back ∧ line = (readTo full front).finished := by
  induction s using List.reverseRecOn with
  | nil =>
      refine iff_of_false List.not_mem_nil fun ⟨front, c, back, here, _⟩ => ?_
      exact absurd here.text.symm (by simp)
  | append_singleton s d ih =>
      rw [readTo_concat]
      have later : (∃ front c back, BreaksAt full (s ++ [d]) front c back ∧
          line = (readTo full front).finished) ↔
          (∃ front c back, BreaksAt full s front c back ∧ line = (readTo full front).finished) ∨
            (breaksBefore full (readTo full s) d = true ∧ line = (readTo full s).finished) := by
        constructor
        · rintro ⟨front, c, back, ⟨text, test⟩, same⟩
          rcases List.eq_nil_or_concat back with rfl | ⟨back, e, rfl⟩
          · obtain ⟨rfl, equal⟩ := List.append_inj' text rfl
            cases equal
            exact .inr ⟨test, same⟩
          · rw [List.concat_eq_append, ← List.cons_append, ← List.append_assoc] at text
            exact .inl ⟨front, c, back, ⟨(List.append_inj' text rfl).1, test⟩, same⟩
        · rintro (⟨front, c, back, ⟨text, test⟩, same⟩ | ⟨test, same⟩)
          · exact ⟨front, c, back ++ [d], ⟨by rw [text]; simp, test⟩, same⟩
          · exact ⟨s, d, [], ⟨rfl, test⟩, same⟩
      rw [later, ← ih]
      cases breaks : breaksBefore full (readTo full s) d with
      | true => simp [step_of_break breaks]
      | false => simp [step_of_no_break breaks]

/-- The lines of a loop over a text before blank ones are dropped. -/
def rawLines (full : WrapState → CodePoint → Bool) (s : Str) : List Str :=
  (readTo full s).lines ++ [(readTo full s).cur]

theorem wrapLoop_eq (full : WrapState → CodePoint → Bool) {s : Str} (some_ : s ≠ []) :
    wrapLoop full s = rawLines full s := by
  change (if (readTo full s).cur ≠ [] then _ else _) = _
  rw [if_pos (readTo_cur_ne_nil full some_)]
  rfl

theorem rawLines_flatten (full : WrapState → CodePoint → Bool) (s : Str) :
    (rawLines full s).flatten = s := by
  rw [rawLines, List.flatten_append, List.flatten_singleton, readTo_text]

/-- The lines before a break, with the one that it finishes. -/
def linesBefore (full : WrapState → CodePoint → Bool) (front : Str) : List Str :=
  (readTo full front).lines ++ [(readTo full front).finished]

theorem readTo_lines_append (full : WrapState → CodePoint → Bool) (front more : Str) :
    (readTo full front).lines <+: (readTo full (front ++ more)).lines := by
  induction more using List.reverseRecOn with
  | nil => rw [List.append_nil]
  | append_singleton more d ih =>
      rw [← List.append_assoc, readTo_concat]
      refine ih.trans ?_
      cases breaks : breaksBefore full (readTo full (front ++ more)) d with
      | true =>
          rw [step_of_break breaks]
          exact List.prefix_append _ _
      | false => rw [step_of_no_break breaks]

/-- A break splits the lines. -/
theorem BreaksAt.split {full : WrapState → CodePoint → Bool} {s front back : Str} {c : CodePoint}
    (here : BreaksAt full s front c back) :
    ∃ after, rawLines full s = linesBefore full front ++ after ∧
      after.flatten = (readTo full front).carried ++ c :: back := by
  have text : s = front ++ [c] ++ back := by rw [here.text, ← List.append_cons]
  obtain ⟨more, later⟩ := readTo_lines_append full (front ++ [c]) back
  rw [readTo_concat, step_of_break here.test, ← text] at later
  have split : rawLines full s = linesBefore full front ++ (more ++ [(readTo full s).cur]) := by
    rw [rawLines, ← later, linesBefore, List.append_assoc]
  refine ⟨more ++ [(readTo full s).cur], split, ?_⟩
  have whole := rawLines_flatten full s
  have read : (linesBefore full front).flatten ++ (readTo full front).carried = front := by
    rw [linesBefore, List.flatten_append, List.flatten_singleton, List.append_assoc,
      WrapState.finished_append, readTo_text]
  rw [split, List.flatten_append] at whole
  have same : (linesBefore full front).flatten ++ (more ++ [(readTo full s).cur]).flatten =
      (linesBefore full front).flatten ++ ((readTo full front).carried ++ c :: back) := by
    rw [whole, ← List.append_assoc, read, here.text]
  exact List.append_cancel_left same

/-- A break of a text is one of a longer text. -/
theorem BreaksAt.concat {full : WrapState → CodePoint → Bool} {s front back : Str} {c : CodePoint}
    (here : BreaksAt full s front c back) (d : CodePoint) :
    BreaksAt full (s ++ [d]) front c (back ++ [d]) :=
  ⟨by rw [here.text]; simp, here.test⟩

/-- The lines are split by breaks only. -/
theorem exists_break {full : WrapState → CodePoint → Bool} {s : Str} {before after : List Str}
    (split : rawLines full s = before ++ after) (some_ : before ≠ []) (more : after ≠ []) :
    ∃ front c back, BreaksAt full s front c back ∧ before = linesBefore full front ∧
      after.flatten = (readTo full front).carried ++ c :: back := by
  induction s using List.reverseRecOn generalizing before after with
  | nil =>
      have both := congrArg List.length split
      have := List.length_pos_iff.mpr some_
      have := List.length_pos_iff.mpr more
      rw [List.length_append] at both
      simp [rawLines, readTo] at both
      omega
  | append_singleton s d ih =>
      -- The break of the shorter text leaves the new character to the last line.
      have extend {rest : List Str} (short : rawLines full s = before ++ rest) (some' : rest ≠ [])
          (longer : after.flatten = rest.flatten ++ [d]) :
          ∃ front c back, BreaksAt full (s ++ [d]) front c back ∧ before = linesBefore full front ∧
            after.flatten = (readTo full front).carried ++ c :: back := by
        obtain ⟨front, c, back, here, lines, text⟩ := ih short some_ some'
        exact ⟨front, c, back ++ [d], here.concat d, lines, by rw [longer, text]; simp⟩
      rcases List.eq_nil_or_concat after with rfl | ⟨middle, last, rfl⟩
      · exact absurd rfl more
      rw [List.concat_eq_append] at *
      rw [rawLines, readTo_concat, ← List.append_assoc] at split
      cases breaks : breaksBefore full (readTo full s) d with
      | false =>
          rw [step_of_no_break breaks] at split
          obtain ⟨lines, same⟩ := List.append_inj' split rfl
          cases same
          exact @extend (middle ++ [(readTo full s).cur])
            (by rw [rawLines, lines, List.append_assoc]) (by simp) (by simp)
      | true =>
          rw [step_of_break breaks] at split
          obtain ⟨outer, same⟩ := List.append_inj' split rfl
          cases same
          rcases List.eq_nil_or_concat middle with rfl | ⟨middle, finished, rfl⟩
          · rw [List.append_nil] at outer
            exact ⟨s, d, [], ⟨rfl, breaks⟩, outer.symm, by simp⟩
          · rw [List.concat_eq_append, ← List.append_assoc] at outer
            obtain ⟨inner, same⟩ := List.append_inj' outer rfl
            cases same
            refine @extend (middle ++ [(readTo full s).cur])
              (by rw [rawLines, inner, List.append_assoc]) (by simp) ?_
            simp [← WrapState.finished_append (readTo full s)]

section Width
variable (wide : CodePoint → Bool)

/-- The test of the first loop of `wrap_cjk`. -/
def greedyFull (limit : ℚ) (state : WrapState) (c : CodePoint) : Bool :=
  limit < displayWidth wide (state.cur ++ [c])

/-- The number of lines that `wrap_cjk` aims at. -/
def lineCount (s : Str) (limit : ℚ) (maxLines : Nat) : Nat :=
  let lines := wrapLoop (greedyFull wide limit) s
  if lines.length ≤ maxLines then min (max lines.length 2) maxLines else maxLines

/-- The width that `wrap_cjk` aims at. -/
def targetWidth (s : Str) (limit : ℚ) (maxLines : Nat) : ℚ :=
  displayWidth wide s / lineCount wide s limit maxLines

/-- The test of the second loop of `wrap_cjk`. -/
def balanceFull (s : Str) (limit : ℚ) (maxLines : Nat) (state : WrapState) (_ : CodePoint) : Bool :=
  targetWidth wide s limit maxLines ≤ displayWidth wide state.cur ∧
    state.lines.length < lineCount wide s limit maxLines - 1

/-- A text that `wrap_cjk` does not return as it is. -/
def Overlong (s : Str) (limit : ℚ) : Prop := s ≠ [] ∧ limit < displayWidth wide s

theorem wrapCjk_of_short {s : Str} {limit : ℚ} (short : ¬Overlong wide (strip s) limit)
    (maxLines : Nat) : wrapCjk wide s limit maxLines = [strip s] := by
  simp only [wrapCjk]
  rw [if_pos]
  rw [Overlong, not_and_or, not_not, not_lt] at short
  exact short

/-- The lines of an overlong text are those of the second loop without the blank ones. -/
theorem wrapCjk_of_overlong {s : Str} {limit : ℚ} (long : Overlong wide (strip s) limit)
    (maxLines : Nat) :
    wrapCjk wide s limit maxLines =
      ((rawLines (balanceFull wide (strip s) limit maxLines) (strip s)).filter
        (strip · ≠ [])).map strip := by
  rw [← wrapLoop_eq _ long.1]
  simp only [wrapCjk]
  rw [if_neg]
  · rfl
  · rw [not_or, not_le]
    exact long

end Width

end SubtitleTranslator.Engine
