import SubtitleTranslator.Construction.Wrapping

namespace SubtitleTranslator.Engine
open Library Library.Text

/-- The characters of the finished lines and the current one. -/
def WrapState.text (state : WrapState) : Str := state.lines.flatten ++ state.cur

theorem WrapState.text_cut (state : WrapState) (c : CodePoint) :
    (state.cut c).text = state.text ++ [c] := by
  unfold WrapState.cut
  split
  · rename_i last isLast
    have whole : state.cur.dropLast ++ [last] = state.cur := List.dropLast_append_getLast? last isLast
    split
    · simp only [WrapState.text, List.flatten_append, List.flatten_singleton]
      rw [List.append_assoc, ← List.singleton_append, ← List.append_assoc _ [last], whole,
        List.append_assoc]
    · simp [WrapState.text]
  · simp [WrapState.text]

theorem WrapState.text_step (full : WrapState → CodePoint → Bool) (state : WrapState)
    (c : CodePoint) : (WrapState.step full state c).text = state.text ++ [c] := by
  unfold WrapState.step
  split
  · exact state.text_cut c
  · simp [WrapState.text]

theorem WrapState.text_foldl (full : WrapState → CodePoint → Bool) (state : WrapState) (s : Str) :
    (s.foldl (WrapState.step full) state).text = state.text ++ s := by
  induction s generalizing state with
  | nil => simp
  | cons c s ih =>
      rw [List.foldl_cons, ih, WrapState.text_step]
      simp

/-- The lines of a wrapping loop are the characters of the text in order. -/
theorem wrapLoop_flatten (full : WrapState → CodePoint → Bool) (s : Str) :
    (wrapLoop full s).flatten = s := by
  have whole := WrapState.text_foldl full ⟨[], []⟩ s
  simp only [WrapState.text, List.flatten_nil, List.nil_append] at whole
  simp only [wrapLoop]
  split
  · simpa using whole
  · rename_i empty
    rw [not_not.mp empty, List.append_nil] at whole
    exact whole

theorem visible_eq_nil_of_strip {s : Str} (empty : strip s = []) : visible s = [] := by
  rw [← visible_strip, empty]
  rfl

/-- Dropping blank lines and stripping the others keeps what is visible. -/
theorem visible_stripped (lines : List Str) :
    visible ((lines.filter (strip · ≠ [])).map strip).flatten = visible lines.flatten := by
  induction lines with
  | nil => rfl
  | cons line lines ih =>
      by_cases empty : strip line = []
      · rw [List.filter_cons_of_neg (by simpa using empty), ih, List.flatten_cons, visible_append,
          visible_eq_nil_of_strip empty, List.nil_append]
      · rw [List.filter_cons_of_pos (by simpa using empty), List.map_cons, List.flatten_cons,
          List.flatten_cons, visible_append, visible_append, visible_strip, ih]

section Width
variable (wide : CodePoint → Bool)

theorem cells_append (s t : Str) : cells wide (s ++ t) = cells wide s + cells wide t := by
  simp [cells]

theorem cells_singleton_le (c : CodePoint) : cells wide [c] ≤ 2 := by
  simp only [cells, List.map_cons, List.map_nil, List.sum_cons, List.sum_nil, cellsOf]
  split_ifs
  all_goals decide

/-- `wrap_cjk` keeps what is visible. -/
theorem wrapCjk_visible (s : Str) (limit : ℚ) (maxLines : Nat) :
    visible (wrapCjk wide s limit maxLines).flatten = visible s := by
  simp only [wrapCjk]
  split
  · rw [List.flatten_singleton, visible_strip]
  · rw [visible_stripped, wrapLoop_flatten, visible_strip]

/-- `wrap_cjk` makes at least one line. -/
theorem wrapCjk_ne_nil (s : Str) (limit : ℚ) (maxLines : Nat) :
    wrapCjk wide s limit maxLines ≠ [] := by
  intro none_
  have kept := wrapCjk_visible wide s limit maxLines
  rw [none_] at kept
  simp only [wrapCjk] at none_
  split at none_
  · cases none_
  · rename_i long
    rw [not_or] at long
    obtain ⟨c, isFirst, seen⟩ := (strip_solid long.1).front
    apply visible_ne_nil (List.mem_of_mem_head? isFirst) seen
    rw [visible_strip, ← kept]
    rfl

theorem visible_spaced (front back : Str) :
    visible (spaced front back) = visible front ++ visible back := by
  unfold spaced
  split
  · rw [visible_append, visible_append, visible_space, List.append_nil]
  · rename_i empty
    rw [not_not.mp empty]
    rfl

theorem visible_words (state : WordState) (word : Str) :
    let next := WordState.step wide state word
    visible next.words.flatten ++ visible next.pending =
      visible state.words.flatten ++ visible state.pending ++ visible word := by
  simp only [WordState.step]
  split
  · rw [visible_spaced, List.append_assoc]
  · rw [List.flatten_append, List.flatten_singleton, visible_append, visible_spaced]
    exact (List.append_nil _).trans (List.append_assoc _ _ _).symm

/-- Gluing markup to words keeps what is visible. -/
theorem latinWords_visible (s : Str) : visible (latinWords wide s).flatten = visible s := by
  have fold (words : List Str) (state : WordState) :
      let last := words.foldl (WordState.step wide) state
      visible last.words.flatten ++ visible last.pending =
        visible state.words.flatten ++ visible state.pending ++ visible words.flatten := by
    induction words generalizing state with
    | nil => simp [visible]
    | cons word words ih =>
        have step := visible_words wide state word
        dsimp only at ih step ⊢
        rw [List.foldl_cons, ih, step, List.flatten_cons, visible_append]
        simp
  have whole := fold (words s) ⟨[], []⟩
  dsimp only at whole
  rw [words_flatten] at whole
  have idem : visible (visible s) = visible s := by simp [visible]
  rw [idem] at whole
  simp only [List.flatten_nil] at whole
  change _ = visible s at whole
  simp only [latinWords]
  split
  · rename_i none_
    rw [none_] at whole
    rw [← whole]
    exact (List.append_nil _).symm
  · split
    · rename_i last isLast
      have split := congrArg List.flatten (List.dropLast_append_getLast? last isLast)
      rw [← whole, ← split]
      simp only [List.flatten_append, List.flatten_singleton, visible_append, visible_space,
        List.nil_append, List.append_assoc]
    · rename_i none_
      rw [List.getLast?_eq_none_iff] at none_
      rw [none_] at whole
      rw [List.flatten_singleton, ← whole]
      rfl

theorem wrapWord_visible (limit : Nat) (state : WrapState) (word : Str) :
    visible (wrapWord wide limit state word).text = visible state.text ++ visible word := by
  unfold wrapWord
  split
  · simp [WrapState.text, visible_append]
  · simp only [WrapState.text, visible_append, visible_spaced, List.append_assoc]

theorem foldl_wrapWord_visible (limit : Nat) (state : WrapState) (words : List Str) :
    visible (words.foldl (wrapWord wide limit) state).text =
      visible state.text ++ visible words.flatten := by
  induction words generalizing state with
  | nil => simp [visible]
  | cons word words ih =>
      rw [List.foldl_cons, ih, wrapWord_visible, List.flatten_cons, visible_append]
      simp

theorem fillLine_visible (target : Nat) (current : Str) (remaining : List Str) :
    let line := fillLine wide target current remaining
    visible line.1 ++ visible line.2.flatten = visible current ++ visible remaining.flatten := by
  induction remaining generalizing current with
  | nil => rfl
  | cons word remaining ih =>
      rw [fillLine]
      split
      · have filled := ih (current ++ [0x20] ++ word)
        dsimp only at filled ⊢
        rw [filled]
        simp only [visible_append, visible_space, List.nil_append, List.flatten_cons,
          List.append_assoc]
      · rfl

/-- Balancing keeps what is visible. -/
theorem balanceLines_visible (words : List Str) (slots : Nat) :
    visible (balanceLines wide words slots).flatten = visible words.flatten := by
  induction slots generalizing words with
  | zero =>
      cases words with
      | nil => rfl
      | cons word words =>
          show visible [join [0x20] (word :: words)].flatten = _
          rw [List.flatten_singleton, visible_join]
  | succ slots ih =>
      cases words with
      | nil => rfl
      | cons word words =>
          cases slots with
          | zero =>
              show visible [join [0x20] (word :: words)].flatten = _
              rw [List.flatten_singleton, visible_join]
          | succ slots =>
              simp only [balanceLines, List.flatten_cons, visible_append]
              rw [ih]
              exact fillLine_visible wide _ word words

theorem balanceLines_ne_nil {words : List Str} (nonempty : words ≠ []) (slots : Nat) :
    balanceLines wide words slots ≠ [] := by
  cases words with
  | nil => exact absurd rfl nonempty
  | cons word words =>
      match slots with
      | 0 => exact List.cons_ne_nil _ _
      | 1 => exact List.cons_ne_nil _ _
      | slots + 2 => exact List.cons_ne_nil _ _

/-- The lines of the greedy pass keep what is visible. -/
theorem greedyLines_visible (limit : Nat) (words : List Str) :
    visible (greedyLines wide limit words).flatten = visible words.flatten := by
  have whole := foldl_wrapWord_visible wide limit ⟨[], []⟩ words
  simp only [greedyLines]
  split
  · rw [List.flatten_append, List.flatten_singleton]
    exact whole
  · rename_i empty
    simp only [WrapState.text] at whole
    rw [not_not.mp empty, List.append_nil] at whole
    exact whole

/-- `wrap_latin` keeps what is visible. -/
theorem wrapLatin_visible (s : Str) (limit maxLines : Nat) :
    visible (wrapLatin wide s limit maxLines).flatten = visible s := by
  have greedy := greedyLines_visible wide limit (latinWords wide s)
  rw [latinWords_visible] at greedy
  simp only [wrapLatin]
  split
  · rename_i none_
    rw [← greedy, none_]
    rfl
  · split
    · exact greedy
    · rw [balanceLines_visible, latinWords_visible]

/-- `wrap_latin` makes at least one line. -/
theorem wrapLatin_ne_nil (s : Str) (limit maxLines : Nat) :
    wrapLatin wide s limit maxLines ≠ [] := by
  simp only [wrapLatin]
  split
  · exact List.cons_ne_nil _ _
  · rename_i some_
    split
    · exact some_
    · apply balanceLines_ne_nil
      intro empty
      apply some_
      rw [empty]
      rfl

end Width

end SubtitleTranslator.Engine
