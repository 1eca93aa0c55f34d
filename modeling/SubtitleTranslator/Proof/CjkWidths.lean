import SubtitleTranslator.Proof.CjkPunctuation

namespace SubtitleTranslator.Engine
open Library Library.Text

section Width
variable (wide : CodePoint → Bool)

theorem displayWidth_append (s t : Str) :
    displayWidth wide (s ++ t) = displayWidth wide s + displayWidth wide t := by
  simp only [displayWidth, cells_append]
  push_cast
  ring

theorem displayWidth_nonneg (s : Str) : 0 ≤ displayWidth wide s := by
  unfold displayWidth
  positivity

theorem displayWidth_nil : displayWidth wide [] = 0 := by
  simp [displayWidth, cells]

theorem displayWidth_singleton_le (c : CodePoint) : displayWidth wide [c] ≤ 1 := by
  have two : (cells wide [c] : ℚ) ≤ 2 := by exact_mod_cast cells_singleton_le wide c
  unfold displayWidth
  linarith

theorem displayWidth_strip_le (s : Str) : displayWidth wide (strip s) ≤ displayWidth wide s := by
  obtain ⟨front, back, whole, _⟩ := exists_strip s
  have parts := congrArg (displayWidth wide) whole
  rw [displayWidth_append, displayWidth_append] at parts
  have := displayWidth_nonneg wide front
  have := displayWidth_nonneg wide back
  linarith

theorem displayWidth_carried (state : WrapState) : displayWidth wide state.carried ≤ 1 := by
  rcases state.carried_cases with ⟨none_, _⟩ | ⟨mark, _, carried⟩
  · rw [none_, displayWidth_nil]
    exact zero_le_one
  · rw [carried]
    exact displayWidth_singleton_le wide mark

theorem displayWidth_finished (state : WrapState) :
    displayWidth wide state.finished + displayWidth wide state.carried =
      displayWidth wide state.cur := by
  rw [← displayWidth_append, WrapState.finished_append]

/-- Lines that are all at most as wide as a bound. -/
theorem displayWidth_flatten_le {lines : List Str} {bound : ℚ}
    (within : ∀ line ∈ lines, displayWidth wide line ≤ bound) :
    displayWidth wide lines.flatten ≤ lines.length * bound := by
  induction lines with
  | nil => simp [displayWidth_nil]
  | cons line lines ih =>
      have first := within line List.mem_cons_self
      have rest := ih fun other member => within other (List.mem_cons_of_mem line member)
      rw [List.flatten_cons, displayWidth_append, List.length_cons]
      push_cast
      linarith

/-- Lines that are all at least as wide as a bound. -/
theorem le_displayWidth_flatten {lines : List Str} {bound : ℚ}
    (reached : ∀ line ∈ lines, bound ≤ displayWidth wide line) :
    lines.length * bound ≤ displayWidth wide lines.flatten := by
  induction lines with
  | nil => simp [displayWidth_nil]
  | cons line lines ih =>
      have first := reached line List.mem_cons_self
      have rest := ih fun other member => reached other (List.mem_cons_of_mem line member)
      rw [List.flatten_cons, displayWidth_append, List.length_cons]
      push_cast
      linarith

/-- The first pass over a front of the text leaves more than two cells for each line. -/
structure Spread (limit : ℚ) (front : Str) : Prop where
  lines : 2 * (readTo (greedyFull wide limit) front).lines.length ≤
    displayWidth wide (readTo (greedyFull wide limit) front).lines.flatten
  text : (readTo (greedyFull wide limit) front).lines ≠ [] →
    2 * ((readTo (greedyFull wide limit) front).lines.length + 1 : ℚ) < displayWidth wide front

/-- A greedy line is broken by a character that does not fit, so it is longer than the limit less
that character and the carried mark. -/
theorem spread {limit : ℚ} (wideEnough : 4 ≤ limit) (front : Str) : Spread wide limit front := by
  induction front using List.reverseRecOn with
  | nil => exact ⟨by simp [readTo, displayWidth_nil], by simp [readTo]⟩
  | append_singleton front c ih =>
      have whole := congrArg (displayWidth wide) (readTo_text (greedyFull wide limit) front)
      rw [displayWidth_append] at whole
      have read := displayWidth_append wide front [c]
      have low := displayWidth_nonneg wide [c]
      have high := displayWidth_singleton_le wide c
      cases breaks : breaksBefore (greedyFull wide limit) (readTo (greedyFull wide limit) front) c with
      | false =>
          have same : (readTo (greedyFull wide limit) (front ++ [c])).lines =
              (readTo (greedyFull wide limit) front).lines := by
            rw [readTo_concat, step_of_no_break breaks]
          constructor
          · rw [same]
            exact ih.lines
          · rw [same, read]
            intro some_
            have := ih.text some_
            linarith
      | true =>
          have same : (readTo (greedyFull wide limit) (front ++ [c])).lines =
              (readTo (greedyFull wide limit) front).lines ++
                [(readTo (greedyFull wide limit) front).finished] := by
            rw [readTo_concat, step_of_break breaks]
          have exceeds : limit < displayWidth wide (readTo (greedyFull wide limit) front).cur +
              displayWidth wide [c] := by
            rw [← displayWidth_append]
            simp only [breaksBefore, greedyFull, Bool.and_eq_true, decide_eq_true_eq] at breaks
            exact breaks.1.2
          have parts := displayWidth_finished wide (readTo (greedyFull wide limit) front)
          have carried := displayWidth_carried wide (readTo (greedyFull wide limit) front)
          have lines := ih.lines
          constructor
          · rw [same, List.flatten_append, List.flatten_singleton, displayWidth_append,
              List.length_append, List.length_singleton]
            push_cast
            linarith
          · intro _
            rw [same, read, List.length_append, List.length_singleton]
            push_cast
            linarith

/-- The test of the second loop of `wrap_cjk` for its target and its number of lines. -/
def fillsTo (target : ℚ) (count : Nat) (state : WrapState) (_ : CodePoint) : Bool :=
  target ≤ displayWidth wide state.cur ∧ state.lines.length < count - 1

theorem balanceFull_eq (s : Str) (limit : ℚ) (maxLines : Nat) :
    balanceFull wide s limit maxLines =
      fillsTo wide (targetWidth wide s limit maxLines) (lineCount wide s limit maxLines) := rfl

section Balance
variable (target : ℚ) (count : Nat)

theorem breaksBefore_fillsTo_iff (state : WrapState) (c : CodePoint) :
    breaksBefore (fillsTo wide target count) state c = true ↔
      state.cur ≠ [] ∧ (target ≤ displayWidth wide state.cur ∧ state.lines.length < count - 1) ∧
        staysBehind c = false := by
  simp [breaksBefore, fillsTo, and_assoc]

/-- The second loop makes no more breaks than it should. -/
theorem readTo_lines_le (front : Str) :
    (readTo (fillsTo wide target count) front).lines.length ≤ count - 1 := by
  induction front using List.reverseRecOn with
  | nil => exact Nat.zero_le _
  | append_singleton front c ih =>
      rw [readTo_concat]
      cases breaks : breaksBefore (fillsTo wide target count)
          (readTo (fillsTo wide target count) front) c with
      | false =>
          rw [step_of_no_break breaks]
          exact ih
      | true =>
          have left := ((breaksBefore_fillsTo_iff wide target count _ c).mp breaks).2.1.2
          rw [step_of_break breaks, List.length_append, List.length_singleton]
          omega

/-- A line under the target takes a character, and then those that may not start a line. -/
theorem readTo_block {front tail : Str}
    (under : displayWidth wide (readTo (fillsTo wide target count) front).cur < target)
    (e : CodePoint) (behind : ∀ d ∈ tail, staysBehind d = true) :
    readTo (fillsTo wide target count) (front ++ e :: tail) =
      ⟨(readTo (fillsTo wide target count) front).lines,
        (readTo (fillsTo wide target count) front).cur ++ e :: tail⟩ := by
  induction tail using List.reverseRecOn with
  | nil =>
      have goes : breaksBefore (fillsTo wide target count)
          (readTo (fillsTo wide target count) front) e = false := by
        rw [← Bool.not_eq_true, breaksBefore_fillsTo_iff]
        exact fun breaks => not_lt.mpr breaks.2.1.1 under
      rw [readTo_concat, step_of_no_break goes]
  | append_singleton tail d ih =>
      have before := ih fun c member => behind c (List.mem_append_left _ member)
      have goes : breaksBefore (fillsTo wide target count)
          (readTo (fillsTo wide target count) (front ++ e :: tail)) d = false := by
        rw [← Bool.not_eq_true, breaksBefore_fillsTo_iff, behind d (by simp)]
        rintro ⟨_, _, ⟨⟩⟩
      rw [← List.cons_append, ← List.append_assoc, readTo_concat, step_of_no_break goes, before,
        List.append_assoc]

/-- A line that has reached the target did so with a character and those that stay behind it. -/
theorem exists_block (above : 2 < target) (front : Str)
    (reached : target ≤ displayWidth wide (readTo (fillsTo wide target count) front).cur)
    (early : (readTo (fillsTo wide target count) front).lines.length < count - 1) :
    ∃ start e tail, front = start ++ e :: tail ∧
      displayWidth wide (readTo (fillsTo wide target count) start).cur < target ∧
      ∀ d ∈ tail, staysBehind d = true := by
  induction front using List.reverseRecOn with
  | nil =>
      rw [show (readTo (fillsTo wide target count) []).cur = [] from rfl, displayWidth_nil]
        at reached
      linarith
  | append_singleton front c ih =>
      cases breaks : breaksBefore (fillsTo wide target count)
          (readTo (fillsTo wide target count) front) c with
      | true =>
          -- A line starts with one character behind a carried mark.
          rw [readTo_concat, step_of_break breaks, displayWidth_append] at reached
          have := displayWidth_carried wide (readTo (fillsTo wide target count) front)
          have := displayWidth_singleton_le wide c
          linarith
      | false =>
          rw [readTo_concat, step_of_no_break breaks] at early
          by_cases under :
              displayWidth wide (readTo (fillsTo wide target count) front).cur < target
          · exact ⟨front, c, [], rfl, under, nofun⟩
          · rw [not_lt] at under
            have started : (readTo (fillsTo wide target count) front).cur ≠ [] := by
              intro empty
              rw [empty, displayWidth_nil] at under
              linarith
            obtain ⟨start, e, tail, same, short, behind⟩ := ih under early
            have last : staysBehind c = true := by
              by_contra leads
              rw [Bool.not_eq_true] at leads
              rw [(breaksBefore_fillsTo_iff wide target count _ c).mpr
                ⟨started, ⟨under, early⟩, leads⟩] at breaks
              cases breaks
            refine ⟨start, e, tail ++ [c], by rw [same]; simp, short, fun d member => ?_⟩
            rcases List.mem_append.mp member with inside | isLast
            · exact behind d inside
            · rw [List.mem_singleton.mp isLast]
              exact last

/-- A line under the target that a character, with those that stay behind it, makes wider than the
limit. -/
structure Crosses (limit : ℚ) (s front block back : Str) : Prop where
  text : s = front ++ block ++ back
  early : (readTo (fillsTo wide target count) front).lines.length < count - 1
  under : displayWidth wide (readTo (fillsTo wide target count) front).cur < target
  shape : ∃ e tail, block = e :: tail ∧ ∀ d ∈ tail, staysBehind d = true
  leads : ∀ d ∈ back.head?, staysBehind d = false
  kept : (∀ e ∈ block.getLast?, e ∉ noTrail) ∨ back = []
  exceeds : limit < displayWidth wide
    (strip ((readTo (fillsTo wide target count) front).cur ++ block))

/-- The last break leaves too much, and a break has carried an opening mark. -/
structure CarriesOver (limit : ℚ) (s front : Str) (c : CodePoint) (back : Str) : Prop where
  break_ : BreaksAt (fillsTo wide target count) s front c back
  last : (readTo (fillsTo wide target count) front).lines.length + 2 = count
  carried : ∃ front c back, BreaksAt (fillsTo wide target count) s front c back ∧
    (readTo (fillsTo wide target count) front).carried ≠ []
  exceeds : limit < displayWidth wide
    (strip ((readTo (fillsTo wide target count) front).carried ++ c :: back))

variable {target count} {limit : ℚ} {s : Str}

/-- A block that crosses the limit stands in a line of the loop. -/
theorem Crosses.exists_line {front block back : Str} (within : target ≤ limit)
    (crosses : Crosses wide target count limit s front block back) :
    ∃ line ∈ rawLines (fillsTo wide target count) s, limit < displayWidth wide (strip line) := by
  obtain ⟨text, early, under, ⟨e, tail, rfl, behind⟩, leads, kept, exceeds⟩ := crosses
  have read := readTo_block wide target count under e behind
  refine ⟨_, ?_, exceeds⟩
  rw [rawLines]
  cases back with
  | nil =>
      rw [text, List.append_nil, read]
      exact List.mem_append_right _ List.mem_cons_self
  | cons d back =>
      have wideLine := displayWidth_strip_le wide
        ((readTo (fillsTo wide target count) front).cur ++ e :: tail)
      have breaks : breaksBefore (fillsTo wide target count)
          (readTo (fillsTo wide target count) (front ++ e :: tail)) d = true := by
        rw [read, breaksBefore_fillsTo_iff]
        exact ⟨by simp, ⟨by dsimp only; linarith, early⟩, leads d rfl⟩
      have closed : (readTo (fillsTo wide target count) (front ++ e :: tail)).finished =
          (readTo (fillsTo wide target count) front).cur ++ e :: tail := by
        have kept := kept.resolve_right (List.cons_ne_nil d back)
        rw [read]
        rcases WrapState.carried_cases ⟨(readTo (fillsTo wide target count) front).lines,
            (readTo (fillsTo wide target count) front).cur ++ e :: tail⟩ with
          ⟨_, same, _⟩ | ⟨mark, opening, carried⟩
        · exact same
        · have whole := WrapState.finished_append
            ⟨(readTo (fillsTo wide target count) front).lines,
              (readTo (fillsTo wide target count) front).cur ++ e :: tail⟩
          rw [carried] at whole
          have last := congrArg List.getLast? whole
          rw [List.getLast?_concat, List.getLast?_append_of_ne_nil _ (List.cons_ne_nil e tail)]
            at last
          exact absurd opening (kept mark last.symm)
      apply List.mem_append_left
      rw [← closed]
      exact (mem_lines_iff _ s _).mpr ⟨_, d, back, ⟨text, breaks⟩, rfl⟩

/-- The text behind the last break is the last line. -/
theorem rawLines_of_last {front back : Str} {c : CodePoint}
    (here : BreaksAt (fillsTo wide target count) s front c back)
    (last : (readTo (fillsTo wide target count) front).lines.length + 2 = count) :
    rawLines (fillsTo wide target count) s = linesBefore (fillsTo wide target count) front ++
      [(readTo (fillsTo wide target count) front).carried ++ c :: back] := by
  obtain ⟨after, split, text⟩ := here.split
  have few := readTo_lines_le wide target count s
  have lengths := congrArg List.length split
  rw [rawLines, linesBefore, List.length_append, List.length_append, List.length_append,
    List.length_singleton, List.length_singleton] at lengths
  rcases after with _ | ⟨line, _ | ⟨other, more⟩⟩
  · simp at text
  · rw [split, ← text, List.flatten_singleton]
  · rw [List.length_cons, List.length_cons] at lengths
    omega

/-- Without carried marks the last line is no wider than the target. -/
theorem cur_le_of_no_carry (total : displayWidth wide s = count * target)
    (full : (readTo (fillsTo wide target count) s).lines.length + 1 = count)
    (none_ : ∀ front c back, BreaksAt (fillsTo wide target count) s front c back →
      (readTo (fillsTo wide target count) front).carried = []) :
    displayWidth wide (readTo (fillsTo wide target count) s).cur ≤ target := by
  have reached : ∀ line ∈ (readTo (fillsTo wide target count) s).lines,
      target ≤ displayWidth wide line := by
    intro line member
    obtain ⟨front, c, back, here, rfl⟩ := (mem_lines_iff _ s line).mp member
    have parts := displayWidth_finished wide (readTo (fillsTo wide target count) front)
    rw [none_ front c back here, displayWidth_nil, add_zero] at parts
    rw [parts]
    exact ((breaksBefore_fillsTo_iff wide target count _ c).mp here.test).2.1.1
  have sum := le_displayWidth_flatten wide reached
  have whole := congrArg (displayWidth wide) (readTo_text (fillsTo wide target count) s)
  rw [displayWidth_append, total] at whole
  have lines := congrArg (Nat.cast : Nat → ℚ) full
  push_cast at lines
  rw [← lines] at whole
  linarith

/-- What may go wrong in the second loop: a block crosses the limit, or carried marks widen the last
line. -/
def Overflows (target : ℚ) (count : Nat) (limit : ℚ) (s : Str) : Prop :=
  (∃ front block back, Crosses wide target count limit s front block back) ∨
    ∃ front c back, CarriesOver wide target count limit s front c back

/-- A finished line is too wide only by a block that crosses the limit. -/
theorem overflows_of_finished (above : 2 < target) (within : target ≤ limit) {front back : Str}
    {c : CodePoint} (here : BreaksAt (fillsTo wide target count) s front c back)
    (exceeds : limit <
      displayWidth wide (strip (readTo (fillsTo wide target count) front).finished)) :
    Overflows wide target count limit s := by
  obtain ⟨_, ⟨reached, early⟩, leads⟩ :=
    (breaksBefore_fillsTo_iff wide target count _ c).mp here.test
  obtain ⟨start, e, tail, rfl, under, behind⟩ :=
    exists_block wide target count above front reached early
  have read := readTo_block wide target count under e behind
  have narrow := displayWidth_strip_le wide
    (readTo (fillsTo wide target count) (start ++ e :: tail)).finished
  rcases (readTo (fillsTo wide target count) (start ++ e :: tail)).carried_cases with
    ⟨_, same, kept⟩ | ⟨mark, opening, carried⟩
  · rw [same, read] at exceeds
    rw [read] at early kept
    refine .inl ⟨start, e :: tail, c :: back, here.text, early, under, ⟨e, tail, rfl, behind⟩, ?_,
      .inl fun d isLast => kept d ?_, exceeds⟩
    · rintro d ⟨⟩
      exact leads
    · rwa [List.getLast?_append_of_ne_nil _ (List.cons_ne_nil e tail)]
  · -- The carried mark reached the target, so the line is the one before it.
    have whole := (readTo (fillsTo wide target count) (start ++ e :: tail)).finished_append
    rw [carried] at whole
    rcases List.eq_nil_or_concat tail with rfl | ⟨tail, d, rfl⟩
    · have line := (List.append_inj' (whole.trans (congrArg WrapState.cur read)) rfl).1
      rw [line] at narrow exceeds
      linarith
    · have last := congrArg List.getLast? (whole.trans (congrArg WrapState.cur read))
      rw [List.getLast?_concat, List.concat_eq_append, ← List.cons_append, ← List.append_assoc,
        List.getLast?_concat, Option.some.injEq] at last
      have stays := staysBehind_of_noTrail mark opening
      rw [last, behind d (by simp)] at stays
      cases stays

/-- The last line is too wide by such a block or by the marks that breaks have carried. -/
theorem overflows_of_last (above : 2 < target) (within : target ≤ limit) (many : 2 ≤ count)
    (total : displayWidth wide s = count * target)
    (exceeds : limit < displayWidth wide (strip (readTo (fillsTo wide target count) s).cur)) :
    Overflows wide target count limit s := by
  have narrow := displayWidth_strip_le wide (readTo (fillsTo wide target count) s).cur
  have few := readTo_lines_le wide target count s
  rcases Nat.lt_or_ge (readTo (fillsTo wide target count) s).lines.length (count - 1) with
    early | full
  · obtain ⟨start, e, tail, rfl, under, behind⟩ :=
      exists_block wide target count above s (by linarith) early
    have read := readTo_block wide target count under e behind
    rw [read] at early exceeds
    exact .inl ⟨start, e :: tail, [], by simp, early, under, ⟨e, tail, rfl, behind⟩, nofun,
      .inr rfl, exceeds⟩
  · have some_ : (readTo (fillsTo wide target count) s).lines ≠ [] := by
      rw [← List.length_pos_iff]
      omega
    obtain ⟨front, c, back, here, lines, text⟩ :=
      @exists_break (fillsTo wide target count) s _ _ rfl some_ (List.cons_ne_nil _ [])
    rw [List.flatten_singleton] at text
    have lengths := congrArg List.length lines
    rw [linesBefore, List.length_append, List.length_singleton] at lengths
    by_cases carried : ∃ front c back, BreaksAt (fillsTo wide target count) s front c back ∧
        (readTo (fillsTo wide target count) front).carried ≠ []
    · rw [text] at exceeds
      exact .inr ⟨front, c, back, here, by omega, carried, exceeds⟩
    · have none_ : ∀ front c back, BreaksAt (fillsTo wide target count) s front c back →
          (readTo (fillsTo wide target count) front).carried = [] := by
        intro front c back here
        by_contra some_
        exact carried ⟨front, c, back, here, some_⟩
      have := cur_le_of_no_carry wide total (by omega) none_
      linarith

/-- The lines of the second loop fit exactly when neither happens. -/
theorem rawLines_within_iff (above : 2 < target) (within : target ≤ limit) (many : 2 ≤ count)
    (total : displayWidth wide s = count * target) :
    (∀ line ∈ rawLines (fillsTo wide target count) s, displayWidth wide (strip line) ≤ limit) ↔
      ¬Overflows wide target count limit s := by
  constructor
  · rintro fit (⟨front, block, back, crosses⟩ | ⟨front, c, back, here, last, _, exceeds⟩)
    · obtain ⟨line, member, exceeds⟩ := crosses.exists_line wide within
      exact not_lt.mpr (fit line member) exceeds
    · have member : (readTo (fillsTo wide target count) front).carried ++ c :: back ∈
          rawLines (fillsTo wide target count) s := by
        rw [rawLines_of_last wide here last]
        exact List.mem_append_right _ List.mem_cons_self
      exact not_lt.mpr (fit _ member) exceeds
  · intro fine line member
    by_contra exceeds
    rw [not_le] at exceeds
    rcases List.mem_append.mp member with finished | isLast
    · obtain ⟨front, c, back, here, rfl⟩ := (mem_lines_iff _ s line).mp finished
      exact fine (overflows_of_finished wide above within here exceeds)
    · rw [List.mem_singleton.mp isLast] at exceeds
      exact fine (overflows_of_last wide above within many total exceeds)

end Balance

/-- The first pass of `wrap_cjk` keeps its lines and their number within the limits. -/
structure GreedyFits (s : Str) (limit : ℚ) (maxLines : Nat) : Prop where
  count : (wrapLoop (greedyFull wide limit) s).length ≤ maxLines
  within : ∀ line ∈ wrapLoop (greedyFull wide limit) s, displayWidth wide line ≤ limit

/-- What the first pass tells about the second one. -/
structure Aims (s : Str) (limit : ℚ) (maxLines : Nat) : Prop where
  many : 2 ≤ lineCount wide s limit maxLines
  few : lineCount wide s limit maxLines ≤ maxLines
  total : displayWidth wide s =
    lineCount wide s limit maxLines * targetWidth wide s limit maxLines
  above : 2 < targetWidth wide s limit maxLines
  within : targetWidth wide s limit maxLines ≤ limit

variable {wide} in
theorem GreedyFits.aims {s : Str} {limit : ℚ} {maxLines : Nat} (wideEnough : 4 ≤ limit)
    (fits : GreedyFits wide s limit maxLines) (long : Overlong wide s limit) :
    Aims wide s limit maxLines := by
  obtain ⟨few, within⟩ := fits
  have spread := spread wide wideEnough s
  have whole := rawLines_flatten (greedyFull wide limit) s
  rw [← wrapLoop_eq _ long.1] at whole
  have bound := displayWidth_flatten_le wide within
  rw [whole] at bound
  have lines : (wrapLoop (greedyFull wide limit) s).length =
      (readTo (greedyFull wide limit) s).lines.length + 1 := by
    rw [wrapLoop_eq _ long.1, rawLines, List.length_append, List.length_singleton]
  have two : 2 ≤ (wrapLoop (greedyFull wide limit) s).length := by
    by_contra one
    have single : (wrapLoop (greedyFull wide limit) s).length = 1 := by omega
    rw [single] at bound
    have := long.2
    push_cast at bound
    linarith
  have count : lineCount wide s limit maxLines = (wrapLoop (greedyFull wide limit) s).length := by
    simp only [lineCount]
    rw [if_pos few]
    omega
  have positive : (0 : ℚ) < lineCount wide s limit maxLines := by
    rw [count]
    exact_mod_cast (by omega : 0 < (wrapLoop (greedyFull wide limit) s).length)
  have total : displayWidth wide s =
      lineCount wide s limit maxLines * targetWidth wide s limit maxLines := by
    rw [targetWidth]
    field_simp
  refine ⟨count ▸ two, count ▸ few, total, ?_, ?_⟩
  · have some_ : (readTo (greedyFull wide limit) s).lines ≠ [] := by
      rw [← List.length_pos_iff]
      omega
    have wideText := spread.text some_
    rw [targetWidth, lt_div_iff₀ positive, count, lines]
    push_cast
    exact wideText
  · rw [targetWidth, div_le_iff₀ positive, count, mul_comm]
    exact bound

/-- The lines of `wrap_cjk` are within the limits of a text that the first pass fits exactly when
its second loop does not overflow. -/
theorem wrap_cjk_within_iff (s : Str) (limit : ℚ) (maxLines : Nat) (wideEnough : 4 ≤ limit)
    (some_ : 1 ≤ maxLines) :
    (GreedyFits wide (strip s) limit maxLines →
        (∀ line ∈ wrapCjk wide s limit maxLines, displayWidth wide line ≤ limit) ∧
          (wrapCjk wide s limit maxLines).length ≤ maxLines) ↔
      (GreedyFits wide (strip s) limit maxLines → Overlong wide (strip s) limit →
        ¬Overflows wide (targetWidth wide (strip s) limit maxLines)
          (lineCount wide (strip s) limit maxLines) limit (strip s)) := by
  refine forall_congr' fun fits => ?_
  by_cases long : Overlong wide (strip s) limit
  · have aims := fits.aims wideEnough long
    rw [imp_iff_right long, wrapCjk_of_overlong wide long, balanceFull_eq,
      ← rawLines_within_iff wide aims.above aims.within aims.many aims.total]
    constructor
    · rintro ⟨within, _⟩ line member
      by_cases seen : strip line = []
      · rw [seen, displayWidth_nil]
        linarith
      · exact within (strip line) (List.mem_map_of_mem (List.mem_filter.mpr ⟨member, by simp [seen]⟩))
    · intro within
      constructor
      · intro line member
        obtain ⟨raw, kept, rfl⟩ := List.mem_map.mp member
        exact within raw (List.mem_filter.mp kept).1
      · have kept := List.length_filter_le (strip · ≠ [])
          (rawLines (fillsTo wide (targetWidth wide (strip s) limit maxLines)
            (lineCount wide (strip s) limit maxLines)) (strip s))
        have few := readTo_lines_le wide (targetWidth wide (strip s) limit maxLines)
          (lineCount wide (strip s) limit maxLines) (strip s)
        have enough := aims.few
        have many := aims.many
        rw [rawLines, List.length_append, List.length_singleton] at kept
        rw [List.length_map]
        exact kept.trans (by omega)
  · rw [wrapCjk_of_short wide long]
    refine iff_of_true ⟨fun line member => ?_, some_⟩ fun overlong => absurd overlong long
    rw [List.mem_singleton.mp member]
    rw [Overlong, not_and_or, not_not, not_lt] at long
    rcases long with empty | short
    · rw [empty, displayWidth_nil]
      linarith
    · exact short

end Width

/-- One half-width character before seven full-width ones. -/
def unevenText : Str := ofString "a我我我我我我我"

theorem wrap_cjk_within_iff_example :
    (GreedyFits isEastAsian (strip unevenText) 4 2 →
        (∀ line ∈ wrapCjk isEastAsian unevenText 4 2, displayWidth isEastAsian line ≤ 4) ∧
          (wrapCjk isEastAsian unevenText 4 2).length ≤ 2) ↔
      (GreedyFits isEastAsian (strip unevenText) 4 2 →
        Overlong isEastAsian (strip unevenText) 4 →
        ¬Overflows isEastAsian (targetWidth isEastAsian (strip unevenText) 4 2)
          (lineCount isEastAsian (strip unevenText) 4 2) 4 (strip unevenText)) :=
  wrap_cjk_within_iff isEastAsian unevenText 4 2 (le_refl 4) (by decide)

theorem uneven_greedy : wrapLoop (greedyFull isEastAsian 4) (strip unevenText) =
    [ofString "a我我我", ofString "我我我我"] := by
  decide +kernel

theorem uneven_wrapped :
    wrapCjk isEastAsian unevenText 4 2 = [ofString "a我我我我", ofString "我我我"] := by
  decide +kernel

/-- The greedy lines have 3.5 and 4 cells of full width, and the balanced ones 4.5 and 3. -/
theorem uneven_text_overflows :
    GreedyFits isEastAsian (strip unevenText) 4 2 ∧
      ¬ ∀ line ∈ wrapCjk isEastAsian unevenText 4 2, displayWidth isEastAsian line ≤ 4 := by
  refine ⟨⟨?_, ?_⟩, fun within => ?_⟩
  · rw [uneven_greedy]
    decide
  · rw [uneven_greedy]
    decide +kernel
  · rw [uneven_wrapped] at within
    exact absurd (within _ List.mem_cons_self) (by decide +kernel)

end SubtitleTranslator.Engine
