import SubtitleTranslator.Proof.VttNormalForm

namespace SubtitleTranslator.Engine
open Library Library.Text

/-- The lines after the header of a WebVTT text. -/
def vttBody (text : Str) : List Str := ((stripMark text).splitOn 0xa).tail.dropWhile inHeader

/-- The timing of a cue is what its timing line has. -/
def Cue.timing (cue : Cue) : Timing := ⟨cue.start, cue.finish, cue.rest⟩

/-- Each timing line of a text is the timing of one cue, in order, and is in the text of none. -/
def TimingsRead (body : List Str) (cues : List Cue) : Prop :=
  cues.map Cue.timing = body.filterMap vttTiming? ∧ ∀ cue ∈ cues, ∀ line ∈ cue.lines, Untimed line

theorem untimed_of_blank {line : Str} (empty : blank line = true) : Untimed line := by
  have nothing : strip line = [] := by
    have spaces : lstrip line = [] := by
      apply List.dropWhile_eq_nil_iff.mpr
      exact fun c member => List.all_eq_true.mp empty c member
    rw [strip, spaces]
    rfl
  rw [Untimed, vttTiming?, nothing]
  decide

/-- A block gives the timing of its first timing line. -/
def firstTiming (block : List Str) : List Timing := (block.filterMap vttTiming?).take 1

theorem filterMap_untimed {lines : List Str} (untimed : ∀ line ∈ lines, Untimed line) :
    lines.filterMap vttTiming? = [] :=
  List.filterMap_eq_nil_iff.mpr untimed

/-- The cues of the blocks have the first timings. -/
theorem readBlocks_timings (count : Nat) (blocks : List (List Str)) :
    (readBlocks count blocks).1.map Cue.timing = blocks.flatMap firstTiming := by
  induction blocks generalizing count with
  | nil => rfl
  | cons block blocks ih =>
      rw [List.flatMap_cons, firstTiming]
      rcases block_cases block with raw | ⟨identifier, line, timing, body, rfl, plain, timed⟩
      · rw [readBlocks_raw raw, filterMap_untimed raw, ih]
        rfl
      · rw [readBlocks_cue plain timed, List.map_cons, ih, List.filterMap_append,
          filterMap_untimed plain, List.filterMap_cons_some timed]
        rfl

/-- The texts of the cues have no timing line when no block has two. -/
theorem readBlocks_untimed {count : Nat} {blocks : List (List Str)}
    (single : ∀ block ∈ blocks, (block.filterMap vttTiming?).length ≤ 1) :
    ∀ cue ∈ (readBlocks count blocks).1, ∀ line ∈ cue.lines, Untimed line := by
  induction blocks generalizing count with
  | nil => exact List.forall_mem_nil _
  | cons block blocks ih =>
      rw [List.forall_mem_cons] at single
      rcases block_cases block with raw | ⟨identifier, line, timing, body, rfl, plain, timed⟩
      · rw [readBlocks_raw raw]
        exact ih single.2
      · rw [readBlocks_cue plain timed, List.forall_mem_cons]
        refine ⟨?_, ih single.2⟩
        have few := single.1
        rw [List.filterMap_append, filterMap_untimed plain, List.filterMap_cons_some timed,
          List.nil_append, List.length_cons] at few
        have none_ : body.filterMap vttTiming? = [] :=
          List.length_eq_zero_iff.mp (by omega)
        exact List.filterMap_eq_nil_iff.mp none_

/-- The blocks have the lines of a text that are not blank. -/
theorem blocksOf_flatten (lines : List Str) :
    (blocksOf lines).flatten = lines.filter fun line => !blank line := by
  have whole (blocks : List (List Str)) :
      (blocks.filter fun block => decide (block ≠ [])).flatten = blocks.flatten := by
    rw [List.flatten_filter_ne_nil]
  rw [blocksOf, whole]
  induction lines with
  | nil => rfl
  | cons line lines ih =>
      rw [List.splitOnP_cons_eq_if_modifyHead]
      by_cases empty : blank line = true
      · rw [if_pos empty, List.flatten_cons, ih, List.filter_cons_of_neg (by simp [empty])]
        rfl
      · rw [if_neg empty, List.filter_cons_of_pos (by simpa using empty), ← ih]
        cases parts : lines.splitOnP blank with
        | nil => exact absurd parts (List.splitOnP_ne_nil _ _)
        | cons head tail => rfl

/-- The timing lines of a text are those of its blocks. -/
theorem timings_blocksOf (lines : List Str) :
    (blocksOf lines).flatMap (·.filterMap vttTiming?) = lines.filterMap vttTiming? := by
  have seen : (lines.filter fun line => !blank line).filterMap vttTiming? =
      lines.filterMap vttTiming? := by
    rw [List.filterMap_filter]
    apply List.filterMap_congr
    intro line _
    by_cases empty : blank line = true
    · rw [if_neg (by simp [empty])]
      exact (untimed_of_blank empty).symm
    · rw [if_pos (by simpa using empty)]
  rw [← seen, ← blocksOf_flatten, List.filterMap_flatten]
  rfl

theorem length_flatMap_take_le {α : Type} (lists : List (List α)) :
    (lists.flatMap (·.take 1)).length ≤ lists.flatten.length := by
  induction lists with
  | nil => rfl
  | cons list lists ih =>
      simp only [List.flatMap_cons, List.flatten_cons, List.length_append, List.length_take]
      omega

/-- Shortened lists join to the same list exactly when none is shortened. -/
theorem flatMap_take_eq_iff {α : Type} (lists : List (List α)) :
    lists.flatMap (·.take 1) = lists.flatten ↔ ∀ list ∈ lists, list.length ≤ 1 := by
  induction lists with
  | nil => simp
  | cons list lists ih =>
      rw [List.flatMap_cons, List.flatten_cons, List.forall_mem_cons, ← ih]
      constructor
      · intro same
        have lengths := congrArg List.length same
        have bound := length_flatMap_take_le lists
        simp only [List.length_append, List.length_take] at lengths
        have front : (list.take 1).length = list.length := by
          rw [List.length_take]
          omega
        rw [List.length_take] at front
        exact ⟨by omega, List.append_inj_right same (by rw [List.length_take]; omega)⟩
      · rintro ⟨short, same⟩
        rw [List.take_of_length_le short, same]

/-- The timing lines of a WebVTT text are read exactly when no block has two of them. -/
theorem timings_read_iff {text : Str} {newline : Newline} {bom : Bool} {doc : Document}
    (parsed : parseVtt text newline bom = .ok doc) :
    TimingsRead (vttBody text) doc.cues ↔
      ∀ block ∈ blocksOf (vttBody text), (block.filter fun line => (vttTiming? line).isSome).length ≤ 1 := by
  obtain ⟨first, rest, lines, _, rfl⟩ := parseVtt_eq_ok.mp parsed
  have body : vttBody text = rest.dropWhile inHeader := by
    rw [vttBody, lines]
    rfl
  rw [body]
  have counted (block : List Str) : (block.filter fun line => (vttTiming? line).isSome).length =
      (block.filterMap vttTiming?).length := by
    rw [List.length_filterMap_eq_countP, List.countP_eq_length_filter]
  simp only [counted]
  constructor
  · rintro ⟨timings, _⟩ block member
    rw [readBlocks_timings, ← timings_blocksOf] at timings
    have same : ((blocksOf (rest.dropWhile inHeader)).map (·.filterMap vttTiming?)).flatMap
        (·.take 1) = ((blocksOf (rest.dropWhile inHeader)).map (·.filterMap vttTiming?)).flatten := by
      rw [List.flatMap_map]
      exact timings
    exact (flatMap_take_eq_iff _).mp same _ (List.mem_map_of_mem member)
  · intro single
    refine ⟨?_, readBlocks_untimed single⟩
    rw [readBlocks_timings, ← timings_blocksOf]
    apply List.flatMap_congr
    exact fun block member => List.take_of_length_le (single block member)

/-- A cue after a blank line is read. -/
def spacedText : Str :=
  ofString "WEBVTT\n\n00:01.000 --> 00:02.000\nA\n\nlate\n00:03.000 --> 00:04.000\nB"

def shortCue (index : Nat) (start finish : String) (lines : List Str) : Cue :=
  ⟨index, ofString start, ofString finish, [], lines, .vtt⟩

def spacedDoc : Document :=
  ⟨.vtt (ofString "WEBVTT") [.cue 0 [], .cue 1 [ofString "late"]],
    [shortCue 1 "00:01.000" "00:02.000" [ofString "A"],
      shortCue 2 "00:03.000" "00:04.000" [ofString "B"]], .lf, false⟩

theorem timings_read_iff_example :
    TimingsRead (vttBody spacedText) spacedDoc.cues ↔
      ∀ block ∈ blocksOf (vttBody spacedText),
        (block.filter fun line => (vttTiming? line).isSome).length ≤ 1 := by
  have parsed : parseVtt spacedText .lf false = .ok spacedDoc := by decide +kernel
  exact timings_read_iff parsed

/-- The cue after a text without a blank line is in that text. -/
def crowdedText : Str :=
  ofString "WEBVTT\n\n00:01.000 --> 00:02.000\nA\n00:03.000 --> 00:04.000\nB"

def crowdedDoc : Document :=
  ⟨.vtt (ofString "WEBVTT") [.cue 0 []],
    [shortCue 1 "00:01.000" "00:02.000"
      [ofString "A", ofString "00:03.000 --> 00:04.000", ofString "B"]], .lf, false⟩

theorem crowded_cue_is_swallowed :
    parseVtt crowdedText .lf false = .ok crowdedDoc ∧
      ¬TimingsRead (vttBody crowdedText) crowdedDoc.cues := by
  refine ⟨by decide +kernel, fun read => ?_⟩
  have lengths := congrArg List.length read.1
  revert lengths
  decide +kernel

end SubtitleTranslator.Engine
