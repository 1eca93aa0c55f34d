import SubtitleTranslator.Proof.SrtReading

namespace SubtitleTranslator.Engine
open Library Library.Text

/-- Every cue that `parse_srt` reads is well formed. -/
theorem parseSrt_fits {text : Str} {cues : List Cue} (parsed : parseSrt text = .ok cues) :
    ∀ cue ∈ cues, SrtCue cue :=
  readCues_fits (fun _ member => of_mem_lines member) parsed

theorem oneLine_of_mem_linesOrEmpty {cue : Cue} (oneLine : ∀ line ∈ cue.lines, OneLine line) :
    ∀ line ∈ linesOrEmpty cue, OneLine line := by
  unfold linesOrEmpty
  split
  · exact List.forall_mem_singleton.mpr oneLine_nil
  · exact oneLine

/-- A body without line ends puts its own lines into the file. -/
theorem bodyLines_eq (newline : Newline) {cue : Cue}
    (oneLine : ∀ line ∈ cue.lines, OneLine line) :
    bodyLines newline cue = linesOrEmpty cue ++ [[]] := by
  have all : ∀ line ∈ linesOrEmpty cue ++ [[]], OneLine line := by
    rw [List.forall_mem_append]
    exact ⟨oneLine_of_mem_linesOrEmpty oneLine, List.forall_mem_singleton.mpr oneLine_nil⟩
  rw [bodyLines, lines_join newline (by simp) fun line member => getLast?_of_oneLine (all line member)]
  conv_rhs => rw [← List.flatMap_singleton' (linesOrEmpty cue ++ [[]])]
  exact List.flatMap_congr fun line member => lines_eq_singleton (all line member)

/-- A parsed body is read back. -/
theorem bodyOf_eq (newline : Newline) {cue : Cue} (fits : SrtCue cue) :
    bodyOf (bodyLines newline cue) = cue.lines := by
  have kept : cue.lines.rdropWhile blank = cue.lines := by
    rw [List.rdropWhile_eq_self_iff]
    intro nonempty
    simp [fits.last _ (List.getLast?_eq_some_getLast nonempty)]
  have front : (linesOrEmpty cue ++ [[]]).rdropWhile blank = cue.lines := by
    rw [List.rdropWhile_concat_pos _ _ _ rfl]
    unfold linesOrEmpty
    split
    · rename_i none_
      rw [none_]
      rfl
    · exact kept
  rw [bodyOf, bodyLines_eq newline fits.oneLine, front]
  conv_rhs => rw [← List.map_id cue.lines]
  exact List.map_congr_left fits.tidied

theorem reread_eq (newline : Newline) {cue : Cue} (fits : SrtCue cue) : reread newline cue = cue := by
  rw [reread, bodyOf_eq newline fits, ← fits.dialect]

/-- The body of a parsed cue puts no timing line into the file. -/
theorem untimed_bodyLines (newline : Newline) {cue : Cue} (fits : SrtCue cue) :
    ∀ line ∈ bodyLines newline cue, isTiming line = false := by
  rw [bodyLines_eq newline fits.oneLine, List.forall_mem_append]
  refine ⟨?_, List.forall_mem_singleton.mpr isTiming_nil⟩
  unfold linesOrEmpty
  split
  · exact List.forall_mem_singleton.mpr isTiming_nil
  · exact fits.untimed

/-- Parsing what is written for the cues of a text gives the same cues. CPython writes the indices
of every file with fewer than 10 ^ 4300 cues. -/
theorem parseSrt_normal_form {text : Str} {cues : List Cue} (parsed : parseSrt text = .ok cues)
    (newline : Newline) :
    (cues.length < 10 ^ maxStrDigits → ∃ written, renderSrt newline cues = .ok written) ∧
      ∀ written, renderSrt newline cues = .ok written → parseSrt written = .ok cues := by
  have fits := parseSrt_fits parsed
  constructor
  · intro few
    refine ⟨_, renderSrt_eq.mpr ⟨fun cue member => ?_, rfl⟩⟩
    rcases readCues_index parsed cue member with small | most
    · exact small
    · omega
  · intro written rendered
    cases cues with
    | nil =>
        obtain ⟨_, rfl⟩ := renderSrt_eq.mp rendered
        rfl
    | cons cue cues =>
        have timed : ∀ other ∈ cue :: cues, Timed other := fun other member => (fits other member).timed
        rw [parseSrt, lines_renderSrt (List.cons_ne_nil _ _) timed rendered,
          readCues_file newline timed (renderSrt_eq.mp rendered).1
            fun other member => untimed_bodyLines newline (fits other member)]
        congr 1
        conv_rhs => rw [← List.map_id (cue :: cues)]
        exact List.map_congr_left fun other member => reread_eq newline (fits other member)

/-- A file with junk before its first cue, a missing index, an index-like body line, a blank line
inside a body and a missing separator. -/
def tolerantText : Str :=
  ofString "junk\r\n\r\n00:00:01,000-->00:00:02.5  X1:2 \r\nfirst\r\n42\r\n \r\nsecond\r\n7\r\n1:00:03,00 --> 00:00:04,000"

def tolerantCues : List Cue :=
  [⟨1, ofString "00:00:01,000", ofString "00:00:02.5", ofString "  X1:2",
      [ofString "first", ofString "42", [], ofString "second"], .plain⟩,
    ⟨7, ofString "1:00:03,00", ofString "00:00:04,000", [], [], .plain⟩]

theorem parseSrt_normal_form_example :
    (tolerantCues.length < 10 ^ maxStrDigits →
        ∃ written, renderSrt .crLf tolerantCues = .ok written) ∧
      ∀ written, renderSrt .crLf tolerantCues = .ok written → parseSrt written = .ok tolerantCues := by
  have parsed : parseSrt tolerantText = .ok tolerantCues := by decide +kernel
  exact parseSrt_normal_form parsed .crLf

end SubtitleTranslator.Engine
