import SubtitleTranslator.Proof.SrtReading

namespace SubtitleTranslator.Engine
open Library Library.Text

/-- The lines of a text that are not blank. -/
def seenLines (lines : List Str) : List Str := lines.filter (!blank ·)

theorem seenLines_dropWhile (lines : List Str) :
    seenLines (lines.dropWhile blank) = seenLines lines := by
  induction lines with
  | nil => rfl
  | cons line rest ih =>
      cases empty : blank line with
      | true => rw [List.dropWhile_cons_of_pos empty, ih, seenLines, seenLines,
          List.filter_cons_of_neg (by simp [empty])]
      | false => rw [List.dropWhile_cons_of_neg (by simp [empty])]

/-- The blank lines at the end of a text are not seen. -/
theorem seenLines_rdropWhile (lines : List Str) :
    seenLines (lines.rdropWhile blank) = seenLines lines := by
  have reversed := congrArg List.reverse (seenLines_dropWhile lines.reverse)
  rw [seenLines, seenLines, ← List.filter_reverse, ← List.filter_reverse,
    List.reverse_reverse] at reversed
  exact reversed

/-- A body ends where a cue starts. -/
theorem readBody_left (lines : List Str) :
    (readBody lines).2 = [] ∨ startsCue (readBody lines).2 = true := by
  fun_induction readBody lines with
  | case1 => exact .inl rfl
  | case2 line rest _ following next => exact next
  | case3 line rest _ following _ body left same ih =>
      rw [same] at ih
      exact ih
  | case4 line rest _ starts => exact .inr starts
  | case5 line rest _ _ body left same ih =>
      rw [same] at ih
      exact ih

/-- A line before a timing line that is no index line of a cue. -/
def NoIndex (line : Str) (left : List Str) : Prop :=
  isIndex line = true → left.head?.any isTiming = false

theorem noIndex_of_not_startsCue {line : Str} {rest : List Str}
    (other : startsCue (line :: rest) = false) : NoIndex line rest := by
  intro index
  cases rest with
  | nil => rfl
  | cons next rest =>
      rw [startsCue, Bool.or_eq_false_iff, index, Bool.true_and] at other
      exact other.2

/-- The last line of a text is its first line only when it is alone. -/
theorem forall_getLast?_cons {holds : Str → Prop} {line : Str} {rest : List Str}
    (alone : rest = [] → holds line) (last : ∀ other ∈ rest.getLast?, holds other) :
    ∀ other ∈ (line :: rest).getLast?, holds other := by
  cases rest with
  | nil =>
      intro other back
      cases back
      exact alone rfl
  | cons next rest =>
      intro other back
      rw [List.getLast?_cons_cons] at back
      exact last other back

/-- A body takes the lines before the next cue: it has no timing line, keeps what is seen, and does
not end with an index line. -/
theorem readBody_spec (lines : List Str) :
    ∃ consumed, lines = consumed ++ (readBody lines).2 ∧
      (∀ line ∈ consumed, isTiming line = false) ∧
      seenLines (readBody lines).1 = seenLines consumed ∧
      ∀ line ∈ consumed.getLast?, NoIndex line (readBody lines).2 := by
  fun_induction readBody lines with
  | case1 => exact ⟨[], rfl, by simp, rfl, by simp⟩
  | case2 line rest empty following _ =>
      have blanks : ∀ other ∈ line :: rest.takeWhile blank, blank other = true :=
        List.forall_mem_cons.mpr ⟨empty, fun other member => List.mem_takeWhile_imp member⟩
      refine ⟨line :: rest.takeWhile blank, ?_, ?_, ?_, ?_⟩
      · rw [List.cons_append, List.takeWhile_append_dropWhile]
      · exact fun other member => isTiming_of_blank (blanks other member)
      · exact (List.filter_eq_nil_iff.mpr fun other member => by simp [blanks other member]).symm
      · intro other back index
        have gap := blanks other (List.mem_of_getLast? back)
        rw [blank_of_isIndex index] at gap
        cases gap
  | case3 line rest empty following other body left same ih =>
      rw [same] at ih
      obtain ⟨consumed, split, untimed, seen, last⟩ := ih
      refine ⟨line :: consumed, congrArg (line :: ·) split,
        List.forall_mem_cons.mpr ⟨isTiming_of_blank empty, untimed⟩, ?_, ?_⟩
      · rw [seenLines, seenLines, List.filter_cons_of_neg (by decide),
          List.filter_cons_of_neg (by simp [empty])]
        exact seen
      · refine forall_getLast?_cons (fun _ index => ?_) last
        rw [blank_of_isIndex index] at empty
        cases empty
  | case4 line rest _ starts => exact ⟨[], rfl, by simp, rfl, by simp⟩
  | case5 line rest visible starts body left same ih =>
      rw [same] at ih
      obtain ⟨consumed, split, untimed, seen, last⟩ := ih
      have other : startsCue (line :: rest) = false := by simpa using starts
      refine ⟨line :: consumed, congrArg (line :: ·) split,
        List.forall_mem_cons.mpr ⟨isTiming_of_not_startsCue other, untimed⟩, ?_, ?_⟩
      · rw [seenLines, seenLines, List.filter_cons_of_pos (by simpa using visible),
          List.filter_cons_of_pos (by simpa using visible)]
        exact congrArg (line :: ·) seen
      · refine forall_getLast?_cons (fun alone => ?_) last
        rw [alone, List.nil_append] at split
        exact split ▸ noIndex_of_not_startsCue other

/-- The lines of a cue in a file: its index line if it has one, its timing line, and the lines up to
the next cue. -/
structure SrtGroup where
  index : Option Str
  header : Str
  timing : Timing
  body : List Str
  digits : ∀ line ∈ index, isIndex line = true
  timed : timing? header = some timing
  untimed : ∀ line ∈ body, isTiming line = false

def SrtGroup.lines (group : SrtGroup) : List Str := group.index.toList ++ group.header :: group.body

/-- A digits-only line directly before a timing line is the index of its cue. -/
def IndexesTaken : List Str → List SrtGroup → Prop
  | _, [] => True
  | before, group :: groups =>
      (group.index = none → ∀ line ∈ before.getLast?, isIndex line = false) ∧
        IndexesTaken group.body groups

/-- A cue holds the timing of its timing line, its index or its number, and every line of its group
that is not blank, in order. -/
structure GroupRead (number : Nat) (group : SrtGroup) (cue : Cue) : Prop where
  start : cue.start = group.timing.start
  finish : cue.finish = group.timing.finish
  rest : cue.rest = rstrip group.timing.rest
  index : (group.index.elim (.ok number) fun line => int (strip line)) = .ok cue.index
  lines : seenLines cue.lines = seenLines group.body

/-- The groups are read in order, with the numbers from the first one on. -/
inductive GroupsRead : Nat → List SrtGroup → List Cue → Prop
  | nil (number : Nat) : GroupsRead number [] []
  | cons {number : Nat} {group : SrtGroup} {groups : List SrtGroup} {cue : Cue} {cues : List Cue}
      (read : GroupRead number group cue) (others : GroupsRead (number + 1) groups cues) :
      GroupsRead number (group :: groups) (cue :: cues)

/-- The lines of a file are those before its first cue, and the groups of its cues. -/
structure Divided (auto : Nat) (lines : List Str) (cues : List Cue) (front : List Str)
    (groups : List SrtGroup) : Prop where
  split : lines = front ++ groups.flatMap SrtGroup.lines
  untimed : ∀ line ∈ front, isTiming line = false
  indexes : IndexesTaken front groups
  read : GroupsRead (auto + 1) groups cues

/-- The line before a group without an index is no index line. -/
theorem IndexesTaken.before {before : List Str} {groups : List SrtGroup}
    (taken : IndexesTaken [] groups)
    (last : ∀ line ∈ before.getLast?, NoIndex line (groups.flatMap SrtGroup.lines)) :
    IndexesTaken before groups := by
  cases groups with
  | nil => trivial
  | cons group groups =>
      refine ⟨fun unnumbered line back => ?_, taken.2⟩
      by_contra index
      have other := last line back (by simpa using index)
      rw [List.flatMap_cons, SrtGroup.lines, unnumbered] at other
      have timed : isTiming group.header = true := by
        rw [isTiming, group.timed]
        rfl
      rw [Option.toList_none, List.nil_append, List.cons_append, List.head?_cons, Option.any_some,
        timed] at other
      cases other

theorem IndexesTaken.nil {before : List Str} {groups : List SrtGroup}
    (taken : IndexesTaken before groups) : IndexesTaken [] groups := by
  cases groups with
  | nil => trivial
  | cons group groups => exact ⟨fun _ line back => (by cases back), taken.2⟩

theorem IndexesTaken.noIndex {before : List Str} {groups : List SrtGroup}
    (taken : IndexesTaken before groups) :
    ∀ line ∈ before.getLast?, NoIndex line (groups.flatMap SrtGroup.lines) := by
  intro line back digits
  cases groups with
  | nil => rfl
  | cons group groups =>
      rw [List.flatMap_cons, SrtGroup.lines]
      cases found : group.index with
      | none =>
          rw [taken.1 found line back] at digits
          cases digits
      | some index => exact isTiming_of_isIndex (group.digits index found)

/-- A cue starts with its index line if it has one, and its timing line. -/
theorem readIndex_group {line header : Str} {rest after : List Str} {index : Option Nat}
    (read : readIndex line rest = .ok (index, header :: after)) (number : Nat) :
    ∃ front : Option Str, line :: rest = front.toList ++ header :: after ∧
      (∀ other ∈ front, isIndex other = true) ∧
      (front.elim (.ok number) fun other => int (strip other)) = .ok (index.getD number) := by
  rcases of_readIndex read with ⟨rfl, same, _⟩ | ⟨isNumber, _, rfl, n, converted, rfl⟩
  · exact ⟨none, same.symm, by simp, rfl⟩
  · exact ⟨some line, rfl, by simpa using isNumber, converted⟩

/-- Every line of a file is before its first cue or in the group of one cue. -/
theorem readCues_divided {auto : Nat} {lines : List Str} {cues : List Cue}
    (read : readCues 0 auto lines = .ok cues) :
    ∃ front groups, Divided auto lines cues front groups ∧ (startsCue lines = true → front = []) := by
  refine @readCues_induction (fun auto lines cues => ∃ front groups,
    Divided auto lines cues front groups ∧ (startsCue lines = true → front = [])) (fun auto => ?_)
    ?_ ?_ auto lines cues read
  · exact ⟨[], [], ⟨rfl, List.forall_mem_nil _, trivial, .nil _⟩, fun _ => rfl⟩
  · rintro auto line rest cues other ⟨front, groups, ⟨split, untimed, indexes, read⟩, _⟩
    refine ⟨line :: front, groups, ⟨congrArg (line :: ·) split,
      List.forall_mem_cons.mpr ⟨isTiming_of_not_startsCue other, untimed⟩, ?_, read⟩, ?_⟩
    · refine indexes.nil.before (forall_getLast?_cons (fun alone => ?_) indexes.noIndex)
      rw [alone, List.nil_append] at split
      rw [← split]
      exact noIndex_of_not_startsCue other
    · intro starts
      rw [other] at starts
      cases starts
  · rintro auto line rest index header after timing cues isHeader timed
      ⟨front, groups, ⟨left, _, indexes, read⟩, starts⟩
    have nothing : front = [] := by
      rcases readBody_left after with ended | next
      · rw [ended] at left
        exact (List.append_eq_nil_iff.mp left.symm).1
      · exact starts next
    subst nothing
    obtain ⟨number, whole, digits, counted⟩ := readIndex_group isHeader (auto + 1)
    obtain ⟨consumed, split, untimed, seen, last⟩ := readBody_spec after
    rw [left, List.nil_append] at split last
    let group : SrtGroup := ⟨number, header, timing, consumed, digits, timed, untimed⟩
    refine ⟨[], group :: groups, ⟨?_, List.forall_mem_nil _, ?_, ?_⟩, fun _ => rfl⟩
    · rw [whole, split, List.nil_append, List.flatMap_cons, SrtGroup.lines]
      simp [group]
    · exact ⟨fun _ other back => (by cases back), indexes.before last⟩
    · refine .cons ⟨rfl, rfl, rfl, counted, ?_⟩ read
      rw [srtCue, seenLines_rdropWhile, seen]

/-- `int` converts each digits-only line directly before a timing line. -/
def IndexesReadable (lines : List Str) : Prop :=
  ∀ before line header after, lines = before ++ line :: header :: after →
    isIndex line = true → isTiming header = true → (strip line).length ≤ maxStrDigits

theorem IndexesReadable.tail {line : Str} {rest : List Str}
    (readable : IndexesReadable (line :: rest)) : IndexesReadable rest := by
  intro before other header after split
  exact readable (line :: before) other header after (by rw [split]; rfl)

/-- The parser comes to the end of every text whose index lines can be read. -/
theorem readCues_total {lines : List Str} (readable : IndexesReadable lines) (taken auto : Nat) :
    ∃ cues, readCues taken auto lines = .ok cues := by
  induction lines generalizing taken auto with
  | nil => exact ⟨[], by cases taken <;> rfl⟩
  | cons line rest ih =>
      cases taken with
      | succ taken => exact ih readable.tail taken auto
      | zero =>
          rw [readCues]
          split
          · exact ih readable.tail 0 auto
          · have header : ∃ found, readIndex line rest = .ok found := by
              rw [readIndex]
              split
              · rename_i found
                rw [Bool.and_eq_true] at found
                cases rest with
                | nil => cases found.2
                | cons next rest =>
                    have short := readable [] line next rest rfl found.1 found.2
                    rw [int, int?, if_pos short]
                    exact ⟨_, rfl⟩
              · exact ⟨_, rfl⟩
            obtain ⟨⟨index, header⟩, found⟩ := header
            rw [found]
            simp only [bind, Except.bind]
            split
            · exact ih readable.tail 0 auto
            · obtain ⟨cues, read⟩ := ih readable.tail
                (rest.length - (readBody header.tail).2.length) (auto + 1)
              rw [read]
              exact ⟨_, rfl⟩

theorem timings_of_untimed {lines : List Str} (untimed : ∀ line ∈ lines, isTiming line = false) :
    lines.filterMap timing? = [] := by
  rw [List.filterMap_eq_nil_iff]
  intro line member
  have none_ := untimed line member
  rw [isTiming, Option.isSome_eq_false_iff, Option.isNone_iff_eq_none] at none_
  exact none_

/-- Each timing line of the groups is the timing of one cue, in order. -/
theorem GroupsRead.timings {number : Nat} {groups : List SrtGroup} {cues : List Cue}
    (read : GroupsRead number groups cues) :
    cues.map (fun cue => (cue.start, cue.finish, cue.rest)) =
      ((groups.flatMap SrtGroup.lines).filterMap timing?).map
        fun timing => (timing.start, timing.finish, rstrip timing.rest) := by
  induction read with
  | nil => rfl
  | @cons number group groups cue cues read others ih =>
      have index : group.index.toList.filterMap timing? = [] :=
        timings_of_untimed fun line member =>
          isTiming_of_isIndex (group.digits line (by simpa using member))
      rw [List.flatMap_cons, SrtGroup.lines, List.filterMap_append, List.filterMap_append, index,
        List.filterMap_cons_some group.timed, timings_of_untimed group.untimed, List.map_cons, ih,
        read.start, read.finish, read.rest]
      rfl

/-- No line of a text is lost: each timing line makes one cue with its timing, and every other line
that is not blank is before the first cue, is the index of a cue, or is in the body of one cue. -/
theorem srt_lines_kept {text : Str} (readable : IndexesReadable (lines (stripMark text))) :
    ∃ cues front groups, parseSrt text = .ok cues ∧
      Divided 0 (lines (stripMark text)) cues front groups ∧
      cues.map (fun cue => (cue.start, cue.finish, cue.rest)) =
        ((lines (stripMark text)).filterMap timing?).map
          fun timing => (timing.start, timing.finish, rstrip timing.rest) := by
  obtain ⟨cues, read⟩ := readCues_total readable 0 0
  obtain ⟨front, groups, divided, _⟩ := readCues_divided read
  refine ⟨cues, front, groups, read, divided, ?_⟩
  rw [divided.split, List.filterMap_append, timings_of_untimed divided.untimed]
  exact divided.read.timings

theorem IndexesReadable.of_short {lines : List Str}
    (short : ∀ line ∈ lines, line.length ≤ maxStrDigits) : IndexesReadable lines := by
  intro before line header after split _ _
  refine (strip_length_le line).trans (short line ?_)
  rw [split]
  exact List.mem_append_right _ List.mem_cons_self

/-- A text with a line before its cues, a stray number and a missing blank line. -/
def looseText : Str :=
  ofString "intro\n7\n1\n00:00:01,000 --> 00:00:02,000 X1 \nHi\n\n5\n\nB\n00:00:02,000 --> 00:00:03,000"

example : (parseSrt looseText).toOption.map (·.map Cue.lines) =
    some [[ofString "Hi", [], ofString "5", [], ofString "B"], []] := by
  decide +kernel

theorem srt_lines_kept_example :
    ∃ cues front groups, parseSrt looseText = .ok cues ∧
      Divided 0 (lines (stripMark looseText)) cues front groups ∧
      cues.map (fun cue => (cue.start, cue.finish, cue.rest)) =
        ((lines (stripMark looseText)).filterMap timing?).map
          fun timing => (timing.start, timing.finish, rstrip timing.rest) :=
  srt_lines_kept (.of_short (by decide +kernel))

end SubtitleTranslator.Engine
