import SubtitleTranslator.Proof.CjkBreaks
import SubtitleTranslator.Proof.WrapForm

namespace SubtitleTranslator.Engine
open Library Library.Text

theorem isSpace_of_noLead : ∀ c ∈ noLead, isSpace c = false := by
  have all : noLead.all (fun c => !isSpace c) = true := by decide +kernel
  simpa using all

theorem isSpace_of_noTrail : ∀ c ∈ noTrail, isSpace c = false := by
  have all : noTrail.all (fun c => !isSpace c) = true := by decide +kernel
  simpa using all

/-- Opening marks may start a line, and they are no placeholders. -/
theorem staysBehind_of_noTrail : ∀ c ∈ noTrail, staysBehind c = false := by
  have all : noTrail.all (fun c => !staysBehind c) = true := by decide +kernel
  simpa using all

theorem isPlaceholder_of_noTrail {c : CodePoint} (opening : c ∈ noTrail) :
    isPlaceholder c = false := by
  have stays := staysBehind_of_noTrail c opening
  rw [staysBehind, Bool.or_eq_false_iff] at stays
  exact stays.2

theorem isSpace_of_staysBehind {c : CodePoint} (behind : staysBehind c = true) :
    isSpace c = false := by
  rw [staysBehind, Bool.or_eq_true, decide_eq_true_eq] at behind
  rcases behind with closing | mark
  · exact isSpace_of_noLead c closing
  · exact isSpace_of_isPlaceholder mark

/-- A text that starts, after whitespace, with a character that may not start a line. -/
def StartsBehind (text : Str) : Prop :=
  ∃ spaces d rest, text = spaces ++ d :: rest ∧ (∀ e ∈ spaces, isSpace e = true) ∧
    staysBehind d = true

/-- A text that ends with an opening mark, then placeholders, then whitespace. -/
def EndsOpen (text : Str) : Prop :=
  ∃ before mark tags spaces, text = before ++ mark :: (tags ++ spaces) ∧ mark ∈ noTrail ∧
    (∀ e ∈ tags, isPlaceholder e = true) ∧ ∀ e ∈ spaces, isSpace e = true

/-- The stripped text starts with the character behind the whitespace. -/
theorem startsBehind_iff (text : Str) :
    StartsBehind text ↔ ∃ c ∈ (strip text).head?, staysBehind c = true := by
  constructor
  · rintro ⟨spaces, d, rest, rfl, blank, behind⟩
    have seen := isSpace_of_staysBehind behind
    obtain ⟨front, back, whole, before, _⟩ := exists_strip (spaces ++ d :: rest)
    have some_ : strip (spaces ++ d :: rest) ≠ [] :=
      strip_ne_nil (visible_ne_nil (List.mem_append_right _ List.mem_cons_self) seen)
    obtain ⟨c, isFirst, visible⟩ := (strip_solid some_).front
    have starts : c ∈ (strip (spaces ++ d :: rest) ++ back).head? := by
      rw [List.head?_append, Option.mem_def.mp isFirst]
      rfl
    -- Both sides lose the same whitespace at the front.
    have same := congrArg lstrip whole
    rw [lstrip_append spaces ⟨d, rfl, seen⟩, List.append_assoc,
      lstrip_append front ⟨c, starts, visible⟩] at same
    rw [show lstrip spaces = [] from List.dropWhile_eq_nil_iff.mpr blank,
      show lstrip front = [] from List.dropWhile_eq_nil_iff.mpr before, List.nil_append,
      List.nil_append] at same
    rw [← same, List.head?_cons, Option.mem_some_iff] at starts
    rw [← starts] at isFirst
    exact ⟨d, isFirst, behind⟩
  · rintro ⟨c, isFirst, behind⟩
    obtain ⟨front, back, whole, before, _⟩ := exists_strip text
    obtain ⟨rest, same⟩ := List.head?_eq_some_iff.mp isFirst
    exact ⟨front, c, rest ++ back, by rw [whole, same]; simp, before, behind⟩

theorem getLast?_not_space {mark : CodePoint} {tags : Str} (opening : mark ∈ noTrail)
    (marks : ∀ e ∈ tags, isPlaceholder e = true) (before : Str) :
    ∃ c ∈ (before ++ mark :: tags).getLast?, isSpace c = false := by
  rcases List.eq_nil_or_concat tags with rfl | ⟨tags, tag, rfl⟩
  · exact ⟨mark, by simp, isSpace_of_noTrail mark opening⟩
  · have isLast : (before ++ mark :: tags.concat tag).getLast? = some tag := by
      rw [List.concat_eq_append, ← List.cons_append, ← List.append_assoc, List.getLast?_concat]
    exact ⟨tag, isLast, isSpace_of_isPlaceholder (marks tag (by simp))⟩

theorem rdropWhile_append {tags : Str} (marks : ∀ e ∈ tags, isPlaceholder e = true) (front : Str) :
    (front ++ tags).rdropWhile isPlaceholder = front.rdropWhile isPlaceholder := by
  have reversed : ∀ e ∈ tags.reverse, isPlaceholder e = true :=
    fun e member => marks e (List.mem_reverse.mp member)
  rw [List.rdropWhile, List.reverse_append, List.dropWhile_append_of_pos reversed, List.rdropWhile]

/-- The stripped text ends with the opening mark when its last placeholders are ignored. -/
theorem endsOpen_iff (text : Str) :
    EndsOpen text ↔ ∃ c ∈ ((strip text).rdropWhile isPlaceholder).getLast?, c ∈ noTrail := by
  constructor
  · rintro ⟨before, mark, tags, spaces, rfl, opening, marks, blank⟩
    have seen := isSpace_of_noTrail mark opening
    have stripped : strip (before ++ mark :: (tags ++ spaces)) = lstrip before ++ mark :: tags := by
      have noBack : rstrip spaces = [] := List.rdropWhile_eq_nil_iff.mpr blank
      rw [strip, lstrip_append before ⟨mark, rfl, seen⟩, ← List.cons_append, ← List.append_assoc,
        rstrip_append (getLast?_not_space opening marks _), noBack, List.append_nil]
    have tagsGo : (lstrip before ++ mark :: tags).rdropWhile isPlaceholder =
        lstrip before ++ [mark] := by
      rw [List.append_cons, rdropWhile_append marks]
      exact List.rdropWhile_concat_neg _ _ _ (by simp [isPlaceholder_of_noTrail opening])
    exact ⟨mark, by rw [stripped, tagsGo]; simp, opening⟩
  · rintro ⟨mark, isLast, opening⟩
    obtain ⟨front, back, whole, _, after⟩ := exists_strip text
    obtain ⟨before, same⟩ := List.getLast?_eq_some_iff.mp isLast
    have split : (strip text).rdropWhile isPlaceholder ++ (strip text).rtakeWhile isPlaceholder =
        strip text := List.rdropWhile_append_rtakeWhile ..
    refine ⟨front ++ before, mark, (strip text).rtakeWhile isPlaceholder, back, ?_, opening,
      fun e => List.mem_rtakeWhile_imp, after⟩
    calc text = front ++ strip text ++ back := whole
      _ = front ++ (before ++ [mark] ++ (strip text).rtakeWhile isPlaceholder) ++ back := by
          rw [← same, split]
      _ = _ := by simp

theorem StartsBehind.append {line : Str} (starts : StartsBehind line) (more : Str) :
    StartsBehind (line ++ more) := by
  obtain ⟨spaces, d, rest, rfl, blank, behind⟩ := starts
  exact ⟨spaces, d, rest ++ more, by simp, blank, behind⟩

/-- One of the lines of a text starts as the text does. -/
theorem StartsBehind.exists_line {lines : List Str} (starts : StartsBehind lines.flatten) :
    ∃ line ∈ lines, StartsBehind line := by
  induction lines with
  | nil =>
      obtain ⟨spaces, d, rest, whole, _⟩ := starts
      simp at whole
  | cons line lines ih =>
      obtain ⟨spaces, d, rest, whole, blank, behind⟩ := starts
      rw [List.flatten_cons] at whole
      rcases List.append_eq_append_iff.mp whole with ⟨more, same, later⟩ | ⟨more, same, later⟩
      · have starts : StartsBehind lines.flatten :=
          ⟨more, d, rest, later, fun e member => blank e (by simp [same, member]), behind⟩
        obtain ⟨other, member, starts⟩ := ih starts
        exact ⟨other, List.mem_cons_of_mem line member, starts⟩
      · cases more with
        | nil =>
            rw [List.nil_append] at later
            have starts : StartsBehind lines.flatten := ⟨[], d, rest, later.symm, nofun, behind⟩
            obtain ⟨other, member, starts⟩ := ih starts
            exact ⟨other, List.mem_cons_of_mem line member, starts⟩
        | cons e more =>
            cases later
            exact ⟨line, List.mem_cons_self, spaces, d, more, same, blank, behind⟩

/-- The lines of `wrap_cjk` are the raw lines without the blank ones. -/
def shown (lines : List Str) : List Str := (lines.filter (strip · ≠ [])).map strip

theorem shown_append (before after : List Str) :
    shown (before ++ after) = shown before ++ shown after := by
  simp [shown]

theorem mem_shown {lines : List Str} {line : Str} :
    line ∈ shown lines ↔ ∃ raw ∈ lines, strip raw ≠ [] ∧ line = strip raw := by
  simp only [shown, List.mem_map, List.mem_filter, decide_eq_true_eq, and_assoc]
  exact exists_congr fun raw => and_congr_right fun _ => and_congr_right fun _ => eq_comm

/-- Nothing is shown of blank lines only. -/
theorem blank_of_shown {lines : List Str} (none_ : shown lines = []) :
    ∀ c ∈ lines.flatten, isSpace c = true := by
  intro c member
  obtain ⟨line, inLines, inLine⟩ := List.mem_flatten.mp member
  by_contra seen
  rw [Bool.not_eq_true] at seen
  have kept := mem_shown.mpr ⟨line, inLines, strip_ne_nil (visible_ne_nil inLine seen), rfl⟩
  rw [none_] at kept
  exact List.not_mem_nil kept

theorem mem_tail_shown {lines : List Str} {line : Str} :
    line ∈ (shown lines).tail ↔ ∃ before raw after, lines = before ++ raw :: after ∧
      shown before ≠ [] ∧ strip raw ≠ [] ∧ line = strip raw := by
  constructor
  · intro member
    induction lines with
    | nil => simp [shown] at member
    | cons first lines ih =>
        by_cases blank : strip first = []
        · have same : shown (first :: lines) = shown lines := by simp [shown, blank]
          rw [same] at member
          obtain ⟨before, raw, after, split, some_, seen, equal⟩ := ih member
          refine ⟨first :: before, raw, after, by rw [split]; rfl, ?_, seen, equal⟩
          simpa [shown, blank] using some_
        · have same : shown (first :: lines) = strip first :: shown lines := by
            simp [shown, blank]
          rw [same, List.tail_cons, mem_shown] at member
          obtain ⟨raw, inLines, seen, equal⟩ := member
          obtain ⟨before, after, split⟩ := List.append_of_mem inLines
          exact ⟨first :: before, raw, after, by rw [split]; rfl, by simp [shown, blank], seen,
            equal⟩
  · rintro ⟨before, raw, after, rfl, some_, seen, rfl⟩
    obtain ⟨first, more, same⟩ := List.exists_cons_of_ne_nil some_
    rw [shown_append, same, List.cons_append, List.tail_cons]
    exact List.mem_append_right _ (mem_shown.mpr ⟨raw, List.mem_cons_self, seen, rfl⟩)

/-- A mark that a break carries may start a line. -/
theorem carried_eq_nil {state : WrapState} {rest : Str}
    (starts : StartsBehind (state.carried ++ rest)) : state.carried = [] := by
  rcases state.carried_cases with ⟨none_, _⟩ | ⟨mark, opening, carried⟩
  · exact none_
  · obtain ⟨spaces, d, rest, whole, blank, behind⟩ := starts
    rw [carried, List.singleton_append] at whole
    cases spaces with
    | nil =>
        cases whole
        rw [staysBehind_of_noTrail mark opening] at behind
        cases behind
    | cons e spaces =>
        cases whole
        have space := blank mark List.mem_cons_self
        rw [isSpace_of_noTrail mark opening] at space
        cases space

section Loop
variable {full : WrapState → CodePoint → Bool} {s : Str}

/-- Something is shown before a break that carries nothing. -/
theorem shown_linesBefore (solid : Solid s) {front back : Str} {c : CodePoint}
    (here : BreaksAt full s front c back) (carried : (readTo full front).carried = []) :
    shown (linesBefore full front) ≠ [] := by
  intro none_
  have read : (linesBefore full front).flatten = front := by
    have whole := (readTo full front).finished_append
    rw [carried, List.append_nil] at whole
    rw [linesBefore, List.flatten_append, List.flatten_singleton, whole, readTo_text]
  have blank := blank_of_shown none_
  rw [read] at blank
  obtain ⟨first, isFirst, seen⟩ := solid.front
  rw [here.text] at isFirst
  cases front with
  | nil =>
      have empty := here.test
      simp [breaksBefore, readTo] at empty
  | cons e front =>
      obtain rfl : e = first := by simpa using isFirst
      rw [blank e List.mem_cons_self] at seen
      cases seen

/-- A shown line starts badly exactly when a break leaves such a text. -/
theorem startsBehind_shown_iff (solid : Solid s) :
    (∃ line ∈ (shown (rawLines full s)).tail, ∃ c ∈ line.head?, staysBehind c = true) ↔
      ∃ front c back, BreaksAt full s front c back ∧
        StartsBehind ((readTo full front).carried ++ c :: back) := by
  constructor
  · rintro ⟨line, member, starts⟩
    obtain ⟨before, raw, after, split, some_, _, rfl⟩ := mem_tail_shown.mp member
    have nonempty : before ≠ [] := by
      rintro rfl
      exact some_ rfl
    obtain ⟨front, c, back, here, _, text⟩ := exists_break split nonempty (List.cons_ne_nil _ _)
    refine ⟨front, c, back, here, ?_⟩
    rw [← text, List.flatten_cons]
    exact ((startsBehind_iff raw).mpr starts).append _
  · rintro ⟨front, c, back, here, starts⟩
    obtain ⟨after, split, text⟩ := here.split
    have before := shown_linesBefore solid here (carried_eq_nil starts)
    rw [← text] at starts
    obtain ⟨raw, inAfter, starts⟩ := starts.exists_line
    obtain ⟨d, isFirst, behind⟩ := (startsBehind_iff raw).mp starts
    obtain ⟨others, more, rfl⟩ := List.append_of_mem inAfter
    refine ⟨strip raw, mem_tail_shown.mpr ⟨linesBefore full front ++ others, raw, more, ?_, ?_, ?_,
      rfl⟩, d, isFirst, behind⟩
    · rw [split, List.append_assoc]
    · rw [shown_append]
      exact List.append_ne_nil_of_left_ne_nil before _
    · exact List.ne_nil_of_mem (List.mem_of_mem_head? isFirst)

/-- The last line is always shown. -/
theorem shown_rawLines (solid : Solid s) :
    shown (rawLines full s) = shown (readTo full s).lines ++ [strip (readTo full s).cur] := by
  obtain ⟨last, isLast, seen⟩ := solid.back
  have started : s ≠ [] := by
    rintro rfl
    cases isLast
  have inCur : last ∈ (readTo full s).cur := by
    rw [← readTo_text full s, List.getLast?_append_of_ne_nil _ (readTo_cur_ne_nil full started)]
      at isLast
    exact List.mem_of_getLast? isLast
  have kept : strip (readTo full s).cur ≠ [] := strip_ne_nil (visible_ne_nil inCur seen)
  rw [rawLines, shown_append]
  simp [shown, kept]

/-- A shown line ends badly exactly when a break finishes such a line. -/
theorem endsOpen_shown_iff (solid : Solid s) :
    (∃ line ∈ (shown (rawLines full s)).dropLast,
        ∃ c ∈ (line.rdropWhile isPlaceholder).getLast?, c ∈ noTrail) ↔
      ∃ front c back, BreaksAt full s front c back ∧ EndsOpen (readTo full front).finished := by
  rw [shown_rawLines solid, List.dropLast_concat]
  constructor
  · rintro ⟨line, member, ends⟩
    obtain ⟨raw, inLines, _, rfl⟩ := mem_shown.mp member
    obtain ⟨front, c, back, here, rfl⟩ := (mem_lines_iff full s raw).mp inLines
    exact ⟨front, c, back, here, (endsOpen_iff _).mpr ends⟩
  · rintro ⟨front, c, back, here, ends⟩
    have inLines := (mem_lines_iff full s _).mpr ⟨front, c, back, here, rfl⟩
    obtain ⟨mark, isLast, opening⟩ := (endsOpen_iff _).mp ends
    have kept : strip (readTo full front).finished ≠ [] := by
      intro empty
      rw [empty, List.rdropWhile_nil] at isLast
      cases isLast
    exact ⟨_, mem_shown.mpr ⟨_, inLines, kept, rfl⟩, mark, isLast, opening⟩

end Loop

/-- No line but the first starts with closing punctuation or a placeholder, and no line but the last
ends with an opening mark. -/
structure LinesRespectPunctuation (lines : List Str) : Prop where
  starts : ∀ line ∈ lines.tail, ∀ c ∈ line.head?, c ∉ noLead ∧ isPlaceholder c = false
  ends : ∀ line ∈ lines.dropLast, ∀ c ∈ (line.rdropWhile isPlaceholder).getLast?, c ∉ noTrail

/-- A break that leaves whitespace before a character that may not start a line, or an opening mark
before placeholders and whitespace. -/
def BreaksBadly (full : WrapState → CodePoint → Bool) (s : Str) : Prop :=
  ∃ front c back, BreaksAt full s front c back ∧
    (StartsBehind ((readTo full front).carried ++ c :: back) ∨
      EndsOpen (readTo full front).finished)

theorem linesRespectPunctuation_shown_iff {full : WrapState → CodePoint → Bool} {s : Str}
    (solid : Solid s) :
    LinesRespectPunctuation (shown (rawLines full s)) ↔ ¬BreaksBadly full s := by
  have may (c : CodePoint) : (c ∉ noLead ∧ isPlaceholder c = false) ↔ ¬staysBehind c = true := by
    simp [staysBehind]
  constructor
  · rintro ⟨starts, ends⟩ ⟨front, c, back, here, behind | opened⟩
    · obtain ⟨line, member, d, isFirst, bad⟩ :=
        (startsBehind_shown_iff solid).mpr ⟨front, c, back, here, behind⟩
      exact (may d).mp (starts line member d isFirst) bad
    · obtain ⟨line, member, mark, isLast, bad⟩ :=
        (endsOpen_shown_iff solid).mpr ⟨front, c, back, here, opened⟩
      exact ends line member mark isLast bad
  · intro good
    constructor
    · intro line member c isFirst
      refine (may c).mpr fun bad => good ?_
      obtain ⟨front, d, back, here, behind⟩ :=
        (startsBehind_shown_iff solid).mp ⟨line, member, c, isFirst, bad⟩
      exact ⟨front, d, back, here, .inl behind⟩
    · intro line member mark isLast bad
      obtain ⟨front, d, back, here, opened⟩ :=
        (endsOpen_shown_iff solid).mp ⟨line, member, mark, isLast, bad⟩
      exact good ⟨front, d, back, here, .inr opened⟩

section Width
variable (wide : CodePoint → Bool)

/-- `wrap_cjk` respects punctuation exactly when no break of an overlong text goes wrong. -/
theorem wrap_cjk_punctuation_iff (s : Str) (limit : ℚ) (maxLines : Nat) :
    LinesRespectPunctuation (wrapCjk wide s limit maxLines) ↔
      (Overlong wide (strip s) limit →
        ¬BreaksBadly (balanceFull wide (strip s) limit maxLines) (strip s)) := by
  by_cases long : Overlong wide (strip s) limit
  · rw [wrapCjk_of_overlong wide long]
    rw [imp_iff_right long]
    exact linesRespectPunctuation_shown_iff (strip_solid long.1)
  · rw [wrapCjk_of_short wide long]
    exact iff_of_true ⟨nofun, nofun⟩ fun overlong => absurd overlong long

end Width

/-- East Asian width on the characters of the runs below. -/
def isEastAsian (c : CodePoint) : Bool := 0x2e80 ≤ c.val

theorem spaced_stop_wrapped :
    wrapCjk isEastAsian (ofString "我我 。") 2 2 = [ofString "我我", ofString "。"] := by
  decide +kernel

theorem brackets_wrapped :
    wrapCjk isEastAsian (ofString "我「「我我") 2 2 = [ofString "我「", ofString "「我我"] := by
  decide +kernel

/-- A full stop behind a space starts a line, and the first of two opening brackets ends one. -/
theorem wrap_cjk_strands_marks :
    ¬LinesRespectPunctuation (wrapCjk isEastAsian (ofString "我我 。") 2 2) ∧
      ¬LinesRespectPunctuation (wrapCjk isEastAsian (ofString "我「「我我") 2 2) := by
  constructor
  · intro respected
    rw [spaced_stop_wrapped] at respected
    have stop := respected.starts (ofString "。") List.mem_cons_self (ofChar '。') rfl
    exact absurd stop.1 (by decide +kernel)
  · intro respected
    rw [brackets_wrapped] at respected
    have bracket := respected.ends (ofString "我「") List.mem_cons_self (ofChar '「')
      (by decide +kernel)
    exact bracket (by decide +kernel)

end SubtitleTranslator.Engine
