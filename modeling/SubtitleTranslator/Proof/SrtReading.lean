import SubtitleTranslator.Proof.Timing

namespace SubtitleTranslator.Engine
open Library Library.Text

theorem blank_of_isTiming {line : Str} (timed : isTiming line = true) : blank line = false := by
  by_contra empty
  rw [isTiming_of_blank (by simpa using empty)] at timed
  cases timed

theorem blank_of_isIndex {line : Str} (index : isIndex line = true) : blank line = false := by
  by_contra empty
  have nothing : visible line = [] := by
    rw [Bool.not_eq_false, blank, List.all_eq_true] at empty
    exact List.filter_eq_nil_iff.mpr fun c member => by simp [empty c member]
  rw [isIndex, Bool.and_eq_true, decide_eq_true_eq] at index
  obtain ⟨c, _⟩ := List.exists_mem_of_ne_nil _ index.1
  obtain ⟨⟨first, front, seen⟩, _⟩ := strip_solid index.1
  have inText := List.mem_of_mem_head? front
  have shown : first ∈ visible (strip line) := List.mem_filter.mpr ⟨inText, by simp [seen]⟩
  rw [visible_strip, nothing] at shown
  cases shown

/-- The first line of a cue is not blank. -/
theorem blank_of_startsCue {line : Str} {rest : List Str} (starts : startsCue (line :: rest) = true) :
    blank line = false := by
  cases rest with
  | nil => exact blank_of_isTiming starts
  | cons next rest =>
      rw [startsCue, Bool.or_eq_true, Bool.and_eq_true] at starts
      rcases starts with timed | ⟨index, _⟩
      · exact blank_of_isTiming timed
      · exact blank_of_isIndex index

theorem isTiming_of_not_startsCue {line : Str} {rest : List Str}
    (other : startsCue (line :: rest) = false) : isTiming line = false := by
  cases rest with
  | nil => exact other
  | cons next rest =>
      rw [startsCue, Bool.or_eq_false_iff] at other
      exact other.1

/-- A body leaves the end of the lines. -/
theorem readBody_suffix (lines : List Str) : (readBody lines).2 <:+ lines := by
  fun_induction readBody lines with
  | case1 => exact List.suffix_refl _
  | case2 line rest _ following _ =>
      exact (List.dropWhile_suffix blank).trans (List.suffix_cons _ _)
  | case3 line rest _ following _ body left same ih =>
      rw [same] at ih
      exact ih.trans (List.suffix_cons _ _)
  | case4 line rest _ _ => exact List.suffix_refl _
  | case5 line rest _ _ body left same ih =>
      rw [same] at ih
      exact ih.trans (List.suffix_cons _ _)

theorem countP_dropWhile_blank (lines : List Str) :
    (lines.dropWhile blank).countP isTiming = lines.countP isTiming := by
  induction lines with
  | nil => rfl
  | cons line rest ih =>
      cases empty : blank line with
      | true =>
          rw [List.dropWhile_cons_of_pos empty, ih,
            List.countP_cons_of_neg (by simp [isTiming_of_blank empty])]
      | false => rw [List.dropWhile_cons_of_neg (by simp [empty])]

/-- A body takes no timing line. -/
theorem readBody_countP (lines : List Str) :
    (readBody lines).2.countP isTiming = lines.countP isTiming := by
  fun_induction readBody lines with
  | case1 => rfl
  | case2 line rest empty following _ =>
      rw [countP_dropWhile_blank, List.countP_cons_of_neg (by simp [isTiming_of_blank empty])]
  | case3 line rest empty following _ body left same ih =>
      rw [same] at ih
      rw [ih, List.countP_cons_of_neg (by simp [isTiming_of_blank empty])]
  | case4 line rest _ _ => rfl
  | case5 line rest _ other body left same ih =>
      rw [same] at ih
      rw [ih, List.countP_cons_of_neg]
      simp [@isTiming_of_not_startsCue line rest (by simpa using other)]

/-- A line of a body is an empty one for a blank line, or a line of the file without a timing. -/
theorem of_mem_readBody {lines : List Str} {line : Str} (member : line ∈ (readBody lines).1) :
    line = [] ∨ line ∈ lines ∧ blank line = false ∧ isTiming line = false := by
  fun_induction readBody lines with
  | case1 => cases member
  | case2 => cases member
  | case3 first rest _ following _ body left same ih =>
      rw [same] at ih
      rcases List.mem_cons.mp member with rfl | later
      · exact .inl rfl
      · exact (ih later).imp_right fun fits => ⟨List.mem_cons_of_mem _ fits.1, fits.2⟩
  | case4 => cases member
  | case5 first rest seen other body left same ih =>
      rw [same] at ih
      rcases List.mem_cons.mp member with rfl | later
      · exact .inr ⟨List.mem_cons_self, by simpa using seen,
          @isTiming_of_not_startsCue _ rest (by simpa using other)⟩
      · exact (ih later).imp_right fun fits => ⟨List.mem_cons_of_mem _ fits.1, fits.2⟩

/-- A text before a blank line does not start a cue when none of its lines is a timing line. -/
theorem startsCue_of_untimed {body blanks : List Str} (nonempty : body ≠ [])
    (untimed : ∀ line ∈ body, isTiming line = false) (apart : blanks ≠ [])
    (empty : ∀ line ∈ blanks, blank line = true) (after : List Str) :
    startsCue (body ++ blanks ++ after) = false := by
  obtain ⟨line, rest, rfl⟩ := List.exists_cons_of_ne_nil nonempty
  obtain ⟨gap, gaps, rfl⟩ := List.exists_cons_of_ne_nil apart
  rw [List.forall_mem_cons] at untimed empty
  cases rest with
  | nil => simp [startsCue, untimed.1, isTiming_of_blank empty.1]
  | cons next rest => simp [startsCue, untimed.1, untimed.2 next List.mem_cons_self]

/-- A body keeps no whitespace in its blank lines. -/
def tidy (line : Str) : Str := if blank line then [] else line

/-- A body whose lines have no timing is read up to the blank lines before the next cue. -/
theorem readBody_block {body blanks after : List Str}
    (untimed : ∀ line ∈ body, isTiming line = false)
    (last : ∀ line ∈ body.getLast?, blank line = false) (apart : blanks ≠ [])
    (empty : ∀ line ∈ blanks, blank line = true) (next : after = [] ∨ startsCue after = true) :
    readBody (body ++ blanks ++ after) = (body.map tidy, after) := by
  induction body with
  | nil =>
      obtain ⟨gap, gaps, rfl⟩ := List.exists_cons_of_ne_nil apart
      rw [List.forall_mem_cons] at empty
      have following : (gaps ++ after).dropWhile blank = after := by
        rw [List.dropWhile_append_of_pos empty.2]
        cases after with
        | nil => rfl
        | cons line rest =>
            have starts := next.resolve_left (List.cons_ne_nil _ _)
            exact List.dropWhile_cons_of_neg (by simp [blank_of_startsCue starts])
      show readBody (gap :: (gaps ++ after)) = _
      rw [readBody, if_pos empty.1, following, if_pos next]
      rfl
  | cons line rest ih =>
      rw [List.forall_mem_cons] at untimed
      have lastRest : ∀ other ∈ rest.getLast?, blank other = false := by
        intro other back
        refine last other ?_
        rw [List.getLast?_cons, back]
        rfl
      have tail := ih untimed.2 lastRest
      cases gap : blank line with
      | true =>
          have kept : rest.dropWhile blank ≠ [] := by
            intro nothing
            cases back : rest.getLast? with
            | none =>
                rw [List.getLast?_eq_none_iff] at back
                subst back
                rw [last line rfl] at gap
                cases gap
            | some other =>
                have all := List.dropWhile_eq_nil_iff.mp nothing other (List.mem_of_getLast? back)
                rw [lastRest other back] at all
                cases all
          have following : (rest ++ blanks ++ after).dropWhile blank =
              rest.dropWhile blank ++ blanks ++ after := by
            obtain ⟨first, more, same⟩ := List.exists_cons_of_ne_nil kept
            have stop : blank first = false := by
              simpa [same] using List.head?_dropWhile_not blank rest
            conv_lhs => rw [← List.takeWhile_append_dropWhile (p := blank) (l := rest)]
            rw [List.append_assoc, List.append_assoc,
              List.dropWhile_append_of_pos fun other member => List.mem_takeWhile_imp member, same]
            rw [List.cons_append, List.dropWhile_cons_of_neg (by simp [stop])]
            simp
          have other := startsCue_of_untimed kept
            (fun next member => untimed.2 next ((List.dropWhile_sublist blank).subset member))
            apart empty after
          show readBody (line :: (rest ++ blanks ++ after)) = _
          rw [readBody, if_pos gap, following, if_neg (by rw [other]; simp [kept]), tail]
          simp [tidy, gap]
      | false =>
          have other := startsCue_of_untimed (List.cons_ne_nil line rest)
            (List.forall_mem_cons.mpr untimed) apart empty after
          show readBody (line :: (rest ++ blanks ++ after)) = _
          rw [readBody, if_neg (by simp [gap]), if_neg, tail]
          · simp [tidy, gap]
          · simpa using other

theorem readCues_drop (taken auto : Nat) (lines : List Str) :
    readCues taken auto lines = readCues 0 auto (lines.drop taken) := by
  induction taken generalizing lines with
  | zero => rfl
  | succ taken ih =>
      cases lines with
      | nil => rfl
      | cons line rest => exact ih rest

/-- An index line is followed by a timing line. -/
theorem of_readIndex {line : Str} {rest header : List Str} {index : Option Nat}
    (read : readIndex line rest = .ok (index, header)) :
    (index = none ∧ header = line :: rest ∧ (isIndex line && rest.head?.any isTiming) = false) ∨
      (isIndex line = true ∧ rest.head?.any isTiming = true ∧ header = rest ∧
        ∃ n, int (strip line) = .ok n ∧ index = some n) := by
  rw [readIndex] at read
  split at read
  · rename_i found
    rw [Bool.and_eq_true] at found
    obtain ⟨n, isNumber, same⟩ := Fallible.bind_ok.mp read
    cases same
    exact .inr ⟨found.1, found.2, rfl, n, isNumber, rfl⟩
  · rename_i other
    cases read
    exact .inl ⟨rfl, rfl, by simpa using other⟩

/-- A property of the cues of a file follows from its steps over a line outside the cues and over
a cue. -/
theorem readCues_induction {motive : Nat → List Str → List Cue → Prop}
    (nil : ∀ auto, motive auto [] [])
    (skip : ∀ auto line rest cues, startsCue (line :: rest) = false → motive auto rest cues →
      motive auto (line :: rest) cues)
    (cue : ∀ auto line rest index header after timing cues,
      readIndex line rest = .ok (index, header :: after) → timing? header = some timing →
        motive (auto + 1) (readBody after).2 cues →
          motive auto (line :: rest) (srtCue index auto timing (readBody after).1 :: cues))
    {auto : Nat} {lines : List Str} {cues : List Cue} (read : readCues 0 auto lines = .ok cues) :
    motive auto lines cues := by
  induction size : lines.length using Nat.strong_induction_on generalizing auto lines cues with
  | _ size ih =>
      subst size
      cases lines with
      | nil =>
          cases read
          exact nil auto
      | cons line rest =>
          have shorter {left : List Str} (suffix : left <:+ rest) :
              left.length < (line :: rest).length :=
            Nat.lt_succ_of_le suffix.length_le
          rw [readCues] at read
          split at read
          · rename_i empty
            refine skip auto line rest cues ?_ (ih _ (shorter (List.suffix_refl _)) read rfl)
            by_contra starts
            rw [@blank_of_startsCue line rest (by simpa using starts)] at empty
            cases empty
          · obtain ⟨⟨index, header⟩, isHeader, body⟩ := Fallible.bind_ok.mp read
            dsimp only at body
            split at body
            · rename_i untimed
              refine skip auto line rest cues ?_ (ih _ (shorter (List.suffix_refl _)) body rfl)
              rcases of_readIndex isHeader with ⟨_, rfl, unfollowed⟩ | ⟨_, followed, same, _⟩
              · have plain : isTiming line = false := by
                  show (timing? line).isSome = false
                  have nothing : timing? line = none := untimed
                  rw [nothing]
                  rfl
                cases rest with
                | nil => exact plain
                | cons next rest => simpa [startsCue, plain] using unfollowed
              · rw [same] at untimed
                cases rest with
                | nil => cases followed
                | cons next rest =>
                    have nothing : timing? next = none := untimed
                    have timed : (timing? next).isSome = true := followed
                    rw [nothing] at timed
                    cases timed
            · rename_i timing timed
              obtain ⟨others, later, same⟩ := Fallible.bind_ok.mp body
              cases same
              cases header with
              | nil => cases timed
              | cons first after =>
                  have inRest : after <:+ rest := by
                    rcases of_readIndex isHeader with ⟨_, same, _⟩ | ⟨_, _, rfl, _⟩
                    · cases same
                      exact List.suffix_refl _
                    · exact List.suffix_cons _ _
                  have suffix := (readBody_suffix after).trans inRest
                  rw [readCues_drop] at later
                  rw [List.tail_cons, ← List.suffix_iff_eq_drop.mp suffix] at later
                  exact cue auto line rest index first after timing others isHeader timed
                    (ih _ (shorter suffix) later rfl)

/-- The lines of a cue are an index line or none, its timing line and the lines after it. -/
theorem readIndex_lines {line header : Str} {rest after : List Str} {index : Option Nat}
    (read : readIndex line rest = .ok (index, header :: after)) :
    ∃ front : List Str, line :: rest = front ++ header :: after ∧
      ∀ other ∈ front, isTiming other = false := by
  rcases of_readIndex read with ⟨_, same, _⟩ | ⟨isNumber, _, rfl, _⟩
  · exact ⟨[], same.symm, List.forall_mem_nil _⟩
  · exact ⟨[line], rfl, List.forall_mem_singleton.mpr (isTiming_of_isIndex isNumber)⟩

/-- A file has one cue for each timing line. -/
theorem readCues_length {auto : Nat} {lines : List Str} {cues : List Cue}
    (read : readCues 0 auto lines = .ok cues) : cues.length = lines.countP isTiming := by
  refine @readCues_induction (fun _ lines cues => cues.length = lines.countP isTiming) (fun _ => rfl)
    ?_ ?_ auto lines cues read
  · intro _ line rest cues other ih
    rw [ih, List.countP_cons_of_neg (by simp [isTiming_of_not_startsCue other])]
  · intro _ line rest index header after timing cues isHeader timed ih
    obtain ⟨front, same, untimed⟩ := readIndex_lines isHeader
    have isTimed : isTiming header = true := by
      rw [isTiming, timed]
      rfl
    have none_ : front.countP isTiming = 0 :=
      List.countP_eq_zero.mpr fun other member => by simp [untimed other member]
    rw [same, List.countP_append, none_, List.countP_cons_of_pos isTimed, List.length_cons, ih,
      readBody_countP, Nat.zero_add]

/-- A line without a line end. -/
def OneLine (line : Str) : Prop := 0xa ∉ line ∧ 0xd ∉ line

/-- A parsed cue carries a timing that is read back, and a body that is read back. -/
structure SrtCue (cue : Cue) : Prop where
  timed : Timed cue
  untimed : ∀ line ∈ cue.lines, isTiming line = false
  tidied : ∀ line ∈ cue.lines, tidy line = line
  last : ∀ line ∈ cue.lines.getLast?, blank line = false
  oneLine : ∀ line ∈ cue.lines, OneLine line
  dialect : cue.dialect = .plain

theorem oneLine_nil : OneLine [] := ⟨List.not_mem_nil, List.not_mem_nil⟩

theorem isTiming_nil : isTiming [] = false := by decide

theorem tidy_of_not_blank {line : Str} (seen : blank line = false) : tidy line = line := by
  rw [tidy, seen]
  rfl

/-- The cues of a file are well formed. -/
theorem readCues_fits {auto : Nat} {lines : List Str} {cues : List Cue}
    (oneLine : ∀ line ∈ lines, OneLine line) (read : readCues 0 auto lines = .ok cues) :
    ∀ cue ∈ cues, SrtCue cue := by
  revert oneLine
  refine @readCues_induction (fun _ lines cues => (∀ line ∈ lines, OneLine line) →
    ∀ cue ∈ cues, SrtCue cue) ?_ ?_ ?_ auto lines cues read
  · exact fun _ _ => List.forall_mem_nil _
  · intro _ line rest cues _ ih oneLine
    exact ih fun other member => oneLine other (List.mem_cons_of_mem _ member)
  · intro auto line rest index header after timing cues isHeader timed ih oneLine
    obtain ⟨front, same, _⟩ := readIndex_lines isHeader
    have inLines : ∀ other ∈ header :: after, OneLine other := by
      intro other member
      exact oneLine other (by rw [same]; exact List.mem_append_right _ member)
    rw [List.forall_mem_cons] at inLines
    refine List.forall_mem_cons.mpr ⟨?_, ih fun other member =>
      inLines.2 other ((readBody_suffix after).subset member)⟩
    have inBody : ∀ other ∈ (srtCue index auto timing (readBody after).1).lines,
        other = [] ∨ other ∈ after ∧ blank other = false ∧ isTiming other = false :=
      fun other member => of_mem_readBody ((List.rdropWhile_prefix blank _).subset member)
    refine ⟨timed_of_timing? timed inLines.1 index auto _, ?_, ?_, ?_, ?_, rfl⟩
    · intro other member
      rcases inBody other member with rfl | ⟨_, _, untimed⟩
      · exact isTiming_nil
      · exact untimed
    · intro other member
      rcases inBody other member with rfl | ⟨_, seen, _⟩
      · rfl
      · exact tidy_of_not_blank seen
    · intro other back
      obtain ⟨nonempty, rfl⟩ := List.mem_getLast?_eq_getLast back
      have seen := List.rdropWhile_last_not blank (readBody after).1 nonempty
      rwa [Bool.not_eq_true] at seen
    · intro other member
      rcases inBody other member with rfl | ⟨inAfter, _⟩
      · exact oneLine_nil
      · exact inLines.2 other inAfter

/-- An index is a number that `int` reads, or at most the number of the cues. -/
theorem readCues_index {auto : Nat} {lines : List Str} {cues : List Cue}
    (read : readCues 0 auto lines = .ok cues) :
    ∀ cue ∈ cues, cue.index < 10 ^ maxStrDigits ∨ cue.index ≤ auto + cues.length := by
  refine @readCues_induction (fun auto _ cues =>
    ∀ cue ∈ cues, cue.index < 10 ^ maxStrDigits ∨ cue.index ≤ auto + cues.length) ?_ ?_ ?_
    auto lines cues read
  · exact fun _ => List.forall_mem_nil _
  · exact fun _ _ _ _ _ ih => ih
  · intro auto line rest index header after timing cues isHeader _ ih
    refine List.forall_mem_cons.mpr ⟨?_, fun cue member => ?_⟩
    · rcases of_readIndex isHeader with ⟨rfl, _⟩ | ⟨_, _, _, n, isNumber, rfl⟩
      · refine .inr ?_
        show auto + 1 ≤ auto + (cues.length + 1)
        omega
      · refine .inl ?_
        show n < 10 ^ maxStrDigits
        rw [int, int?] at isNumber
        split at isNumber
        · rename_i value found
          cases isNumber
          split at found
          · rename_i short
            cases found
            exact (decimalValue_lt _).trans_le (Nat.pow_le_pow_right (by decide) short)
          · cases found
        · cases isNumber
    · refine (ih cue member).imp_right fun most => most.trans ?_
      rw [List.length_cons]
      omega

/-- The lines that the body of a cue puts into a file. -/
def bodyLines (newline : Newline) (cue : Cue) : List Str :=
  lines (join newline.text (linesOrEmpty cue ++ [[]]))

/-- The lines that a cue puts into a file. -/
def srtLines (newline : Newline) (cue : Cue) : List Str :=
  decimal cue.index :: timingLine cue :: bodyLines newline cue

/-- The body that is read back from the lines of a body. -/
def bodyOf (group : List Str) : List Str := (group.rdropWhile blank).map tidy

/-- Each file begins with the text of its first line. -/
theorem getLast?_newline (newline : Newline) (s : Str) :
    (s ++ newline.text).getLast? ≠ some 0xd := by
  cases newline <;> simp [Newline.text]

theorem linesOrEmpty_ne_nil (cue : Cue) : linesOrEmpty cue ≠ [] := by
  unfold linesOrEmpty
  split
  · exact List.cons_ne_nil _ _
  · assumption

/-- The lines of a body end with an empty line. -/
theorem exists_bodyLines (newline : Newline) (cue : Cue) :
    ∃ front, bodyLines newline cue = front ++ [[]] := by
  rw [bodyLines, join_concat _ (linesOrEmpty_ne_nil cue)]
  obtain ⟨group, _, same⟩ := exists_lays newline (join newline.text (linesOrEmpty cue)) []
  exact ⟨group, same⟩

/-- A number is one line. -/
theorem oneLine_decimal (n : Nat) : OneLine (decimal n) := by
  constructor
  · intro member
    exact absurd (isSpace_of_mem_decimal member) (by decide)
  · intro member
    exact absurd (isSpace_of_mem_decimal member) (by decide)

theorem getLast?_of_oneLine {s : Str} (oneLine : OneLine s) : s.getLast? ≠ some 0xd :=
  fun back => oneLine.2 (List.mem_of_getLast? back)

/-- The lines of a written block. -/
theorem lines_block (newline : Newline) {cue : Cue} (timed : Timed cue) :
    lines (join newline.text ([decimal cue.index, timingLine cue] ++ linesOrEmpty cue ++ [[]])) =
      srtLines newline cue := by
  have text : join newline.text
      ([decimal cue.index, timingLine cue] ++ linesOrEmpty cue ++ [[]]) =
        join newline.text [decimal cue.index, timingLine cue,
          join newline.text (linesOrEmpty cue ++ [[]])] := by
    rw [List.append_assoc, join_append _ (by simp) (by simp), join_cons_cons, join_singleton,
      join_cons_cons, join_cons_cons, join_singleton]
    simp only [List.append_assoc]
  have back : (join newline.text (linesOrEmpty cue ++ [[]])).getLast? ≠ some 0xd := by
    rw [join_concat _ (linesOrEmpty_ne_nil cue), List.append_nil]
    exact getLast?_newline newline _
  rw [text, lines_join newline (by simp)]
  · rw [List.flatMap_cons, List.flatMap_cons, List.flatMap_singleton,
      lines_eq_singleton (oneLine_decimal _), lines_eq_singleton timed.oneLine]
    rfl
  · intro part member
    simp only [List.mem_cons, List.not_mem_nil, or_false] at member
    rcases member with rfl | rfl | rfl
    · exact getLast?_of_oneLine (oneLine_decimal _)
    · exact getLast?_of_oneLine timed.oneLine
    · exact back

/-- A file is written when CPython converts its indices. -/
theorem renderSrt_eq {newline : Newline} {cues : List Cue} {written : Str} :
    renderSrt newline cues = .ok written ↔
      (∀ cue ∈ cues, cue.index < 10 ^ maxStrDigits) ∧
        written = join newline.text (cues.flatMap fun cue =>
          [decimal cue.index, timingLine cue] ++ linesOrEmpty cue ++ [[]]) := by
  have each (cue : Cue) (block : List Str) : srtBlock cue = .ok block ↔
      cue.index < 10 ^ maxStrDigits ∧
        block = [decimal cue.index, timingLine cue] ++ linesOrEmpty cue ++ [[]] := by
    rw [srtBlock, str, ← decimal_length_le_iff]
    split
    · rename_i short
      constructor
      · intro done
        cases done
        exact ⟨short, rfl⟩
      · rintro ⟨_, rfl⟩
        rfl
    · rename_i long
      exact ⟨nofun, fun done => absurd done.1 long⟩
  rw [renderSrt, Fallible.bind_ok]
  simp only [Fallible.mapM_eq_map each]
  constructor
  · rintro ⟨blocks, ⟨small, rfl⟩, done⟩
    cases done
    exact ⟨small, by rw [List.flatMap_def]⟩
  · rintro ⟨small, rfl⟩
    exact ⟨_, ⟨small, rfl⟩, by rw [List.flatMap_def]; rfl⟩

theorem stripMark_eq_self {s : Str} (front : s.head? ≠ some 0xfeff) : stripMark s = s := by
  cases s with
  | nil => rfl
  | cons c s =>
      rw [stripMark, List.dropWhile_cons_of_neg]
      simpa using front

/-- The lines of a file are those of its cues. -/
theorem lines_renderSrt {newline : Newline} {cues : List Cue} {written : Str}
    (nonempty : cues ≠ []) (timed : ∀ cue ∈ cues, Timed cue)
    (rendered : renderSrt newline cues = .ok written) :
    lines (stripMark written) = cues.flatMap (srtLines newline) := by
  obtain ⟨_, rfl⟩ := renderSrt_eq.mp rendered
  let block (cue : Cue) : List Str := [decimal cue.index, timingLine cue] ++ linesOrEmpty cue ++ [[]]
  have blocks : join newline.text (cues.flatMap block) =
      join newline.text ((cues.map block).map (join newline.text)) := by
    rw [List.flatMap_def, join_flatten]
    intro group member
    obtain ⟨cue, _, rfl⟩ := List.mem_map.mp member
    simp [block]
  have noMark : (join newline.text (cues.flatMap block)).head? ≠ some 0xfeff := by
    obtain ⟨cue, rest, rfl⟩ := List.exists_cons_of_ne_nil nonempty
    intro front
    obtain ⟨c, more, digits⟩ := List.exists_cons_of_ne_nil (decimal_ne_nil cue.index)
    have inNumber : c ∈ decimal cue.index := by simp [digits]
    have first : (join newline.text ((cue :: rest).flatMap block)).head? = some c := by
      show (join newline.text (decimal cue.index :: timingLine cue :: _)).head? = some c
      rw [join_cons_cons, digits]
      rfl
    rw [first] at front
    cases front
    exact absurd (range_of_mem_decimal inNumber).2 (by decide)
  rw [stripMark_eq_self noMark, blocks, lines_join newline (by simpa using nonempty)]
  · rw [List.flatMap_map, List.flatMap_map]
    apply List.flatMap_congr
    intro cue member
    exact lines_block newline (timed cue member)
  · simp only [List.forall_mem_map]
    intro cue _
    rw [join_concat _ (by simp), List.append_nil]
    exact getLast?_newline newline _

theorem decimal_isIndex (n : Nat) : isIndex (decimal n) = true ∧ strip (decimal n) = decimal n := by
  have stripped : strip (decimal n) = decimal n :=
    strip_eq_self (fun c front => isSpace_of_mem_decimal (List.mem_of_mem_head? front))
      fun c back => isSpace_of_mem_decimal (List.mem_of_mem_getLast? back)
  refine ⟨?_, stripped⟩
  rw [isIndex, stripped, Bool.and_eq_true, decide_eq_true_eq, List.all_eq_true]
  refine ⟨decimal_ne_nil n, fun c member => ?_⟩
  obtain ⟨low, high⟩ := range_of_mem_decimal member
  simp [isAsciiDigit, low, high]

theorem blank_tidy (line : Str) : blank (tidy line) = blank line := by
  unfold tidy
  split
  · rename_i empty
    rw [empty]
    rfl
  · rfl

/-- The body that is read back has no blank lines at its end. -/
theorem bodyOf_rdropWhile (group : List Str) : (bodyOf group).rdropWhile blank = bodyOf group := by
  rw [List.rdropWhile_eq_self_iff]
  intro nonempty
  rw [bodyOf] at nonempty
  have kept : group.rdropWhile blank ≠ [] := by simpa using nonempty
  have seen := List.rdropWhile_last_not blank group kept
  simp only [bodyOf, List.getLast_map, blank_tidy]
  exact seen

/-- A cue is read back from its lines when its body has no timing line. -/
theorem readCues_block {cue : Cue} {group after : List Str} {auto : Nat} {cues : List Cue}
    (timed : Timed cue) (small : cue.index < 10 ^ maxStrDigits)
    (untimed : ∀ line ∈ group, isTiming line = false) (gap : ∃ front, group = front ++ [[]])
    (next : after = [] ∨ startsCue after = true) (read : readCues 0 (auto + 1) after = .ok cues) :
    readCues 0 auto (decimal cue.index :: timingLine cue :: (group ++ after)) =
      .ok ({ cue with lines := bodyOf group, dialect := .plain } :: cues) := by
  obtain ⟨isNumber, stripped⟩ := decimal_isIndex cue.index
  have isTimed : isTiming (timingLine cue) = true := by
    rw [isTiming, timed.read]
    rfl
  have number : int (decimal cue.index) = .ok cue.index := by
    rw [int, int?_decimal, if_pos small]
  have header : readIndex (decimal cue.index) (timingLine cue :: (group ++ after)) =
      .ok (some cue.index, timingLine cue :: (group ++ after)) := by
    rw [readIndex, if_pos (by simp [isNumber, isTimed]), stripped, number]
    rfl
  have body : readBody (group ++ after) = (bodyOf group, after) := by
    have split : group = group.rdropWhile blank ++ group.rtakeWhile blank :=
      (List.rdropWhile_append_rtakeWhile ..).symm
    conv_lhs => rw [split]
    apply readBody_block
    · exact fun line member => untimed line ((List.rdropWhile_prefix blank group).subset member)
    · intro line back
      obtain ⟨nonempty, rfl⟩ := List.mem_getLast?_eq_getLast back
      simpa using List.rdropWhile_last_not blank group nonempty
    · obtain ⟨front, rfl⟩ := gap
      rw [List.rtakeWhile_concat_pos _ _ _ rfl]
      simp
    · exact fun line member => List.mem_rtakeWhile_imp member
    · exact next
  have left : readCues ((timingLine cue :: (group ++ after)).length - after.length) (auto + 1)
      (timingLine cue :: (group ++ after)) = readCues 0 (auto + 1) after := by
    rw [readCues_drop, ← List.suffix_iff_eq_drop.mp]
    exact (List.suffix_append group after).trans (List.suffix_cons _ _)
  rw [readCues, if_neg (by simp [blank_of_isIndex isNumber]), header]
  have isRead : (timingLine cue :: (group ++ after)).head?.bind timing? =
      some ⟨cue.start, cue.finish, cue.rest⟩ := timed.read
  dsimp only [bind, Except.bind]
  rw [isRead]
  show (do
    let cues ← readCues ((timingLine cue :: (group ++ after)).length -
      (readBody (group ++ after)).2.length) (auto + 1) (timingLine cue :: (group ++ after))
    pure (srtCue (some cue.index) auto ⟨cue.start, cue.finish, cue.rest⟩
      (readBody (group ++ after)).1 :: cues)) = _
  rw [body, left, read]
  show Except.ok (srtCue (some cue.index) auto ⟨cue.start, cue.finish, cue.rest⟩ (bodyOf group) ::
    cues) = _
  rw [srtCue, timed.trimmed, bodyOf_rdropWhile]
  rfl

/-- The cue that is read back from the lines of a cue. -/
def reread (newline : Newline) (cue : Cue) : Cue :=
  { cue with lines := bodyOf (bodyLines newline cue), dialect := .plain }

/-- The cues of a file are read back when their bodies have no timing line. -/
theorem readCues_file (newline : Newline) {cues : List Cue} (timed : ∀ cue ∈ cues, Timed cue)
    (small : ∀ cue ∈ cues, cue.index < 10 ^ maxStrDigits)
    (untimed : ∀ cue ∈ cues, ∀ line ∈ bodyLines newline cue, isTiming line = false) (auto : Nat) :
    readCues 0 auto (cues.flatMap (srtLines newline)) = .ok (cues.map (reread newline)) := by
  induction cues generalizing auto with
  | nil => rfl
  | cons cue cues ih =>
      rw [List.forall_mem_cons] at timed small untimed
      have next : cues.flatMap (srtLines newline) = [] ∨
          startsCue (cues.flatMap (srtLines newline)) = true := by
        cases cues with
        | nil => exact .inl rfl
        | cons other cues =>
            refine .inr ?_
            have isTimed : isTiming (timingLine other) = true := by
              rw [isTiming, (timed.2 other List.mem_cons_self).read]
              rfl
            show (isTiming _ || (isIndex (decimal other.index) && isTiming (timingLine other))) = true
            rw [(decimal_isIndex other.index).1, isTimed, Bool.and_self, Bool.or_true]
      exact readCues_block timed.1 small.1 untimed.1 (exists_bodyLines newline cue) next
        (ih timed.2 small.2 untimed.2 (auto + 1))

end SubtitleTranslator.Engine
