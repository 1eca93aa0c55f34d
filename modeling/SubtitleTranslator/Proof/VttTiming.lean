import SubtitleTranslator.Proof.Timing

namespace SubtitleTranslator.Engine
open Library Library.Text

/-- A WebVTT time stamp has two digits for the minutes and the seconds, three for the fraction, and
any number for the hours, or none at all. -/
structure VttStamp where
  hours : Str
  minutes : Str
  seconds : Str
  mark : CodePoint
  fraction : Str
  digits : ∀ c ∈ hours ++ minutes ++ seconds ++ fraction, isDecimal c = true
  minutesFit : minutes.length = 2
  secondsFit : seconds.length = 2
  isMark : mark = 0x2e ∨ mark = 0x2c
  fractionFit : fraction.length = 3

namespace VttStamp

/-- The hours with their colon, if any. -/
def lead (stamp : VttStamp) : Str := if stamp.hours = [] then [] else stamp.hours ++ [0x3a]

def text (stamp : VttStamp) : Str :=
  stamp.lead ++ stamp.minutes ++ 0x3a :: stamp.seconds ++ stamp.mark :: stamp.fraction

theorem isDecimal_mark (stamp : VttStamp) : isDecimal stamp.mark = false := by
  rcases stamp.isMark with dot | comma
  · rw [dot]
    decide
  · rw [comma]
    decide

/-- The hours are not read out of the minutes. -/
theorem match_hours_none {γ : Type} (stamp : VttStamp) (left : Str)
    {next : Option Str → Pattern CodePoint γ}
    (needs : ∀ hours s result, result ∈ next hours s →
      ∃ pair rest, s = pair ++ 0x3a :: rest ∧ ∀ c ∈ pair, isDecimal c = true) :
    ((do
      let value ← (do
        let digits ← Pattern.many1 isDecimal
        let colon ← Pattern.one (· == 0x3a)
        pure (digits ++ [colon]))
      pure (some value)) >>= next).match?
      (stamp.minutes ++ 0x3a :: stamp.seconds ++ stamp.mark :: stamp.fraction ++ left) = none := by
  have digits := stamp.digits
  simp only [List.forall_mem_append] at digits
  obtain ⟨⟨⟨_, minutes⟩, seconds⟩, _⟩ := digits
  have colon : isDecimal 0x3a = false := by decide
  rw [Option.eq_none_iff_forall_not_mem]
  intro result matched
  obtain ⟨⟨_, s₁⟩, inHours, later⟩ := Pattern.mem_bind.mp (Pattern.match?_mem matched)
  obtain ⟨⟨_, s₂⟩, inGroup, isSome⟩ := Pattern.mem_bind.mp inHours
  obtain ⟨⟨run, s₃⟩, inRun, inColon⟩ := Pattern.mem_bind.mp inGroup
  obtain ⟨⟨first, s₄⟩, inFirst, final⟩ := Pattern.mem_bind.mp inColon
  obtain ⟨pair, others, same₃, allPair⟩ := needs _ _ _ later
  obtain ⟨same₁, _, allRun⟩ := Pattern.of_mem_many1 inRun
  obtain ⟨same₂, isColon⟩ := Pattern.mem_one.mp inFirst
  cases Pattern.mem_pure.mp isSome
  cases Pattern.mem_pure.mp final
  dsimp only at same₁ same₂ same₃ isColon allRun
  rw [beq_iff_eq] at isColon
  subst isColon same₃ same₂
  simp only [List.append_assoc, List.cons_append] at same₁
  -- Both texts are cut where their first run of digits ends.
  have stop (s : Str) : ∀ c ∈ (0x3a :: s : Str).head?, isDecimal c = false := by
    intro c front
    cases front
    exact colon
  have outer := congrArg (List.dropWhile isDecimal) same₁
  rw [(Pattern.takeWhile_append_stop minutes (stop _)).2,
    (Pattern.takeWhile_append_stop allRun (stop _)).2] at outer
  have inner := congrArg (List.dropWhile isDecimal) (List.cons.inj outer).2
  rw [(Pattern.takeWhile_append_stop allPair (stop _)).2, (Pattern.takeWhile_append_stop seconds
    (fun c front => by cases front; exact stamp.isDecimal_mark)).2] at inner
  have isMark := (List.cons.inj inner).1
  rcases stamp.isMark with dot | comma
  · rw [dot] at isMark
    exact absurd isMark (by decide)
  · rw [comma] at isMark
    exact absurd isMark (by decide)

theorem match_bind {γ : Type} (stamp : VttStamp) {left : Str} {next : Str → Pattern CodePoint γ}
    {result : γ × Str} (accepted : (next stamp.text).match? left = some result) :
    (vttTimeRe >>= next).match? (stamp.text ++ left) = some result := by
  have digits := stamp.digits
  simp only [List.forall_mem_append] at digits
  obtain ⟨⟨⟨hours, minutes⟩, seconds⟩, fraction⟩ := digits
  have minuteStep := @Pattern.match?_exactly_bind _ γ isDecimal stamp.minutes minutes
  have secondStep := @Pattern.match?_exactly_bind _ γ isDecimal stamp.seconds seconds
  have fractionStep := @Pattern.match?_exactly_bind _ γ isDecimal stamp.fraction fraction
  rw [stamp.minutesFit] at minuteStep
  rw [stamp.secondsFit] at secondStep
  rw [stamp.fractionFit] at fractionStep
  have mark : (stamp.mark == 0x2e || stamp.mark == 0x2c) = true := by simpa using stamp.isMark
  have colon : ((0x3a : CodePoint) == 0x3a) = true := by decide
  have rest : ((do
      let minutes ← Pattern.exactly isDecimal 2
      let colon ← Pattern.one (· == 0x3a)
      let seconds ← Pattern.exactly isDecimal 2
      let mark ← Pattern.one (fun c => c == 0x2e || c == 0x2c)
      let fraction ← Pattern.exactly isDecimal 3
      pure (stamp.lead ++ minutes ++ colon :: seconds ++ mark :: fraction)) >>= next).match?
        (stamp.minutes ++ 0x3a :: stamp.seconds ++ stamp.mark :: stamp.fraction ++ left) =
          some result := by
    simp only [bind_assoc, List.append_assoc, List.cons_append]
    rw [minuteStep, Pattern.match?_one_bind, if_pos colon, secondStep, Pattern.match?_one_bind,
      if_pos mark, fractionStep, pure_bind]
    simpa only [text, List.append_assoc, List.cons_append] using accepted
  rw [vttTimeRe, Pattern.optional, bind_assoc, Pattern.match?_either_bind, text]
  by_cases none_ : stamp.hours = []
  · rw [lead, if_pos none_] at rest ⊢
    rw [List.nil_append, stamp.match_hours_none, Option.none_or]
    · show (pure none >>= _ : Pattern CodePoint γ).match? _ = _
      rw [pure_bind]
      exact rest
    · intro hours s other member
      obtain ⟨_, inTime, _⟩ := Pattern.mem_bind.mp member
      obtain ⟨⟨pair, _⟩, inPair, more⟩ := Pattern.mem_bind.mp inTime
      obtain ⟨⟨second, others⟩, inSecond, _⟩ := Pattern.mem_bind.mp more
      obtain ⟨same, _, all⟩ := Pattern.of_mem_exactly inPair
      obtain ⟨split, isColon⟩ := Pattern.mem_one.mp inSecond
      dsimp only at same split isColon all
      rw [beq_iff_eq] at isColon
      exact ⟨pair, others, by rw [same, split, isColon], all⟩
  · rw [lead, if_neg none_] at rest ⊢
    refine Option.or_eq_some_iff.mpr (.inl ?_)
    simp only [bind_assoc, List.append_assoc]
    apply Pattern.match?_many1_bind_run none_ hours
    · intro c front
      cases front
      decide
    · rw [List.singleton_append, Pattern.match?_one_bind, if_pos colon, pure_bind, pure_bind]
      simpa only [bind_assoc, List.append_assoc, Option.getD_some] using rest

/-- What `vttTimeRe` reads is a time stamp. -/
theorem of_mem {s : Str} {result : Str × Str} (member : result ∈ vttTimeRe s) :
    ∃ stamp : VttStamp, result.1 = stamp.text ∧ s = stamp.text ++ result.2 := by
  obtain ⟨⟨hours, s₁⟩, inHours, later₁⟩ := Pattern.mem_bind.mp member
  obtain ⟨⟨minutes, s₂⟩, inMinutes, later₂⟩ := Pattern.mem_bind.mp later₁
  obtain ⟨⟨second, s₃⟩, inSecond, later₃⟩ := Pattern.mem_bind.mp later₂
  obtain ⟨⟨seconds, s₄⟩, inSeconds, later₄⟩ := Pattern.mem_bind.mp later₃
  obtain ⟨⟨mark, s₅⟩, inMark, later₅⟩ := Pattern.mem_bind.mp later₄
  obtain ⟨⟨fraction, s₆⟩, inFraction, final⟩ := Pattern.mem_bind.mp later₅
  obtain ⟨same₂, length₂, digits₂⟩ := Pattern.of_mem_exactly inMinutes
  obtain ⟨same₃, colon₃⟩ := Pattern.mem_one.mp inSecond
  obtain ⟨same₄, length₄, digits₄⟩ := Pattern.of_mem_exactly inSeconds
  obtain ⟨same₅, isMark⟩ := Pattern.mem_one.mp inMark
  obtain ⟨same₆, length₆, digits₆⟩ := Pattern.of_mem_exactly inFraction
  rw [Pattern.mem_pure] at final
  subst final
  dsimp only at same₂ same₃ same₄ same₅ same₆ colon₃ isMark
  rw [beq_iff_eq] at colon₃
  subst colon₃ same₂ same₃ same₄ same₅ same₆
  have marks : mark = 0x2e ∨ mark = 0x2c := by simpa using isMark
  rcases Pattern.mem_either.mp inHours with inGroup | absent
  · obtain ⟨⟨_, s₇⟩, inPair, isSome⟩ := Pattern.mem_bind.mp inGroup
    obtain ⟨⟨run, s₈⟩, inRun, inColon⟩ := Pattern.mem_bind.mp inPair
    obtain ⟨⟨first, s₉⟩, inFirst, whole⟩ := Pattern.mem_bind.mp inColon
    obtain ⟨same₇, nonempty, digits₇⟩ := Pattern.of_mem_many1 inRun
    obtain ⟨same₈, colon₈⟩ := Pattern.mem_one.mp inFirst
    cases Pattern.mem_pure.mp whole
    cases Pattern.mem_pure.mp isSome
    dsimp only at same₇ same₈ colon₈ nonempty
    rw [beq_iff_eq] at colon₈
    subst colon₈ same₈ same₇
    refine ⟨⟨run, minutes, seconds, mark, fraction, ?_, length₂, length₄, marks, length₆⟩, ?_, ?_⟩
    · simp only [List.forall_mem_append]
      exact ⟨⟨⟨digits₇, digits₂⟩, digits₄⟩, digits₆⟩
    · rw [text, lead, if_neg nonempty]
      rfl
    · rw [text, lead, if_neg nonempty]
      simp only [List.append_eq, List.append_assoc, List.cons_append, List.nil_append]
  · cases Pattern.mem_pure.mp absent
    refine ⟨⟨[], minutes, seconds, mark, fraction, ?_, length₂, length₄, marks, length₆⟩, rfl, ?_⟩
    · simp only [List.forall_mem_append]
      exact ⟨⟨⟨List.forall_mem_nil _, digits₂⟩, digits₄⟩, digits₆⟩
    · simp only [text, lead, if_true, List.append_assoc, List.cons_append, List.nil_append]

/-- A time stamp has no whitespace. -/
theorem isSpace_of_mem (stamp : VttStamp) {c : CodePoint} (member : c ∈ stamp.text) :
    isSpace c = false := by
  have digits := stamp.digits
  have ofDigit {d : CodePoint} (digit : isDecimal d = true) : isSpace d = false := by
    by_contra space
    rw [isDecimal_of_isSpace (by simpa using space)] at digit
    cases digit
  simp only [List.forall_mem_append] at digits
  simp only [text, List.mem_append, List.mem_cons] at member
  rcases member with ((inLead | inMinutes) | rfl | inSeconds) | isMark | inFraction
  · rw [lead] at inLead
    split at inLead
    · cases inLead
    · rw [List.mem_append, List.mem_singleton] at inLead
      rcases inLead with inHours | rfl
      · exact ofDigit (digits.1.1.1 c inHours)
      · decide
  · exact ofDigit (digits.1.1.2 c inMinutes)
  · decide
  · exact ofDigit (digits.1.2 c inSeconds)
  · rcases stamp.isMark with dot | comma
    · rw [isMark, dot]
      decide
    · rw [isMark, comma]
      decide
  · exact ofDigit (digits.2 c inFraction)

theorem text_ne_nil (stamp : VttStamp) : stamp.text ≠ [] := by simp [text]

end VttStamp

/-- The text of a WebVTT timing. -/
def vttTimingText (start : VttStamp) (before after : Str) (finish : VttStamp) (rest : Str) : Str :=
  start.text ++ (before ++ 0x2d :: 0x2d :: 0x3e :: (after ++ (finish.text ++ rest)))

theorem fullmatch_vttTimingRe (start finish : VttStamp) {before after rest : Str}
    (spaceBefore : ∀ c ∈ before, isSpace c = true) (spaceAfter : ∀ c ∈ after, isSpace c = true)
    (oneLine : 0xa ∉ rest) :
    vttTimingRe.fullmatch? (vttTimingText start before after finish rest) =
      some ⟨start.text, finish.text, rest⟩ := by
  have inLine : ∀ c ∈ rest, isNotNewline c = true := by
    intro c member
    simp only [isNotNewline, bne_iff_ne]
    rintro rfl
    exact oneLine member
  suffices matched : (vttTimingRe >>= fun value => Pattern.finish >>= fun _ => pure value).match?
      (vttTimingText start before after finish rest) =
        some (⟨start.text, finish.text, rest⟩, []) by
    rw [Pattern.fullmatch?]
    exact (congrArg (Option.map Prod.fst) matched).trans rfl
  rw [vttTimingRe, vttTimingText]
  simp only [bind_assoc]
  apply VttStamp.match_bind
  apply Pattern.match?_many_bind_run spaceBefore (fun c front => by cases front; decide)
  rw [Pattern.match?_one_bind, if_pos (by decide), Pattern.match?_one_bind, if_pos (by decide),
    Pattern.match?_one_bind, if_pos (by decide)]
  apply Pattern.match?_many_bind_run spaceAfter
  · intro c front
    rw [List.head?_append_of_ne_nil _ finish.text_ne_nil] at front
    exact finish.isSpace_of_mem (List.mem_of_mem_head? front)
  · apply finish.match_bind
    conv_lhs => rw [← List.append_nil rest]
    exact Pattern.match?_many_bind_run inLine (by simp) rfl

/-- What `vttTimingRe` matches as a whole is the text of a timing. -/
theorem of_fullmatch_vttTimingRe {s : Str} {timing : Timing}
    (matched : vttTimingRe.fullmatch? s = some timing) :
    ∃ start before after finish, (∀ c ∈ before, isSpace c = true) ∧
      (∀ c ∈ after, isSpace c = true) ∧ timing.start = VttStamp.text start ∧
        timing.finish = VttStamp.text finish ∧
          s = vttTimingText start before after finish timing.rest := by
  obtain ⟨⟨value, left⟩, found, same⟩ := Option.map_eq_some_iff.mp matched
  dsimp only at same
  subst same
  obtain ⟨⟨_, s₀⟩, inTiming, closed⟩ := Pattern.mem_bind.mp (Pattern.match?_mem found)
  obtain ⟨⟨_, s₉⟩, atEnd, isValue⟩ := Pattern.mem_bind.mp closed
  obtain ⟨⟨_, s₁⟩, inStart, later₁⟩ := Pattern.mem_bind.mp inTiming
  obtain ⟨⟨before, s₂⟩, inBefore, later₂⟩ := Pattern.mem_bind.mp later₁
  obtain ⟨⟨first, s₃⟩, inFirst, later₃⟩ := Pattern.mem_bind.mp later₂
  obtain ⟨⟨second, s₄⟩, inSecond, later₄⟩ := Pattern.mem_bind.mp later₃
  obtain ⟨⟨third, s₅⟩, inThird, later₅⟩ := Pattern.mem_bind.mp later₄
  obtain ⟨⟨after, s₆⟩, inAfter, later₆⟩ := Pattern.mem_bind.mp later₅
  obtain ⟨⟨_, s₇⟩, inFinish, later₇⟩ := Pattern.mem_bind.mp later₆
  obtain ⟨⟨rest, s₈⟩, inRest, final⟩ := Pattern.mem_bind.mp later₇
  obtain ⟨start, isStart, same₁⟩ := VttStamp.of_mem inStart
  obtain ⟨same₂, spaceBefore⟩ := Pattern.of_mem_many inBefore
  obtain ⟨same₃, dash₃⟩ := Pattern.mem_one.mp inFirst
  obtain ⟨same₄, dash₄⟩ := Pattern.mem_one.mp inSecond
  obtain ⟨same₅, arrow₅⟩ := Pattern.mem_one.mp inThird
  obtain ⟨same₆, spaceAfter⟩ := Pattern.of_mem_many inAfter
  obtain ⟨finish, isFinish, same₇⟩ := VttStamp.of_mem inFinish
  obtain ⟨same₈, _⟩ := Pattern.of_mem_many inRest
  have nothing : s₀ = [] := by
    cases s₀ with
    | nil => rfl
    | cons c s₀ => cases atEnd
  cases Pattern.mem_pure.mp final
  cases Pattern.mem_pure.mp isValue
  dsimp only at same₁ same₂ same₃ same₄ same₅ same₆ same₇ same₈ dash₃ dash₄ arrow₅ isStart isFinish
  rw [beq_iff_eq] at dash₃ dash₄ arrow₅
  subst dash₃ dash₄ arrow₅ same₁ same₂ same₃ same₄ same₅ same₆ same₇ same₈ nothing
  refine ⟨start, before, after, finish, spaceBefore, spaceAfter, isStart, isFinish, ?_⟩
  rw [List.append_nil, vttTimingText]

end SubtitleTranslator.Engine
