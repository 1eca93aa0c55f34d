import SubtitleTranslator.Construction.Formats
import SubtitleTranslator.Proof.Sentinels

namespace SubtitleTranslator.Engine
open Library Library.Text

/-- A time stamp has one or two digits for the hours, two for the minutes and the seconds, and up
to three after the mark. -/
structure TimeStamp where
  hours : Str
  minutes : Str
  seconds : Str
  mark : CodePoint
  fraction : Str
  digits : ∀ c ∈ hours ++ minutes ++ seconds ++ fraction, isDecimal c = true
  hoursFit : 1 ≤ hours.length ∧ hours.length ≤ 2
  minutesFit : minutes.length = 2
  secondsFit : seconds.length = 2
  isMark : mark = 0x2c ∨ mark = 0x2e
  fractionFit : 1 ≤ fraction.length ∧ fraction.length ≤ 3

namespace TimeStamp

def text (stamp : TimeStamp) : Str :=
  stamp.hours ++ 0x3a :: stamp.minutes ++ 0x3a :: stamp.seconds ++ stamp.mark :: stamp.fraction

/-- A time stamp is read whole when its digits end with it. -/
def EndsAt (stamp : TimeStamp) (left : Str) : Prop :=
  stamp.fraction.length = 3 ∨ ∀ c ∈ left.head?, isDecimal c = false

theorem match_bind {γ : Type} (stamp : TimeStamp) {left : Str} {next : Str → Pattern CodePoint γ}
    {result : γ × Str} (ends : stamp.EndsAt left)
    (accepted : (next stamp.text).match? left = some result) :
    (timeRe >>= next).match? (stamp.text ++ left) = some result := by
  have digits := stamp.digits
  simp only [List.forall_mem_append] at digits
  obtain ⟨⟨⟨hours, minutes⟩, seconds⟩, fraction⟩ := digits
  have minuteStep := @Pattern.match?_exactly_bind _ γ isDecimal stamp.minutes minutes
  have secondStep := @Pattern.match?_exactly_bind _ γ isDecimal stamp.seconds seconds
  rw [stamp.minutesFit] at minuteStep
  rw [stamp.secondsFit] at secondStep
  have colon : isDecimal 0x3a = false := by decide
  have mark : (stamp.mark == 0x2c || stamp.mark == 0x2e) = true := by
    simpa using stamp.isMark
  rw [timeRe, text]
  simp only [bind_assoc, List.append_assoc, List.cons_append]
  apply Pattern.match?_between_bind_run hours stamp.hoursFit.1 stamp.hoursFit.2
  · exact .inr fun c front => by cases front; exact colon
  · rw [Pattern.match?_one_bind, if_pos (by decide), minuteStep, Pattern.match?_one_bind,
      if_pos (by decide), secondStep, Pattern.match?_one_bind, if_pos mark]
    apply Pattern.match?_between_bind_run fraction stamp.fractionFit.1 stamp.fractionFit.2 ends
    rw [pure_bind]
    simpa only [text, List.append_assoc, List.cons_append] using accepted

/-- What `timeRe` reads is a time stamp. -/
theorem of_mem {s : Str} {result : Str × Str} (member : result ∈ timeRe s) :
    ∃ stamp : TimeStamp, result.1 = stamp.text ∧ s = stamp.text ++ result.2 := by
  obtain ⟨⟨hours, s₁⟩, inHours, later₁⟩ := Pattern.mem_bind.mp member
  obtain ⟨⟨first, s₂⟩, inFirst, later₂⟩ := Pattern.mem_bind.mp later₁
  obtain ⟨⟨minutes, s₃⟩, inMinutes, later₃⟩ := Pattern.mem_bind.mp later₂
  obtain ⟨⟨second, s₄⟩, inSecond, later₄⟩ := Pattern.mem_bind.mp later₃
  obtain ⟨⟨seconds, s₅⟩, inSeconds, later₅⟩ := Pattern.mem_bind.mp later₄
  obtain ⟨⟨mark, s₆⟩, inMark, later₆⟩ := Pattern.mem_bind.mp later₅
  obtain ⟨⟨fraction, s₇⟩, inFraction, final⟩ := Pattern.mem_bind.mp later₆
  obtain ⟨same₁, most₁, least₁, digits₁⟩ := Pattern.of_mem_between (by decide) inHours
  obtain ⟨same₂, colon₂⟩ := Pattern.mem_one.mp inFirst
  obtain ⟨same₃, length₃, digits₃⟩ := Pattern.of_mem_exactly inMinutes
  obtain ⟨same₄, colon₄⟩ := Pattern.mem_one.mp inSecond
  obtain ⟨same₅, length₅, digits₅⟩ := Pattern.of_mem_exactly inSeconds
  obtain ⟨same₆, isMark⟩ := Pattern.mem_one.mp inMark
  obtain ⟨same₇, most₇, least₇, digits₇⟩ := Pattern.of_mem_between (by decide) inFraction
  rw [Pattern.mem_pure] at final
  subst final
  dsimp only at same₁ same₂ same₃ same₄ same₅ same₆ same₇ colon₂ colon₄ isMark
  rw [beq_iff_eq] at colon₂ colon₄
  subst colon₂ colon₄ same₁ same₂ same₃ same₄ same₅ same₆ same₇
  refine ⟨⟨hours, minutes, seconds, mark, fraction, ?_, ⟨most₁, least₁⟩, length₃, length₅, ?_,
    ⟨most₇, least₇⟩⟩, ?_, ?_⟩
  · simp only [List.forall_mem_append]
    exact ⟨⟨⟨digits₁, digits₃⟩, digits₅⟩, digits₇⟩
  · simpa using isMark
  · rfl
  · simp only [text, List.append_assoc, List.cons_append]

theorem head_text (stamp : TimeStamp) : ∃ c ∈ stamp.text.head?, isDecimal c = true := by
  have digits := stamp.digits
  simp only [List.forall_mem_append] at digits
  cases hours : stamp.hours with
  | nil =>
      have fit := stamp.hoursFit.1
      rw [hours] at fit
      cases fit
  | cons c rest =>
      refine ⟨c, ?_, digits.1.1.1 c (by simp [hours])⟩
      simp [text, hours]

/-- A time stamp has no whitespace. -/
theorem isSpace_of_mem (stamp : TimeStamp) {c : CodePoint} (member : c ∈ stamp.text) :
    isSpace c = false := by
  have digits := stamp.digits
  have ofDigit {d : CodePoint} (digit : isDecimal d = true) : isSpace d = false := by
    by_contra space
    rw [isDecimal_of_isSpace (by simpa using space)] at digit
    cases digit
  simp only [List.forall_mem_append] at digits
  simp only [text, List.mem_append, List.mem_cons] at member
  rcases member with ((inHours | rfl | inMinutes) | rfl | inSeconds) | isMark | inFraction
  · exact ofDigit (digits.1.1.1 c inHours)
  · decide
  · exact ofDigit (digits.1.1.2 c inMinutes)
  · decide
  · exact ofDigit (digits.1.2 c inSeconds)
  · rcases stamp.isMark with comma | dot
    · rw [isMark, comma]
      decide
    · rw [isMark, dot]
      decide
  · exact ofDigit (digits.2 c inFraction)

/-- More digits of the fraction belong to the time stamp while it has room for them. -/
def extend (stamp : TimeStamp) (more : Str) (digits : ∀ c ∈ more, isDecimal c = true)
    (fits : stamp.fraction.length + more.length ≤ 3) : TimeStamp :=
  { stamp with
    fraction := stamp.fraction ++ more
    digits := by
      have before := stamp.digits
      simp only [List.forall_mem_append] at before ⊢
      exact ⟨before.1, before.2, digits⟩
    fractionFit := by
      have least := stamp.fractionFit.1
      rw [List.length_append]
      omega }

theorem extend_text (stamp : TimeStamp) (more : Str) (digits : ∀ c ∈ more, isDecimal c = true)
    (fits : stamp.fraction.length + more.length ≤ 3) :
    (stamp.extend more digits fits).text = stamp.text ++ more := by
  simp only [text, extend, List.append_assoc, List.cons_append]

/-- A time stamp takes the digits after it for which it has room. -/
theorem exists_extend (stamp : TimeStamp) (tail : Str) :
    ∃ (longer : TimeStamp) (more left : Str), longer.text = stamp.text ++ more ∧
      longer.fraction = stamp.fraction ++ more ∧ tail = more ++ left ∧ longer.EndsAt left := by
  have room := stamp.fractionFit.2
  let run := tail.takeWhile isDecimal
  let more := run.take (3 - stamp.fraction.length)
  have digits : ∀ c ∈ more, isDecimal c = true := fun c member =>
    List.mem_takeWhile_imp (List.mem_of_mem_take member)
  have length : more.length = min (3 - stamp.fraction.length) run.length := List.length_take
  refine ⟨stamp.extend more digits (by omega), more, run.drop (3 - stamp.fraction.length) ++
    tail.dropWhile isDecimal, stamp.extend_text more digits (by omega), rfl, ?_, ?_⟩
  · rw [← List.append_assoc, List.take_append_drop, List.takeWhile_append_dropWhile]
  · by_cases full : 3 - stamp.fraction.length ≤ run.length
    · refine .inl ?_
      show (stamp.fraction ++ more).length = 3
      rw [List.length_append]
      omega
    · refine .inr ?_
      rw [List.drop_eq_nil_of_le (by omega), List.nil_append]
      intro c front
      have stop := List.head?_dropWhile_not isDecimal tail
      rw [front] at stop
      exact stop

end TimeStamp

theorem isSpace_of_head {s : Str} (digit : ∃ c ∈ s.head?, isDecimal c = true) :
    ∀ c ∈ s.head?, isSpace c = false := by
  obtain ⟨first, front, isDigit⟩ := digit
  intro c member
  cases Option.mem_unique front member
  by_contra space
  rw [isDecimal_of_isSpace (by simpa using space)] at isDigit
  cases isDigit

/-- The text of a timing from its first digit on. -/
def timingText (start : TimeStamp) (before after : Str) (finish : TimeStamp) (rest : Str) : Str :=
  start.text ++ (before ++ 0x2d :: 0x2d :: 0x3e :: (after ++ (finish.text ++ rest)))

theorem match_timingRe (start finish : TimeStamp) {before after rest : Str}
    (spaceBefore : ∀ c ∈ before, isSpace c = true) (spaceAfter : ∀ c ∈ after, isSpace c = true)
    (ends : finish.EndsAt rest) (oneLine : 0xa ∉ rest) :
    timingRe.match? (timingText start before after finish rest) =
      some (⟨start.text, finish.text, rest⟩, []) := by
  have inLine : ∀ c ∈ rest, isNotNewline c = true := by
    intro c member
    simp only [isNotNewline, bne_iff_ne]
    rintro rfl
    exact oneLine member
  rw [timingRe, timingText]
  apply TimeStamp.match_bind
  · refine .inr fun c front => ?_
    cases before with
    | nil => cases front; decide
    | cons d before => cases front; exact isDecimal_of_isSpace (spaceBefore _ List.mem_cons_self)
  · apply Pattern.match?_many_bind_run spaceBefore (fun c front => by cases front; decide)
    rw [Pattern.match?_one_bind, if_pos (by decide), Pattern.match?_one_bind, if_pos (by decide),
      Pattern.match?_one_bind, if_pos (by decide)]
    apply Pattern.match?_many_bind_run spaceAfter
    · apply isSpace_of_head
      obtain ⟨c, front, digit⟩ := finish.head_text
      refine ⟨c, ?_, digit⟩
      rw [List.head?_append, front]
      rfl
    · apply finish.match_bind ends
      conv_lhs => rw [← List.append_nil rest]
      exact Pattern.match?_many_bind_run inLine (by simp) rfl

/-- What `timingRe` reads is the text of a timing. -/
theorem of_mem_timingRe {s : Str} {result : Timing × Str} (member : result ∈ timingRe s) :
    ∃ start before after finish, (∀ c ∈ before, isSpace c = true) ∧
      (∀ c ∈ after, isSpace c = true) ∧ result.1.start = TimeStamp.text start ∧
        result.1.finish = TimeStamp.text finish ∧
          s = timingText start before after finish (result.1.rest ++ result.2) := by
  obtain ⟨⟨_, s₁⟩, inStart, later₁⟩ := Pattern.mem_bind.mp member
  obtain ⟨⟨before, s₂⟩, inBefore, later₂⟩ := Pattern.mem_bind.mp later₁
  obtain ⟨⟨first, s₃⟩, inFirst, later₃⟩ := Pattern.mem_bind.mp later₂
  obtain ⟨⟨second, s₄⟩, inSecond, later₄⟩ := Pattern.mem_bind.mp later₃
  obtain ⟨⟨third, s₅⟩, inThird, later₅⟩ := Pattern.mem_bind.mp later₄
  obtain ⟨⟨after, s₆⟩, inAfter, later₆⟩ := Pattern.mem_bind.mp later₅
  obtain ⟨⟨_, s₇⟩, inFinish, later₇⟩ := Pattern.mem_bind.mp later₆
  obtain ⟨⟨rest, s₈⟩, inRest, final⟩ := Pattern.mem_bind.mp later₇
  obtain ⟨start, isStart, same₁⟩ := TimeStamp.of_mem inStart
  obtain ⟨same₂, spaceBefore⟩ := Pattern.of_mem_many inBefore
  obtain ⟨same₃, dash₃⟩ := Pattern.mem_one.mp inFirst
  obtain ⟨same₄, dash₄⟩ := Pattern.mem_one.mp inSecond
  obtain ⟨same₅, arrow₅⟩ := Pattern.mem_one.mp inThird
  obtain ⟨same₆, spaceAfter⟩ := Pattern.of_mem_many inAfter
  obtain ⟨finish, isFinish, same₇⟩ := TimeStamp.of_mem inFinish
  obtain ⟨same₈, _⟩ := Pattern.of_mem_many inRest
  rw [Pattern.mem_pure] at final
  subst final
  dsimp only at same₁ same₂ same₃ same₄ same₅ same₆ same₇ same₈ dash₃ dash₄ arrow₅ isStart isFinish
  rw [beq_iff_eq] at dash₃ dash₄ arrow₅
  subst dash₃ dash₄ arrow₅ same₁ same₂ same₃ same₄ same₅ same₆ same₇ same₈
  exact ⟨start, before, after, finish, spaceBefore, spaceAfter, isStart, isFinish, rfl⟩

/-- The times that a search finds in a line are time stamps, and the second one is as long as it may
be. -/
theorem of_timing? {line : Str} {timing : Timing} (found : timing? line = some timing)
    (oneLine : 0xa ∉ line) :
    ∃ start finish : TimeStamp, timing.start = start.text ∧ timing.finish = finish.text ∧
      finish.EndsAt timing.rest ∧ ∀ c ∈ timing.rest, c ∈ line := by
  obtain ⟨⟨read, left⟩, searched, same⟩ := Option.map_eq_some_iff.mp found
  dsimp only at same
  subst same
  obtain ⟨front, back, split, matched⟩ := Pattern.of_search? searched
  obtain ⟨start, before, after, finish, spaceBefore, spaceAfter, isStart, isFinish, text⟩ :=
    of_mem_timingRe (Pattern.match?_mem matched)
  dsimp only at isStart isFinish text
  have inLine : ∀ c ∈ read.rest ++ left, c ∈ line := by
    intro c member
    rw [split, text, timingText]
    rw [List.mem_append] at member
    simp [member]
  obtain ⟨longer, more, others, longerText, fraction, tail, ends⟩ :=
    finish.exists_extend (read.rest ++ left)
  -- The longest time stamp at this place is the one that the pattern prefers.
  have preferred := match_timingRe start longer spaceBefore spaceAfter ends
    fun member => oneLine (inLine _ (by rw [tail]; exact List.mem_append_right _ member))
  have whole : timingText start before after longer others = back := by
    rw [text, tail, timingText, timingText, longerText, List.append_assoc finish.text]
  rw [whole, matched] at preferred
  cases preferred
  have nothing : more = [] := by
    have same : longer.text = finish.text := isFinish
    rw [same] at longerText
    simpa using longerText.symm
  rw [nothing, List.append_nil] at fraction
  refine ⟨start, finish, isStart, isFinish, ?_, fun c member => inLine c (List.mem_append_left _ member)⟩
  rw [TimeStamp.EndsAt, ← fraction]
  exact ends

/-- A line with a timing has the arrow of the timing. -/
theorem dash_mem_of_isTiming {line : Str} (timed : isTiming line = true) : 0x2d ∈ line := by
  rw [isTiming, timing?, Option.isSome_map, Option.isSome_iff_exists] at timed
  obtain ⟨result, searched⟩ := timed
  obtain ⟨front, back, split, matched⟩ := Pattern.of_search? searched
  obtain ⟨start, before, after, finish, _, _, _, _, text⟩ :=
    of_mem_timingRe (Pattern.match?_mem matched)
  rw [split, text, timingText]
  simp

/-- A blank line has no timing. -/
theorem isTiming_of_blank {line : Str} (empty : blank line = true) : isTiming line = false := by
  by_contra timed
  have dash := dash_mem_of_isTiming (by simpa using timed)
  exact absurd (List.all_eq_true.mp empty _ dash) (by decide)

/-- An index line has no timing. -/
theorem isTiming_of_isIndex {line : Str} (index : isIndex line = true) : isTiming line = false := by
  by_contra timed
  have dash := dash_mem_of_isTiming (by simpa using timed)
  have seen : 0x2d ∈ visible (strip line) := by
    rw [visible_strip]
    exact List.mem_filter.mpr ⟨dash, by decide⟩
  rw [isIndex, Bool.and_eq_true, List.all_eq_true] at index
  exact absurd (index.2 _ (List.mem_of_mem_filter seen)) (by decide)

/-- The times of a cue are read back from the line that carries them. -/
structure Timed (cue : Cue) : Prop where
  read : timing? (timingLine cue) = some ⟨cue.start, cue.finish, cue.rest⟩
  trimmed : rstrip cue.rest = cue.rest
  oneLine : 0xa ∉ timingLine cue ∧ 0xd ∉ timingLine cue

theorem rstrip_front (s : Str) : rstrip s <+: s := List.rdropWhile_prefix isSpace s

/-- A cue with the times of a line is read back. -/
theorem timed_of_timing? {line : Str} {timing : Timing} (found : timing? line = some timing)
    (oneLine : 0xa ∉ line ∧ 0xd ∉ line) (index : Option Nat) (auto : Nat) (body : List Str) :
    Timed (srtCue index auto timing body) := by
  obtain ⟨start, finish, isStart, isFinish, ends, inLine⟩ := of_timing? found oneLine.1
  have inRest : ∀ c ∈ rstrip timing.rest, c ∈ line :=
    fun c member => inLine c ((rstrip_front timing.rest).subset member)
  have text : timingLine (srtCue index auto timing body) =
      timingText start [0x20] [0x20] finish (rstrip timing.rest) := by
    show timing.start ++ ofString " --> " ++ timing.finish ++ rstrip timing.rest = _
    rw [isStart, isFinish, timingText, List.append_assoc, List.append_assoc]
    rfl
  have endsAt : finish.EndsAt (rstrip timing.rest) := by
    refine ends.imp_right fun stop c front => stop c ?_
    obtain ⟨tail, same⟩ := rstrip_front timing.rest
    rw [← same, List.head?_append, front]
    rfl
  have outside {c : CodePoint} (space : isSpace c = true) (other : c ≠ 0x20) (absent : c ∉ line) :
      c ∉ timingLine (srtCue index auto timing body) := by
    have notIn (stamp : TimeStamp) : c ∉ stamp.text := fun member => by
      rw [stamp.isSpace_of_mem member] at space
      cases space
    have dash : c ≠ 0x2d := by
      rintro rfl
      cases space
    have arrow : c ≠ 0x3e := by
      rintro rfl
      cases space
    rw [text, timingText]
    simp only [List.mem_append, List.mem_cons, List.not_mem_nil, not_or]
    exact ⟨notIn start, ⟨other, id⟩, dash, dash, arrow, ⟨other, id⟩, notIn finish,
      fun member => absent (inRest c member)⟩
  have space : ∀ c ∈ ([0x20] : Str), isSpace c = true := List.forall_mem_singleton.mpr (by decide)
  have matched := match_timingRe start finish space space endsAt
    fun member => oneLine.1 (inRest _ member)
  refine ⟨?_, List.rdropWhile_idempotent _ _, outside (by decide) (by decide) oneLine.1,
    outside (by decide) (by decide) oneLine.2⟩
  rw [timing?, text, Pattern.search?_of_match? matched, ← isStart, ← isFinish]
  rfl

end SubtitleTranslator.Engine
