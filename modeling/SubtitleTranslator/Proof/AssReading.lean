import SubtitleTranslator.Construction.Formats
import SubtitleTranslator.Library.Fallible

namespace SubtitleTranslator.Engine
open Library Library.Text

/-- A Dialogue line of the events section makes a cue. -/
def isDialogue (inEvents : Bool) (line : Str) : Bool :=
  !isSection (strip line) && inEvents && !isNamed "format:" (strip line) &&
    isNamed "dialogue:" (strip line)

/-- The state of the reader after a line that is no Dialogue line. -/
def eventsAfter (inEvents : Bool) (fields : List Str) (line : Str) : Bool × List Str :=
  if isSection (strip line) then (lower (strip line) = ofString "[events]", fields)
  else if inEvents && isNamed "format:" (strip line) then (inEvents, formatFields line)
  else (inEvents, fields)

/-- The reader makes an event of a Dialogue line, and changes its state at other lines. -/
theorem readEvents_cons (inEvents : Bool) (fields : List Str) (number count : Nat) (line : Str)
    (rest : List Str) :
    readEvents inEvents fields number count (line :: rest) =
      if isDialogue inEvents line then do
        let event ← readDialogue fields number count line
        let events ← readEvents inEvents fields (number + 1) (count + 1) rest
        pure (event :: events)
      else readEvents (eventsAfter inEvents fields line).1 (eventsAfter inEvents fields line).2
        (number + 1) count rest := by
  rw [readEvents]
  unfold isDialogue eventsAfter
  cases isSection (strip line)
  · cases inEvents
    · rfl
    · cases isNamed "format:" (strip line)
      · cases isNamed "dialogue:" (strip line)
        · rfl
        · rfl
      · rfl
  · rfl

theorem mem_of_mem_lower {c : CodePoint} {s : Str} (other : ¬(0x61 ≤ c.val ∧ c.val ≤ 0x7a))
    (member : c ∈ lower s) : c ∈ s := by
  obtain ⟨d, inside, same⟩ := List.mem_map.mp member
  rw [lowerPoint] at same
  split at same
  · rename_i upper
    subst same
    dsimp only at other
    omega
  · exact same ▸ inside

/-- A Dialogue line has a colon. -/
theorem colon_mem_of_isDialogue {inEvents : Bool} {line : Str}
    (dialogue : isDialogue inEvents line = true) : 0x3a ∈ line := by
  rw [isDialogue, Bool.and_eq_true] at dialogue
  have inName : (0x3a : CodePoint) ∈ ofString "dialogue:" := by decide
  have inLower := (List.isPrefixOf_iff_prefix.mp dialogue.2).subset inName
  have inStripped : 0x3a ∈ strip line := mem_of_mem_lower (by decide) inLower
  have seen : 0x3a ∈ visible (strip line) := List.mem_filter.mpr ⟨inStripped, by decide⟩
  rw [visible_strip] at seen
  exact List.mem_of_mem_filter seen

/-- The part of a Dialogue line before its values: the prefix with the colon, and the space after
it. -/
def leadOf (line : Str) : Str :=
  line.takeWhile (· ≠ 0x3a) ++ [0x3a] ++ (afterColon line).takeWhile isSpace

/-- The parts of a line around its first colon. -/
theorem split_colon {line : Str} (colon : 0x3a ∈ line) :
    ∃ front, line = front ++ 0x3a :: afterColon line ∧ 0x3a ∉ front ∧
      line.takeWhile (· ≠ 0x3a) = front := by
  have kept : line.dropWhile (· ≠ 0x3a) ≠ [] := by
    intro nothing
    have all := List.dropWhile_eq_nil_iff.mp nothing 0x3a colon
    simp at all
  obtain ⟨c, rest, same⟩ := List.exists_cons_of_ne_nil kept
  have first : c = 0x3a := by
    have stop := List.head?_dropWhile_not (fun c : CodePoint => decide (c ≠ 0x3a)) line
    rw [same] at stop
    simpa using stop
  subst first
  refine ⟨line.takeWhile (· ≠ 0x3a), ?_, ?_, rfl⟩
  · rw [afterColon, same, List.tail_cons, ← same, List.takeWhile_append_dropWhile]
  · intro member
    have other := List.mem_takeWhile_imp member
    simp at other

/-- A text after a front without a colon and the colon is what follows the first colon. -/
theorem afterColon_append {front : Str} (outside : 0x3a ∉ front) (back : Str) :
    afterColon (front ++ 0x3a :: back) = back ∧
      (front ++ 0x3a :: back).takeWhile (· ≠ 0x3a) = front := by
  have all : ∀ c ∈ front, decide (c ≠ 0x3a) = true := by
    intro c member
    rw [decide_eq_true_eq]
    rintro rfl
    exact outside member
  constructor
  · rw [afterColon, List.dropWhile_append_of_pos all]
    rfl
  · rw [List.takeWhile_append_of_pos all]
    exact List.append_nil front

/-- A line with a colon is its lead and its values. -/
theorem leadOf_append {line : Str} (colon : 0x3a ∈ line) :
    leadOf line ++ lstrip (afterColon line) = line := by
  obtain ⟨front, whole, _, same⟩ := split_colon colon
  rw [leadOf, same, List.append_assoc, lstrip, List.takeWhile_append_dropWhile, List.append_assoc]
  exact whole.symm

/-- What the reader makes of a Dialogue line: the cue has the values of the times and the lines of
the text, and the record has the lead and the values of the line. -/
structure RecordFits (fields : List Str) (line : Str) (cue : Cue) (record : AssRecord) : Prop where
  textField : fields.idxOf? (ofString "text") = some record.textIndex
  length : record.values.length = fields.length
  values : record.values = splitMax 0x2c (fields.length - 1) (lstrip (afterColon line))
  lead : record.lead = leadOf line
  start : cue.start = fieldValue fields record.values "start"
  finish : cue.finish = fieldValue fields record.values "end"
  lines : cue.lines = splitPair 0x5c 0x4e (record.values[record.textIndex]?.getD [])
  dialect : cue.dialect = .ass

/-- The reader accepts a Dialogue line with a value for each field, one of which is the text. -/
theorem readDialogue_eq {fields : List Str} {number count : Nat} {line : Str} {cue : Cue}
    {record : AssRecord} (read : readDialogue fields number count line = .ok (cue, record)) :
    RecordFits fields line cue record ∧ record.line = number := by
  rw [readDialogue] at read
  split at read
  · cases read
  · dsimp only at read
    split at read
    · rename_i textIndex found
      split at read
      · rename_i length
        cases read
        exact ⟨⟨found, length, rfl, rfl, rfl, rfl, rfl, rfl⟩, rfl⟩
      · cases read
    · cases read

namespace RecordFits
variable {fields : List Str} {line : Str} {cue : Cue} {record : AssRecord}

theorem inside (fits : RecordFits fields line cue record) :
    record.textIndex < record.values.length := by
  rw [fits.length]
  exact (List.idxOf?_eq_some_iff.mp fits.textField).1

/-- The lines of the cue, joined, are the text of the record. -/
theorem text (fits : RecordFits fields line cue record) :
    record.values[record.textIndex]? = some (assText cue) := by
  rw [assText, fits.lines, List.getElem?_eq_getElem fits.inside]
  exact congrArg some (join_splitPair 0x5c 0x4e _).symm

/-- The lead and the values of a record are its line. -/
theorem whole (fits : RecordFits fields line cue record) (colon : 0x3a ∈ line) :
    record.lead ++ join [0x2c] record.values = line := by
  rw [fits.lead, fits.values, join_splitMax, leadOf_append colon]

/-- A Dialogue line is written back from its own cue. -/
theorem own (fits : RecordFits fields line cue record) (colon : 0x3a ∈ line) :
    assLine record (assText cue) = line := by
  have same : record.values.set record.textIndex (assText cue) = record.values := by
    obtain ⟨inRange, found⟩ := List.getElem?_eq_some_iff.mp fits.text
    rw [← found, List.set_getElem_self]
  rw [assLine, same, fits.whole colon]

end RecordFits

/-- An event of the reader is about a Dialogue line at its number. -/
def EventFits (number : Nat) (lines : List Str) (event : Cue × AssRecord) : Prop :=
  ∃ i line fields, event.2.line = number + i ∧ lines[i]? = some line ∧ isDialogue true line = true ∧
    RecordFits fields line event.1 event.2

theorem EventFits.cons {number : Nat} {lines : List Str} {event : Cue × AssRecord}
    (fits : EventFits (number + 1) lines event) (line : Str) :
    EventFits number (line :: lines) event := by
  obtain ⟨i, source, fields, isLine, found, rest⟩ := fits
  exact ⟨i + 1, source, fields, by omega, found, rest⟩

/-- The events of a file are about its Dialogue lines, in order. -/
theorem readEvents_fits {inEvents : Bool} {fields : List Str} {number count : Nat}
    {lines : List Str} {events : List (Cue × AssRecord)}
    (read : readEvents inEvents fields number count lines = .ok events) :
    (∀ event ∈ events, EventFits number lines event) ∧
      events.Pairwise (fun event later => event.2.line < later.2.line) := by
  induction lines generalizing inEvents fields number count events with
  | nil =>
      cases read
      exact ⟨List.forall_mem_nil _, .nil⟩
  | cons line rest ih =>
      rw [readEvents_cons] at read
      split at read
      · rename_i dialogue
        obtain ⟨event, isEvent, more⟩ := Fallible.bind_ok.mp read
        obtain ⟨others, later, same⟩ := Fallible.bind_ok.mp more
        cases same
        obtain ⟨fits, isLine⟩ := readDialogue_eq isEvent
        obtain ⟨all, ordered⟩ := ih later
        have isTrue : isDialogue true line = true := by
          cases inEvents with
          | true => exact dialogue
          | false => simp [isDialogue] at dialogue
        constructor
        · exact List.forall_mem_cons.mpr ⟨⟨0, line, fields, isLine, rfl, isTrue, fits⟩,
            fun other member => (all other member).cons line⟩
        · refine .cons (fun other member => ?_) ordered
          obtain ⟨i, _, _, isOther, _⟩ := all other member
          omega
      · obtain ⟨all, ordered⟩ := ih read
        exact ⟨fun other member => (all other member).cons line, ordered⟩

theorem length_replaceLines (items : List (Cue × AssRecord)) (lines : List Str) :
    (replaceLines items lines).length = lines.length := by
  induction items generalizing lines with
  | nil => rfl
  | cons item items ih =>
      show (replaceLines items (lines.set _ _)).length = _
      rw [ih, List.length_set]

/-- Lines without a record stay. -/
theorem getElem?_replaceLines_of_ne {items : List (Cue × AssRecord)} {lines : List Str} {i : Nat}
    (other : ∀ item ∈ items, item.2.line ≠ i) : (replaceLines items lines)[i]? = lines[i]? := by
  induction items generalizing lines with
  | nil => rfl
  | cons item items ih =>
      rw [List.forall_mem_cons] at other
      show (replaceLines items (lines.set _ _))[i]? = _
      rw [ih other.2, List.getElem?_set_ne other.1]

/-- The line of a record is written anew. -/
theorem getElem?_replaceLines {items : List (Cue × AssRecord)} {lines : List Str}
    (ordered : items.Pairwise fun item later => item.2.line < later.2.line)
    {item : Cue × AssRecord} (member : item ∈ items) (inside : item.2.line < lines.length) :
    (replaceLines items lines)[item.2.line]? = some (assLine item.2 (assText item.1)) := by
  induction items generalizing lines with
  | nil => cases member
  | cons first items ih =>
      rw [List.pairwise_cons] at ordered
      show (replaceLines items (lines.set _ _))[item.2.line]? = _
      rcases List.mem_cons.mp member with rfl | later
      · rw [getElem?_replaceLines_of_ne fun other inItems => (ordered.1 other inItems).ne',
          List.getElem?_set_self inside]
      · exact ih ordered.2 later (by rwa [List.length_set])

end SubtitleTranslator.Engine
