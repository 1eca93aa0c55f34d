import SubtitleTranslator.Proof.AssReading

namespace SubtitleTranslator.Engine
open Library Library.Text

/-- A line that the reader of events reacts to in some state. -/
def isDirective (line : Str) : Bool :=
  isSection (strip line) || isNamed "format:" (strip line) || isNamed "dialogue:" (strip line)

/-- The reader passes over lines that are no directives. -/
theorem readEvents_skip {more : List Str} (plain : ∀ line ∈ more, isDirective line = false)
    (inEvents : Bool) (fields : List Str) (number count : Nat) (rest : List Str) :
    readEvents inEvents fields number count (more ++ rest) =
      readEvents inEvents fields (number + more.length) count rest := by
  induction more generalizing number with
  | nil => rfl
  | cons line more ih =>
      rw [List.forall_mem_cons] at plain
      have parts := plain.1
      rw [isDirective, Bool.or_eq_false_iff, Bool.or_eq_false_iff] at parts
      have other : isDialogue inEvents line = false := by simp [isDialogue, parts.2]
      have same : eventsAfter inEvents fields line = (inEvents, fields) := by
        simp [eventsAfter, parts.1]
      rw [List.cons_append, readEvents_cons, other, same]
      show readEvents inEvents fields (number + 1) count (more ++ rest) = _
      rw [ih plain.2, List.length_cons]
      congr 1
      omega

/-- A text with a front and its first later separator is a prefix match of the front alone. -/
theorem eq_of_prefix_cons {word front back : Str} {stop : CodePoint} (notIn : stop ∉ word)
    (outside : stop ∉ front) (match_ : word ++ [stop] <+: front ++ stop :: back) : front = word := by
  induction word generalizing front with
  | nil =>
      cases front with
      | nil => rfl
      | cons c front =>
          obtain ⟨same, _⟩ := List.cons_prefix_cons.mp match_
          rw [same] at outside
          exact absurd List.mem_cons_self outside
  | cons c word ih =>
      rw [List.mem_cons, not_or] at notIn
      cases front with
      | nil =>
          obtain ⟨same, _⟩ := List.cons_prefix_cons.mp match_
          exact absurd same.symm notIn.1
      | cons d front =>
          rw [List.mem_cons, not_or] at outside
          obtain ⟨same, tail⟩ := List.cons_prefix_cons.mp match_
          rw [same, ih notIn.2 outside.2 tail]

theorem lower_append (s t : Str) : lower (s ++ t) = lower s ++ lower t := List.map_append

/-- A Dialogue line has the word before its first colon, in any case and after any space. -/
theorem isNamed_dialogue {front : Str} (outside : 0x3a ∉ front) (back : Str) :
    isNamed "dialogue:" (strip (front ++ 0x3a :: back)) = true ↔
      lower (lstrip front) = ofString "dialogue" := by
  have stripped : strip (front ++ 0x3a :: back) = lstrip front ++ 0x3a :: rstrip back := by
    rw [strip, lstrip_append front ⟨0x3a, rfl, by decide⟩, ← List.singleton_append,
      ← List.append_assoc, rstrip_append ⟨0x3a, by simp, by decide⟩, List.append_assoc]
    rfl
  have lowered : lower (strip (front ++ 0x3a :: back)) =
      lower (lstrip front) ++ 0x3a :: lower (rstrip back) := by
    rw [stripped, lower_append]
    rfl
  have word : ofString "dialogue:" = ofString "dialogue" ++ [0x3a] := by decide
  rw [isNamed, List.isPrefixOf_iff_prefix, lowered, word]
  constructor
  · intro named
    refine eq_of_prefix_cons (by decide) (fun member => outside ?_) named
    exact (List.dropWhile_sublist isSpace).subset (mem_of_mem_lower (by decide) member)
  · intro same
    rw [same, ← List.singleton_append, ← List.append_assoc]
    exact List.prefix_append _ _

/-- The word of a Dialogue line is neither a bracket nor the word of a Format line. -/
theorem isDialogue_eq (line : Str) :
    isDialogue true line = isNamed "dialogue:" (strip line) := by
  cases named : isNamed "dialogue:" (strip line) with
  | false => simp [isDialogue, named]
  | true =>
      have first : (lower (strip line)).head? = some 0x64 := by
        obtain ⟨back, same⟩ := List.isPrefixOf_iff_prefix.mp named
        rw [← same]
        rfl
      have notFormat : isNamed "format:" (strip line) = false := by
        rw [isNamed, ← Bool.not_eq_true, List.isPrefixOf_iff_prefix]
        rintro ⟨back, same⟩
        rw [← same] at first
        cases first
      have notSection : isSection (strip line) = false := by
        rw [isSection, Bool.and_eq_false_iff]
        refine .inl (decide_eq_false fun bracket => ?_)
        rw [lower, List.head?_map, bracket] at first
        cases first
      rw [isDialogue, notFormat, notSection, named]
      rfl

namespace RecordFits
variable {fields : List Str} {line : Str} {cue : Cue} {record : AssRecord}

/-- A line with a new text has the front of its line, and the new values after the leading space. -/
theorem assLine_eq (fits : RecordFits fields line cue record) (colon : 0x3a ∈ line) (text : Str) :
    ∃ front spaces, line = front ++ 0x3a :: afterColon line ∧ 0x3a ∉ front ∧
      (∀ c ∈ spaces, isSpace c = true) ∧ assLine record text =
        front ++ 0x3a :: (spaces ++ join [0x2c] (record.values.set record.textIndex text)) := by
  obtain ⟨front, whole, outside, same⟩ := split_colon colon
  refine ⟨front, (afterColon line).takeWhile isSpace, whole, outside,
    fun c member => List.mem_takeWhile_imp member, ?_⟩
  rw [assLine, fits.lead, leadOf, same]
  simp only [List.append_assoc, List.cons_append, List.nil_append]

/-- A Dialogue line with a new text is a Dialogue line. -/
theorem isDialogue_assLine (fits : RecordFits fields line cue record)
    (dialogue : isDialogue true line = true) (text : Str) :
    isDialogue true (assLine record text) = true := by
  obtain ⟨front, spaces, whole, outside, _, written⟩ :=
    fits.assLine_eq (colon_mem_of_isDialogue dialogue) text
  rw [isDialogue_eq] at dialogue ⊢
  rw [whole, isNamed_dialogue outside] at dialogue
  rw [written, isNamed_dialogue outside]
  exact dialogue

theorem lstrip_afterColon (fits : RecordFits fields line cue record) (colon : 0x3a ∈ line)
    (text : Str) :
    lstrip (afterColon (assLine record text)) =
      lstrip (join [0x2c] (record.values.set record.textIndex text)) := by
  obtain ⟨front, spaces, _, outside, allSpaces, written⟩ := fits.assLine_eq colon text
  rw [written, (afterColon_append outside _).1, lstrip, List.dropWhile_append_of_pos allSpaces]
  rfl

/-- The values of a line start with a visible character, if any. -/
theorem lstrip_values (fits : RecordFits fields line cue record) :
    lstrip (join [0x2c] record.values) = join [0x2c] record.values := by
  rw [fits.values, join_splitMax]
  exact List.dropWhile_idempotent _ _

/-- Stripping the front of the values changes nothing but white space of a leading text. -/
theorem exists_lstrip (fits : RecordFits fields line cue record) (text : Str) :
    ∃ kept, (0x2c ∈ kept ↔ 0x2c ∈ text) ∧
      lstrip (join [0x2c] (record.values.set record.textIndex text)) =
        join [0x2c] (record.values.set record.textIndex kept) := by
  have inside := fits.inside
  have stripped := fits.lstrip_values
  cases values : record.values with
  | nil =>
      rw [values] at inside
      cases inside
  | cons first rest =>
      rw [values] at stripped
      cases place : record.textIndex with
      | zero =>
          refine ⟨lstrip text, ?_, ?_⟩
          · have comma (s : Str) : 0x2c ∈ s ↔ 0x2c ∈ visible s := by
              rw [visible, List.mem_filter]
              exact ⟨fun member => ⟨member, by decide⟩, And.left⟩
            rw [comma, visible_lstrip, ← comma]
          · cases rest with
            | nil => rw [List.set_cons_zero, List.set_cons_zero, join_singleton, join_singleton]
            | cons next rest =>
                rw [List.set_cons_zero, List.set_cons_zero, join_cons_cons, join_cons_cons,
                  List.append_assoc, List.append_assoc]
                exact lstrip_append text ⟨0x2c, rfl, by decide⟩
      | succ i =>
          refine ⟨text, Iff.rfl, ?_⟩
          rw [values, place, List.length_cons, Nat.add_lt_add_iff_right] at inside
          have more : rest ≠ [] := by
            rintro rfl
            cases inside
          have others : rest.set i text ≠ [] := by
            rwa [ne_eq, List.set_eq_nil_iff]
          rw [List.set_cons_succ, join_cons _ _ others, List.append_assoc]
          rw [join_cons _ _ more, List.append_assoc] at stripped
          cases first with
          | nil => exact List.dropWhile_cons_of_neg (by decide)
          | cons c first =>
              have seen : isSpace c = false := by
                by_contra space
                rw [Bool.not_eq_false] at space
                rw [lstrip, List.cons_append, List.dropWhile_cons_of_pos space] at stripped
                have short := congrArg List.length stripped
                have most := (List.dropWhile_suffix (l := first ++ ([0x2c] ++ join [0x2c] rest))
                  isSpace).length_le
                rw [short, List.length_cons] at most
                omega
              exact List.dropWhile_cons_of_neg (by simp [seen])

/-- A line with a new text is read with the same fields. -/
theorem exists_read (fits : RecordFits fields line cue record)
    (dialogue : isDialogue true line = true) (text : Str) (number count : Nat) :
    ∃ again, readDialogue fields number count (assLine record text) = .ok again ∧
      RecordFits fields (assLine record text) again.1 again.2 := by
  have colon := colon_mem_of_isDialogue dialogue
  obtain ⟨kept, _, stripped⟩ := fits.exists_lstrip text
  have some_ : fields ≠ [] := by
    rintro rfl
    cases fits.textField
  have positive : 0 < fields.length := List.length_pos_iff.mpr some_
  have length : (splitMax 0x2c (fields.length - 1)
      (lstrip (afterColon (assLine record text)))).length = fields.length := by
    have commas := count_join 0x2c (record.values.set record.textIndex kept)
    rw [List.length_set, fits.length] at commas
    rw [splitMax_length, fits.lstrip_afterColon colon, stripped]
    omega
  have read : ∃ again, readDialogue fields number count (assLine record text) = .ok again := by
    rw [readDialogue, if_neg some_]
    simp only [fits.textField]
    rw [if_pos length]
    exact ⟨_, rfl⟩
  obtain ⟨again, read⟩ := read
  exact ⟨again, read, (readDialogue_eq read).1⟩

end RecordFits

/-- Two records have the same values but for the text. -/
structure SameFields (record again : AssRecord) : Prop where
  length : again.values.length = record.values.length
  textIndex : again.textIndex = record.textIndex
  values : ∀ i, i ≠ record.textIndex → again.values[i]? = record.values[i]?

/-- The text is the last field of a record, or has no comma. -/
def Fieldwise (record : AssRecord) (text : Str) : Prop :=
  record.textIndex + 1 = record.values.length ∨ 0x2c ∉ text

/-- Lists that agree outside one place differ by a replacement. -/
theorem eq_set_of_agree {α : Type} {xs ys : List α} {i : Nat} (inside : i < ys.length)
    (length : ys.length = xs.length) (agree : ∀ j, j ≠ i → ys[j]? = xs[j]?) :
    ys = xs.set i ys[i] := by
  apply List.ext_getElem?
  intro j
  by_cases here : j = i
  · subst here
    rw [List.getElem?_set_self (by omega), List.getElem?_eq_getElem inside]
  · rw [List.getElem?_set_ne (Ne.symm here), agree j here]

theorem mem_dropLast_of_lt {α : Type} (xs : List α) (i : Nat) (inside : i + 1 < xs.length) :
    xs[i] ∈ xs.dropLast := by
  rw [← List.getElem_dropLast (by rw [List.length_dropLast]; omega)]
  exact List.getElem_mem _

namespace RecordFits
variable {fields : List Str} {line : Str} {cue : Cue} {record : AssRecord}

theorem ne_nil (fits : RecordFits fields line cue record) : record.values ≠ [] := by
  intro none_
  have inside := fits.inside
  rw [none_] at inside
  cases inside

/-- The values of a line but the last one have no comma. -/
theorem not_mem_dropLast (fits : RecordFits fields line cue record) :
    ∀ value ∈ record.values.dropLast, 0x2c ∉ value := by
  rw [fits.values]
  exact fun _ member => not_mem_of_mem_splitMax member

/-- Reading a line with a new text gives the other fields back exactly when the text is the last
field or has no comma. -/
theorem sameFields_iff (fits : RecordFits fields line cue record)
    (dialogue : isDialogue true line = true) {text : Str} {newCue : Cue} {again : AssRecord}
    (refits : RecordFits fields (assLine record text) newCue again) :
    SameFields record again ↔ Fieldwise record text := by
  obtain ⟨kept, comma, stripped⟩ := fits.exists_lstrip text
  have sameIndex : again.textIndex = record.textIndex :=
    Option.some.inj (refits.textField.symm.trans fits.textField)
  have sameLength : again.values.length = record.values.length :=
    refits.length.trans fits.length.symm
  have inside := fits.inside
  have split : again.values = splitMax 0x2c (record.values.length - 1)
      (join [0x2c] (record.values.set record.textIndex kept)) := by
    rw [refits.values, fits.lstrip_afterColon (colon_mem_of_isDialogue dialogue), stripped,
      fits.length]
  constructor
  · intro same
    by_cases last : record.textIndex + 1 = record.values.length
    · exact .inl last
    · refine .inr fun member => ?_
      have inAgain : record.textIndex < again.values.length := by omega
      have replaced := eq_set_of_agree inAgain sameLength same.values
      have joined : join [0x2c] (record.values.set record.textIndex again.values[record.textIndex]) =
          join [0x2c] (record.values.set record.textIndex kept) := by
        rw [← replaced, split, join_splitMax]
      have found := join_set_injective [0x2c] inside joined
      have inFront : again.values[record.textIndex] ∈ again.values.dropLast :=
        mem_dropLast_of_lt _ _ (by omega)
      exact refits.not_mem_dropLast _ inFront (by rwa [found, comma])
  · intro fieldwise
    have outside : ∀ value ∈ (record.values.set record.textIndex kept).dropLast, 0x2c ∉ value := by
      intro value member
      obtain ⟨j, short, rfl⟩ := List.getElem_of_mem member
      rw [List.length_dropLast, List.length_set] at short
      rw [List.getElem_dropLast, List.getElem_set]
      split
      · rename_i here
        rcases fieldwise with last | none_
        · omega
        · rwa [comma]
      · exact fits.not_mem_dropLast _ (mem_dropLast_of_lt _ _ (by omega))
    have values : again.values = record.values.set record.textIndex kept := by
      have some_ : record.values.set record.textIndex kept ≠ [] := by
        rw [ne_eq, List.set_eq_nil_iff]
        exact fits.ne_nil
      have back := splitMax_join some_ outside
      rwa [List.length_set, ← split] at back
    refine ⟨sameLength, sameIndex, fun i other => ?_⟩
    rw [values, List.getElem?_set_ne (Ne.symm other)]

/-- Records with the same fields have cues with the same times. -/
theorem sameTimes (fits : RecordFits fields line cue record) {newLine : Str} {newCue : Cue}
    {again : AssRecord} (refits : RecordFits fields newLine newCue again)
    (same : SameFields record again) : newCue.start = cue.start ∧ newCue.finish = cue.finish := by
  have field {name : String} (other : ofString name ≠ ofString "text") :
      fieldValue fields again.values name = fieldValue fields record.values name := by
    unfold fieldValue
    split
    · rename_i i found
      rw [same.values i]
      rintro rfl
      have first := (List.idxOf?_eq_some_iff.mp found).2.1
      have second := (List.idxOf?_eq_some_iff.mp fits.textField).2.1
      exact other (first.symm.trans second)
    · rfl
  rw [refits.start, refits.finish, fits.start, fits.finish]
  exact ⟨field (by decide), field (by decide)⟩

end RecordFits

/-- A line end in the text of a record is harmless when the text is the last field and the lines
after the first one are no directives. -/
def Harmless (record : AssRecord) (text : Str) : Prop :=
  (∀ line ∈ (lines text).tail, isDirective line = false) ∧
    ((0xa ∉ text ∧ 0xd ∉ text) ∨ record.textIndex + 1 = record.values.length)

/-- The first line of a text. -/
def firstLine (text : Str) : Str := (lines text).headD []

/-- A new text with harmless line ends lays a Dialogue line and lines that are no directives. -/
theorem lays_assLine {fields : List Str} {line : Str} {cue : Cue} {record : AssRecord}
    (fits : RecordFits fields line cue record) (dialogue : isDialogue true line = true)
    (oneLine : 0xa ∉ line ∧ 0xd ∉ line) {text : Str} (harmless : Harmless record text)
    {group : List Str} (laid : Lays (assLine record text) group) :
    ∃ more, group = assLine record (firstLine text) :: more ∧
      ∀ line ∈ more, isDirective line = false := by
  have whole := fits.whole (colon_mem_of_isDialogue dialogue)
  have outside {value : Str} {c : CodePoint} (other : c ≠ 0x2c) (notLine : c ∉ line)
      (notValue : c ∉ value) : c ∉ assLine record value := by
    rw [← whole, List.mem_append, not_or] at notLine
    rw [assLine, List.mem_append, not_or]
    refine ⟨notLine.1, fun member => ?_⟩
    rcases mem_join member with comma | ⟨part, inValues, inPart⟩
    · exact other (List.mem_singleton.mp comma)
    · rcases List.mem_or_eq_of_mem_set inValues with old | rfl
      · exact notLine.2 (mem_join_of_mem _ old inPart)
      · exact notValue inPart
  have oneLineOf {value : Str} (oneValue : 0xa ∉ value ∧ 0xd ∉ value) :
      0xa ∉ assLine record value ∧ 0xd ∉ assLine record value :=
    ⟨outside (by decide) oneLine.1 oneValue.1, outside (by decide) oneLine.2 oneValue.2⟩
  rcases harmless.2 with oneText | last
  · refine ⟨[], ?_, List.forall_mem_nil _⟩
    rw [laid.eq_singleton (oneLineOf oneText), firstLine, lines_eq_singleton oneText]
    rfl
  · have place (value : Str) : assLine record value = assLine record [] ++ value := by
      have set (value : Str) : record.values.set record.textIndex value =
          record.values.dropLast ++ [value] := by
        conv_lhs => rw [← List.dropLast_append_getLast fits.ne_nil]
        rw [List.set_append_right _ _ (by rw [List.length_dropLast]; omega), List.length_dropLast,
          show record.textIndex - (record.values.length - 1) = 0 by omega]
        rfl
      rw [assLine, assLine, set, set]
      cases record.values.dropLast with
      | nil => rw [List.nil_append, List.nil_append, join_singleton, join_singleton, List.append_nil]
      | cons first rest =>
          rw [join_concat _ (List.cons_ne_nil _ _), join_concat _ (List.cons_ne_nil _ _)]
          simp only [List.append_assoc, List.append_nil]
    have front : 0xa ∉ assLine record [] ∧ 0xd ∉ assLine record [] :=
      oneLineOf ⟨List.not_mem_nil, List.not_mem_nil⟩
    obtain ⟨first, tail, more, whole, before, rfl⟩ := laid
    rw [place, lines_front front] at whole
    cases split : lines text with
    | nil => exact absurd split (lines_ne_nil text)
    | cons head others =>
        rw [split, List.modifyHead_cons] at whole
        cases whole
        refine ⟨more, ?_, fun other member => harmless.1 other ?_⟩
        · rw [firstLine, split, List.headD_cons, ← place]
        · rw [split]
          exact before.subset member

/-- The lines of a file with new lines for its records. -/
def replaceFrom : Nat → List (Cue × AssRecord) → List Str → List Str
  | _, _, [] => []
  | _, [], lines => lines
  | number, item :: items, line :: rest =>
      if item.2.line = number then
        assLine item.2 (assText item.1) :: replaceFrom (number + 1) items rest
      else line :: replaceFrom (number + 1) (item :: items) rest

theorem replaceLines_append {items : List (Cue × AssRecord)} (front lines : List Str)
    (later : ∀ item ∈ items, front.length ≤ item.2.line)
    (ordered : items.Pairwise fun item later => item.2.line < later.2.line) :
    replaceLines items (front ++ lines) = front ++ replaceFrom front.length items lines := by
  induction lines generalizing items front with
  | nil =>
      rw [replaceFrom, List.append_nil]
      apply List.ext_getElem?
      intro i
      by_cases inside : i < front.length
      · apply getElem?_replaceLines_of_ne
        intro item member
        have := later item member
        omega
      · rw [List.getElem?_eq_none (by rw [length_replaceLines]; omega),
          List.getElem?_eq_none (by omega)]
  | cons line rest ih =>
      cases items with
      | nil => rfl
      | cons item items =>
          rw [List.pairwise_cons] at ordered
          rw [List.forall_mem_cons] at later
          rw [replaceFrom]
          split
          · rename_i here
            have step : (front ++ line :: rest).set item.2.line (assLine item.2 (assText item.1)) =
                (front ++ [assLine item.2 (assText item.1)]) ++ rest := by
              rw [here, List.set_append_right _ _ (Nat.le_refl _), Nat.sub_self]
              simp
            show replaceLines items ((front ++ line :: rest).set item.2.line _) = _
            rw [step, ih]
            · simp
            · intro other member
              have := ordered.1 other member
              rw [List.length_append, List.length_singleton]
              omega
            · exact ordered.2
          · rename_i other
            have step : front ++ line :: rest = (front ++ [line]) ++ rest := by simp
            rw [step, ih]
            · simp
            · rw [List.length_append, List.length_singleton]
              refine List.forall_mem_cons.mpr ⟨by omega, fun next member => ?_⟩
              have := ordered.1 next member
              omega
            · exact List.pairwise_cons.mpr ordered

/-- A line before the records stays. -/
theorem replaceFrom_cons_of_lt {number : Nat} {items : List (Cue × AssRecord)}
    (later : ∀ item ∈ items, number < item.2.line) (line : Str) (rest : List Str) :
    replaceFrom number items (line :: rest) = line :: replaceFrom (number + 1) items rest := by
  cases items with
  | nil => cases rest <;> rfl
  | cons item items =>
      rw [List.forall_mem_cons] at later
      rw [replaceFrom, if_neg later.1.ne']

/-- A Dialogue line is read again with a new text. -/
def Reread (item : Cue × Cue × AssRecord) (again : Cue × AssRecord) : Prop :=
  ∃ fields line, isDialogue true line = true ∧ RecordFits fields line item.2.1 item.2.2 ∧
    RecordFits fields (assLine item.2.2 (firstLine (assText item.1))) again.1 again.2

/-- A file with new texts whose line ends are harmless is read again event by event. -/
theorem reread_run {inEvents : Bool} {fields : List Str} {number count : Nat} {lines : List Str}
    {events : List (Cue × AssRecord)} {cues : List Cue} {groups : List (List Str)}
    (oneLine : ∀ line ∈ lines, 0xa ∉ line ∧ 0xd ∉ line)
    (read : readEvents inEvents fields number count lines = .ok events)
    (length : cues.length = events.length)
    (harmless : ∀ item ∈ cues.zip events, Harmless item.2.2 (assText item.1))
    (laid : List.Forall₂ Lays (replaceFrom number (cues.zip (events.map Prod.snd)) lines) groups)
    (number' count' : Nat) :
    ∃ again, readEvents inEvents fields number' count' groups.flatten = .ok again ∧
      List.Forall₂ Reread (cues.zip events) again := by
  induction lines generalizing inEvents fields number count events cues groups number' count' with
  | nil =>
      cases read
      cases laid
      rw [List.length_nil, List.length_eq_zero_iff] at length
      subst length
      exact ⟨[], rfl, .nil⟩
  | cons line rest ih =>
      rw [List.forall_mem_cons] at oneLine
      rw [readEvents_cons] at read
      split at read
      · rename_i dialogue
        obtain ⟨event, isEvent, more⟩ := Fallible.bind_ok.mp read
        obtain ⟨others, later, same⟩ := Fallible.bind_ok.mp more
        cases same
        obtain ⟨fits, isLine⟩ := readDialogue_eq isEvent
        have isTrue : inEvents = true := by
          cases inEvents with
          | true => rfl
          | false => simp [isDialogue] at dialogue
        subst isTrue
        cases cues with
        | nil => cases length
        | cons cue cues =>
            rw [List.map_cons, List.zip_cons_cons, replaceFrom, if_pos isLine] at laid
            rw [List.zip_cons_cons, List.forall_mem_cons] at harmless
            obtain ⟨group, tail, first, after, rfl⟩ := List.forall₂_cons_left_iff.mp laid
            obtain ⟨plain, rfl, none_⟩ := lays_assLine fits dialogue oneLine.1 harmless.1 first
            obtain ⟨again, readAgain, refits⟩ :=
              fits.exists_read dialogue (firstLine (assText cue)) number' count'
            obtain ⟨events', run, all⟩ := ih oneLine.2 later (Nat.succ.inj length) harmless.2 after
              (number' + 1 + plain.length) (count' + 1)
            refine ⟨again :: events', ?_, .cons ⟨fields, line, dialogue, fits, refits⟩ all⟩
            rw [List.flatten_cons, List.cons_append, readEvents_cons,
              fits.isDialogue_assLine dialogue, if_pos rfl, readAgain, readEvents_skip none_, run]
            rfl
      · rename_i other
        have after : ∀ item ∈ cues.zip (events.map Prod.snd), number < item.2.line := by
          intro item member
          obtain ⟨event, inEvents, same⟩ := List.mem_map.mp (List.of_mem_zip member).2
          obtain ⟨i, _, _, isLine, _⟩ := (readEvents_fits read).1 event inEvents
          rw [← same]
          omega
        rw [replaceFrom_cons_of_lt after] at laid
        obtain ⟨group, tail, first, rest_, rfl⟩ := List.forall₂_cons_left_iff.mp laid
        rw [first.eq_singleton oneLine.1, List.flatten_cons, List.singleton_append, readEvents_cons,
          if_neg other]
        exact ih oneLine.2 read length harmless rest_ (number' + 1) count'

end SubtitleTranslator.Engine
