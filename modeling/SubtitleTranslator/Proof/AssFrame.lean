import SubtitleTranslator.Proof.AssReading
import SubtitleTranslator.Proof.SrtReading

namespace SubtitleTranslator.Engine
open Library Library.Text

/-- The written lines differ from the source lines in the texts of the Dialogue records only. -/
structure OnlyTexts (source : List Str) (records : List AssRecord) (cues : List Cue)
    (written : List Str) : Prop where
  length : written.length = source.length
  others : ∀ i, (∀ record ∈ records, record.line ≠ i) → written[i]? = source[i]?
  dialogues : ∀ (k : Nat) (record : AssRecord) (cue : Cue), records[k]? = some record → cues[k]? = some cue →
    ∃ line, source[record.line]? = some line ∧ isDialogue true line = true ∧
      record.lead = leadOf line ∧ line = record.lead ++ join [0x2c] record.values ∧
        record.textIndex < record.values.length ∧
          written[record.line]? = some (record.lead ++ join [0x2c]
            (record.values.set record.textIndex (join (ofString "\\N") cue.lines)))

/-- What `parse_ass` accepts is read event by event. -/
theorem parseAss_eq {text : Str} {ssa bom : Bool} {newline : Newline} {doc : Document}
    (parsed : parseAss text ssa newline bom = .ok doc) :
    ∃ events, readEvents false [] 0 0 ((stripMark text).splitOn 0xa) = .ok events ∧
      doc = ⟨.ass ssa ((stripMark text).splitOn 0xa) (events.map Prod.snd),
        events.map Prod.fst, newline, bom⟩ := by
  obtain ⟨events, read, same⟩ := Fallible.bind_ok.mp parsed
  cases same
  exact ⟨events, read, rfl⟩

/-- A parsed document with its own cues has its own lines. -/
theorem replaceLines_own {lines : List Str} {events : List (Cue × AssRecord)}
    (fits : ∀ event ∈ events, EventFits 0 lines event) : replaceLines events lines = lines := by
  induction events with
  | nil => rfl
  | cons event events ih =>
      rw [List.forall_mem_cons] at fits
      obtain ⟨⟨i, line, fields, isLine, found, dialogue, record⟩, others⟩ := fits
      obtain ⟨inside, same⟩ := List.getElem?_eq_some_iff.mp found
      have kept : lines.set event.2.line (assLine event.2 (assText event.1)) = lines := by
        rw [record.own (colon_mem_of_isDialogue dialogue), isLine, Nat.zero_add, ← same,
          List.set_getElem_self]
      show replaceLines events (lines.set _ _) = lines
      rw [kept]
      exact ih others

/-- Cues that are paired with the records stay in the order of the lines. -/
theorem zip_ordered {cues : List Cue} {events : List (Cue × AssRecord)}
    (length : cues.length = events.length)
    (ordered : events.Pairwise fun event later => event.2.line < later.2.line) :
    (cues.zip (events.map Prod.snd)).Pairwise fun item later => item.2.line < later.2.line := by
  have records : (events.map Prod.snd).Pairwise fun record later => record.line < later.line :=
    List.pairwise_map.mpr ordered
  have same : (cues.zip (events.map Prod.snd)).map Prod.snd = events.map Prod.snd :=
    List.map_snd_zip (by rw [List.length_map, length])
  rw [← same] at records
  exact List.Pairwise.of_map Prod.snd (fun _ _ before => before) records

/-- A new list of cues changes the texts only. -/
theorem replaceLines_onlyTexts {lines : List Str} {events : List (Cue × AssRecord)}
    (fits : ∀ event ∈ events, EventFits 0 lines event)
    (ordered : events.Pairwise fun event later => event.2.line < later.2.line) {cues : List Cue}
    (length : cues.length = events.length) :
    OnlyTexts lines (events.map Prod.snd) cues
      (replaceLines (cues.zip (events.map Prod.snd)) lines) := by
  have apart := zip_ordered length ordered
  refine ⟨length_replaceLines _ _, fun i other => ?_, fun k record cue isRecord isCue => ?_⟩
  · apply getElem?_replaceLines_of_ne
    intro item member
    exact other item.2 (List.of_mem_zip member).2
  · have member : (cue, record) ∈ cues.zip (events.map Prod.snd) := by
      apply List.mem_of_getElem? (i := k)
      rw [List.getElem?_zip_eq_some]
      exact ⟨isCue, isRecord⟩
    obtain ⟨event, inEvents, rfl⟩ := List.mem_map.mp (List.of_mem_zip member).2
    obtain ⟨i, line, fields, isLine, found, dialogue, reads⟩ := fits event inEvents
    rw [Nat.zero_add] at isLine
    obtain ⟨inside, _⟩ := List.getElem?_eq_some_iff.mp found
    refine ⟨line, by rwa [isLine], dialogue, reads.lead,
      (reads.whole (colon_mem_of_isDialogue dialogue)).symm, reads.inside, ?_⟩
    exact getElem?_replaceLines apart member (by rwa [isLine])

/-- Rendering a parsed document with its own cues gives its lines back, and with other cues changes
the texts of its Dialogue lines only. -/
theorem renderAss_exact {text : Str} {ssa bom : Bool} {newline : Newline} {doc : Document}
    (unmarked : text.head? ≠ some 0xfeff) (parsed : parseAss text ssa newline bom = .ok doc) :
    doc.render = .ok (join newline.text (text.splitOn 0xa)) ∧
      (newline = .lf → doc.render = .ok text) ∧
        ∀ cues, cues.length = doc.cues.length →
          ∃ written, (doc.cloneWithCues cues).render = .ok (join newline.text written) ∧
            OnlyTexts (text.splitOn 0xa) doc.records cues written := by
  obtain ⟨events, read, rfl⟩ := parseAss_eq parsed
  rw [stripMark_eq_self unmarked] at read ⊢
  obtain ⟨fits, ordered⟩ := readEvents_fits read
  have zipped : (events.map Prod.fst).zip (events.map Prod.snd) = events :=
    (List.zip_of_prod rfl rfl).symm
  have own : Document.render ⟨.ass ssa (text.splitOn 0xa) (events.map Prod.snd),
      events.map Prod.fst, newline, bom⟩ = .ok (join newline.text (text.splitOn 0xa)) := by
    show renderAss _ _ _ _ = _
    rw [renderAss, if_pos (by rw [List.length_map, List.length_map]), zipped,
      replaceLines_own fits]
    rfl
  refine ⟨own, ?_, fun cues length => ?_⟩
  · rintro rfl
    rw [own]
    exact congrArg Except.ok (List.intercalate_splitOn 0xa)
  · have same : cues.length = events.length := by rw [length, List.length_map]
    refine ⟨_, ?_, replaceLines_onlyTexts fits ordered same⟩
    show renderAss (text.splitOn 0xa) (events.map Prod.snd) newline cues = _
    rw [renderAss, if_pos (by rw [List.length_map, same])]
    rfl

/-- A script with two sections, fields in another order and a Dialogue line with leading space. -/
def scriptText : Str :=
  ofString "[Script Info]\nTitle: a,b\n[EVENTS]\nFormat: Start, Text, End\n  dialogue:  0:01,Hi\\Nyou,0:02"

theorem renderAss_exact_example :
    ∃ doc : Document, doc.render = .ok (join [0xa] (scriptText.splitOn 0xa)) ∧
      (Newline.lf = .lf → doc.render = .ok scriptText) ∧
        ∀ cues, cues.length = doc.cues.length →
          ∃ written, (doc.cloneWithCues cues).render = .ok (join [0xa] written) ∧
            OnlyTexts (scriptText.splitOn 0xa) doc.records cues written := by
  have accepted : (parseAss scriptText false .lf false).map (fun doc => doc.cues.length) = .ok 1 := by
    decide +kernel
  obtain ⟨doc, parsed⟩ : ∃ doc, parseAss scriptText false .lf false = .ok doc := by
    cases parsed : parseAss scriptText false .lf false with
    | error failure =>
        rw [parsed] at accepted
        cases accepted
    | ok doc => exact ⟨doc, rfl⟩
  exact ⟨doc, renderAss_exact (by decide) parsed⟩

end SubtitleTranslator.Engine
