import SubtitleTranslator.Proof.AssFrame
import SubtitleTranslator.Proof.CueWriting
import SubtitleTranslator.Proof.VttNormalForm

namespace SubtitleTranslator.Engine
open Library Library.Text

/-- The lines of a block that a translation leaves as they are. -/
def VttBlock.kept : VttBlock → List Str
  | .raw lines => lines
  | .cue _ identifier => identifier

/-- The lines that no record replaces. -/
def otherLines (records : List AssRecord) (lines : List Str) : List Str :=
  (lines.zipIdx.filter fun line => records.all fun record => record.line ≠ line.2).map Prod.fst

/-- The fields of a Dialogue line around its text. -/
def AssRecord.around (record : AssRecord) : List Str :=
  record.lead :: record.values.eraseIdx record.textIndex

/-- The parts of a document that a translation leaves as they are. -/
def Document.frame (doc : Document) : List Str :=
  match doc.envelope with
  | .srt => doc.cues.map timingLine
  | .vtt header blocks => header :: (blocks.flatMap VttBlock.kept ++ doc.cues.map timingLine)
  | .ass _ lines records => otherLines records lines ++ records.flatMap AssRecord.around

/-- The frame of a document can be written: it has no lone surrogates, and `str` converts the
numbers of SRT cues. -/
structure Document.FrameWritable (doc : Document) : Prop where
  numbers : doc.envelope = .srt → ∀ cue ∈ doc.cues, cue.index < 10 ^ maxStrDigits
  parts : ∀ part ∈ doc.frame, SurrogateFree part

/-- The lines of all cues have no lone surrogates. -/
def LinesWritable (cues : List Cue) : Prop := ∀ cue ∈ cues, ∀ line ∈ cue.lines, SurrogateFree line

theorem surrogateFree_newline (newline : Newline) : SurrogateFree newline.text := by
  cases newline <;> decide

theorem surrogateFree_decimal (n : Nat) : SurrogateFree (decimal n) :=
  fun _ member => isSurrogate_of_isDecimal (isDecimal_of_mem_decimal member)

theorem forall_linesOrEmpty (cue : Cue) :
    (∀ line ∈ linesOrEmpty cue, SurrogateFree line) ↔ ∀ line ∈ cue.lines, SurrogateFree line := by
  unfold linesOrEmpty
  split
  · rename_i none_
    simp [none_, surrogateFree_nil]
  · rfl

/-- A written SRT file shows the numbers, times and lines of its cues. -/
theorem renderSrt_writable_iff (newline : Newline) (cues : List Cue) :
    (∃ written, renderSrt newline cues = .ok written ∧ SurrogateFree written) ↔
      (∀ cue ∈ cues, cue.index < 10 ^ maxStrDigits) ∧
        (∀ cue ∈ cues, SurrogateFree (timingLine cue)) ∧ LinesWritable cues := by
  have block (cue : Cue) : (∀ line ∈ [decimal cue.index, timingLine cue] ++ linesOrEmpty cue ++ [[]],
      SurrogateFree line) ↔ SurrogateFree (timingLine cue) ∧ ∀ line ∈ cue.lines, SurrogateFree line := by
    simp only [List.forall_mem_append, List.forall_mem_cons, forall_linesOrEmpty]
    simp [surrogateFree_decimal, surrogateFree_nil]
  have file : SurrogateFree (join newline.text (cues.flatMap fun cue =>
      [decimal cue.index, timingLine cue] ++ linesOrEmpty cue ++ [[]])) ↔
      (∀ cue ∈ cues, SurrogateFree (timingLine cue)) ∧ LinesWritable cues := by
    rw [surrogateFree_join (surrogateFree_newline newline), List.forall_mem_flatMap, LinesWritable,
      ← forall₂_and]
    exact forall₂_congr fun cue _ => block cue
  simp only [renderSrt_eq, ← file]
  constructor
  · rintro ⟨written, ⟨small, rfl⟩, free⟩
    exact ⟨small, free⟩
  · rintro ⟨small, free⟩
    exact ⟨_, ⟨small, rfl⟩, free⟩

/-- The blocks that were read have one cue for each that the reader found. -/
theorem length_identifiersOf (count : Nat) (blocks : List (List Str)) :
    (identifiersOf (readBlocks count blocks).2).length = (readBlocks count blocks).1.length := by
  induction blocks generalizing count with
  | nil => rfl
  | cons block blocks ih =>
      rcases block_cases block with raw | ⟨identifier, line, timing, body, rfl, plain, times⟩
      · rw [readBlocks_raw raw]
        exact ih count
      · rw [readBlocks_cue plain times]
        exact congrArg Nat.succ (ih (count + 1))

/-- The lines of laid out blocks are those that the blocks keep, and those of the cues. -/
theorem forall_layBlocks_iff {property : Str → Prop} (empty : property []) {blocks : List VttBlock}
    {bodies : List (Cue × List Str)} (length : (identifiersOf blocks).length = bodies.length) :
    (∀ line ∈ layBlocks blocks bodies, property line) ↔
      (∀ line ∈ blocks.flatMap VttBlock.kept, property line) ∧
        ∀ laid ∈ bodies, property (timingLine laid.1) ∧ ∀ line ∈ laid.2, property line := by
  induction blocks generalizing bodies with
  | nil =>
      obtain rfl := List.length_eq_zero_iff.mp length.symm
      simp [layBlocks]
  | cons block blocks ih =>
      cases block with
      | raw lines =>
          rw [layBlocks, List.forall_mem_append, List.forall_mem_cons, List.flatMap_cons,
            List.forall_mem_append, ih length, and_iff_right empty, and_assoc]
          rfl
      | cue k identifier =>
          cases bodies with
          | nil => cases length
          | cons laid bodies =>
              obtain ⟨cue, body⟩ := laid
              rw [layBlocks, List.flatMap_cons]
              simp only [List.forall_mem_append, List.forall_mem_cons, ih (Nat.succ.inj length)]
              show (((∀ line ∈ identifier, property line) ∧ _) ∧ _) ∧ _ ↔
                ((∀ line ∈ identifier, property line) ∧ _) ∧ _
              simp only [empty, List.not_mem_nil, false_implies, implies_true]
              tauto

/-- A written WebVTT file shows its header, what its blocks keep, and its cues. -/
theorem renderVtt_writable_iff (header : Str) (blocks : List (List Str)) (newline : Newline)
    {cues : List Cue} (length : cues.length = (readBlocks 0 blocks).1.length) :
    (∃ written, renderVtt header (readBlocks 0 blocks).2 newline cues = .ok written ∧
      SurrogateFree written) ↔
      (SurrogateFree header ∧ ∀ line ∈ (readBlocks 0 blocks).2.flatMap VttBlock.kept,
          SurrogateFree line) ∧
        (∀ cue ∈ cues, SurrogateFree (timingLine cue)) ∧ LinesWritable cues := by
  obtain ⟨lists, rendered, laid⟩ := @mapM_vttLines blocks 0 [] cues rfl length
  have numbers : (identifiersOf (readBlocks 0 blocks).2).length =
      (cues.map (laidCue fun line => [line])).length := by
    rw [length_identifiersOf, List.length_map, length]
  have head : (∀ line ∈ header.splitOn 0xa, SurrogateFree line) ↔ SurrogateFree header := by
    have whole : join [0xa] (header.splitOn 0xa) = header := List.intercalate_splitOn 0xa
    rw [← surrogateFree_join (show SurrogateFree [0xa] by decide), whole]
  have file : SurrogateFree (join newline.text (header.splitOn 0xa ++ [[]] ++ lists.flatten)) ↔
      (SurrogateFree header ∧ ∀ line ∈ (readBlocks 0 blocks).2.flatMap VttBlock.kept,
          SurrogateFree line) ∧
        (∀ cue ∈ cues, SurrogateFree (timingLine cue)) ∧ LinesWritable cues := by
    rw [surrogateFree_join (surrogateFree_newline newline), laid, List.forall_mem_append,
      List.forall_mem_append, List.forall_mem_singleton, head,
      and_iff_left surrogateFree_nil, forall_layBlocks_iff surrogateFree_nil numbers,
      List.forall_mem_map, and_assoc, LinesWritable, ← forall₂_and]
    simp only [laidCue, List.flatMap_singleton', forall_linesOrEmpty]
  rw [renderVtt]
  simp only [List.nil_append] at rendered
  rw [rendered, ← file]
  constructor
  · rintro ⟨written, same, free⟩
    cases same
    exact free
  · exact fun free => ⟨_, rfl, free⟩

/-- A written Dialogue line shows the fields around its text, and the lines of its cue. -/
theorem dialogue_writable_iff {record : AssRecord} (inside : record.textIndex < record.values.length)
    (cue : Cue) :
    SurrogateFree (record.lead ++ join [0x2c]
        (record.values.set record.textIndex (join (ofString "\\N") cue.lines))) ↔
      (∀ part ∈ record.around, SurrogateFree part) ∧ ∀ line ∈ cue.lines, SurrogateFree line := by
  have values (text : Str) : (∀ value ∈ record.values.set record.textIndex text,
      SurrogateFree value) ↔ SurrogateFree text ∧
        ∀ value ∈ record.values.eraseIdx record.textIndex, SurrogateFree value := by
    rw [← List.forall_mem_cons]
    simp only [(List.set_perm_cons_eraseIdx inside text).mem_iff]
  rw [surrogateFree_append, surrogateFree_join (by decide), values, surrogateFree_join (by decide),
    AssRecord.around, List.forall_mem_cons]
  tauto

theorem mem_otherLines {records : List AssRecord} {lines : List Str} {line : Str} :
    line ∈ otherLines records lines ↔
      ∃ i, lines[i]? = some line ∧ ∀ record ∈ records, record.line ≠ i := by
  simp [otherLines, List.mem_zipIdx_iff_getElem?]

/-- A written script shows its other lines, the fields of its records and the lines of its cues. -/
theorem OnlyTexts.writable_iff {source : List Str} {records : List AssRecord} {cues : List Cue}
    {written : List Str} (only : OnlyTexts source records cues written)
    (length : cues.length = records.length) :
    (∀ line ∈ written, SurrogateFree line) ↔
      (∀ part ∈ otherLines records source ++ records.flatMap AssRecord.around, SurrogateFree part) ∧
        LinesWritable cues := by
  have dialogue {k : Nat} {record : AssRecord} {cue : Cue} (isRecord : records[k]? = some record)
      (isCue : cues[k]? = some cue) : ∃ line, written[record.line]? = some line ∧
        (SurrogateFree line ↔ (∀ part ∈ record.around, SurrogateFree part) ∧
          ∀ line ∈ cue.lines, SurrogateFree line) := by
    obtain ⟨_, _, _, _, _, field, found⟩ := only.dialogues k record cue isRecord isCue
    exact ⟨_, found, dialogue_writable_iff field cue⟩
  rw [List.forall_mem_append, List.forall_mem_flatMap]
  constructor
  · intro free
    refine ⟨⟨fun line member => ?_, fun record member => ?_⟩, fun cue member => ?_⟩
    · obtain ⟨i, found, other⟩ := mem_otherLines.mp member
      rw [← only.others i other] at found
      exact free line (List.mem_of_getElem? found)
    · obtain ⟨k, isRecord⟩ := List.mem_iff_getElem?.mp member
      obtain ⟨inside, _⟩ := List.getElem?_eq_some_iff.mp isRecord
      obtain ⟨line, found, parts⟩ :=
        dialogue isRecord (List.getElem?_eq_getElem (length.symm ▸ inside))
      exact (parts.mp (free line (List.mem_of_getElem? found))).1
    · obtain ⟨k, isCue⟩ := List.mem_iff_getElem?.mp member
      obtain ⟨inside, _⟩ := List.getElem?_eq_some_iff.mp isCue
      obtain ⟨line, found, parts⟩ :=
        dialogue (List.getElem?_eq_getElem (length ▸ inside)) isCue
      exact (parts.mp (free line (List.mem_of_getElem? found))).2
  · rintro ⟨⟨others, around⟩, free⟩ line member
    obtain ⟨i, found⟩ := List.mem_iff_getElem?.mp member
    by_cases replaced : ∃ record ∈ records, record.line = i
    · obtain ⟨record, inRecords, rfl⟩ := replaced
      obtain ⟨k, isRecord⟩ := List.mem_iff_getElem?.mp inRecords
      obtain ⟨inside, _⟩ := List.getElem?_eq_some_iff.mp isRecord
      have isCue := List.getElem?_eq_getElem (length.symm ▸ inside : k < cues.length)
      obtain ⟨shown, here, parts⟩ := dialogue isRecord isCue
      obtain rfl := Option.some.inj (here.symm.trans found)
      exact parts.mpr ⟨around record inRecords, free _ (List.mem_of_getElem? isCue)⟩
    · have other : ∀ record ∈ records, record.line ≠ i :=
        fun record inRecords same => replaced ⟨record, inRecords, same⟩
      rw [only.others i other] at found
      exact others line (mem_otherLines.mpr ⟨i, found, other⟩)

theorem Frame.timingLine_eq {cue new : Cue} (frame : Frame cue new) :
    timingLine new = timingLine cue ∧ new.index = cue.index := by
  rw [frame]
  exact ⟨rfl, rfl⟩

/-- Facts about the frames of cues are facts about the source cues. -/
theorem forall_frames_iff {source cues : List Cue} (frames : List.Forall₂ Frame source cues)
    (property : Str → Nat → Prop) :
    (∀ cue ∈ cues, property (timingLine cue) cue.index) ↔
      ∀ cue ∈ source, property (timingLine cue) cue.index := by
  induction frames with
  | nil => rfl
  | cons frame _ ih => rw [List.forall_mem_cons, List.forall_mem_cons, ih, frame.timingLine_eq.1,
      frame.timingLine_eq.2]

theorem parseSubtitle_vtt {bom : Bool} {text : Str} {doc : Document}
    (parsed : parseSubtitle .vtt bom text = .ok doc) :
    parseVtt (normalizeNewlines text) (newlineOf text) bom = .ok doc := by
  obtain ⟨read, reads, decided⟩ := Fallible.bind_ok.mp parsed
  dsimp only at decided
  split at decided
  · cases decided
  · cases decided
    exact reads

/-- A parsed document with new lines in its cues can be written when its frame and these lines
can. -/
theorem render_writable_iff {format : FileFormat} {bom : Bool} {text : Str} {doc : Document}
    (parsed : parseSubtitle format bom text = .ok doc) {cues : List Cue}
    (frames : List.Forall₂ Frame doc.cues cues) :
    (∃ written, (doc.cloneWithCues cues).render = .ok written ∧ SurrogateFree written) ↔
      doc.FrameWritable ∧ LinesWritable cues := by
  have script (ssa : Bool) (parsed : parseSubtitle (scriptFormat ssa) bom text = .ok doc) :
      (∃ written, (doc.cloneWithCues cues).render = .ok written ∧ SurrogateFree written) ↔
        doc.FrameWritable ∧ LinesWritable cues := by
    obtain ⟨events, read, _, rfl⟩ := parseSubtitle_ass.mp parsed
    have length : cues.length = events.length := by
      rw [← frames.length_eq, List.length_map]
    obtain ⟨fits, ordered⟩ := readEvents_fits read
    have only := replaceLines_onlyTexts fits ordered length
    have file := only.writable_iff (by rw [List.length_map, length])
    rw [← surrogateFree_join (surrogateFree_newline (newlineOf text))] at file
    show (∃ written, renderAss (fileLines text) (events.map Prod.snd) (newlineOf text) cues =
      .ok written ∧ _) ↔ _
    rw [renderAss, if_pos (by rw [List.length_map, length])]
    constructor
    · rintro ⟨written, same, free⟩
      cases same
      obtain ⟨parts, lines⟩ := file.mp free
      exact ⟨⟨fun other => (by cases other), parts⟩, lines⟩
    · rintro ⟨frame, lines⟩
      exact ⟨_, rfl, file.mpr ⟨frame.parts, lines⟩⟩
  cases format with
  | ass => exact script false parsed
  | ssa => exact script true parsed
  | srt =>
      obtain ⟨source, read, _, rfl⟩ := parseSubtitle_srt.mp parsed
      show (∃ written, renderSrt (newlineOf text) cues = .ok written ∧ _) ↔ _
      rw [renderSrt_writable_iff,
        forall_frames_iff frames fun _ index => index < 10 ^ maxStrDigits,
        forall_frames_iff frames fun times _ => SurrogateFree times, ← and_assoc]
      apply and_congr_left'
      constructor
      · rintro ⟨small, times⟩
        exact ⟨fun _ => small, List.forall_mem_map.mpr times⟩
      · exact fun frame => ⟨frame.numbers rfl, List.forall_mem_map.mp frame.parts⟩
  | vtt =>
      obtain ⟨first, rest, _, _, rfl⟩ := parseVtt_eq_ok.mp (parseSubtitle_vtt parsed)
      have length := frames.length_eq.symm
      show (∃ written, renderVtt _ _ (newlineOf text) cues = .ok written ∧ _) ↔ _
      rw [renderVtt_writable_iff _ _ _ length,
        forall_frames_iff frames fun times _ => SurrogateFree times, ← and_assoc]
      apply and_congr_left'
      constructor
      · rintro ⟨⟨header, kept⟩, times⟩
        exact ⟨fun other => (by cases other), List.forall_mem_cons.mpr ⟨header,
          List.forall_mem_append.mpr ⟨kept, List.forall_mem_map.mpr times⟩⟩⟩
      · intro frame
        obtain ⟨header, others⟩ := List.forall_mem_cons.mp frame.parts
        obtain ⟨kept, times⟩ := List.forall_mem_append.mp others
        exact ⟨⟨header, kept⟩, List.forall_mem_map.mp times⟩

/-- The bytes of a document exist when its text has no lone surrogates; the byte order mark is
none. -/
theorem toBytes_ok_iff (doc : Document) :
    (∃ bytes, doc.toBytes = .ok bytes) ↔
      ∃ written, doc.render = .ok written ∧ SurrogateFree written := by
  have marked (written : Str) : SurrogateFree ((if doc.bom then [0xfeff] else []) ++ written) ↔
      SurrogateFree written := by
    rw [surrogateFree_append]
    exact and_iff_right (by split <;> decide)
  constructor
  · rintro ⟨bytes, made⟩
    obtain ⟨written, rendered, encoded⟩ := Fallible.bind_ok.mp made
    exact ⟨written, rendered, (marked written).mp ((encodeUtf8_ok_iff _).mp ⟨bytes, encoded⟩)⟩
  · rintro ⟨written, rendered, free⟩
    obtain ⟨bytes, encoded⟩ := (encodeUtf8_ok_iff _).mpr ((marked written).mpr free)
    exact ⟨bytes, Fallible.bind_ok.mpr ⟨written, rendered, encoded⟩⟩

section Rebuild
variable (wide : CodePoint → Bool) (target : Language) (width : ℚ) (maxLines : Nat)

/-- Valid outputs are written exactly when the frame of the document and each of its cues can be
written: no lone surrogate goes into the file, and each tag of a rewritten cue has a placeholder. -/
theorem translations_written_iff {unescape : Str → Str} {format : FileFormat} {bom : Bool}
    {text : Str} {doc : Document} {segs : List Segment} {out : List Str}
    (parsed : parseSubtitle format bom text = .ok doc)
    (segmented : segmentCues unescape doc.cues = .ok segs)
    (valid : List.Forall₂ ValidOutput segs out) :
    (∃ bytes, translatedBytes wide target width maxLines doc segs out = .ok bytes) ↔
      doc.FrameWritable ∧ ∀ i cue, doc.cues[i]? = some cue → CueWritable cue (itemsOf segs out i) := by
  rw [← rebuildCues_writable_iff wide target width maxLines segmented valid]
  have file {result : List Cue}
      (rebuilt : rebuildCues wide target width maxLines doc.cues segs out = .ok result) :=
    (toBytes_ok_iff _).trans (render_writable_iff parsed
      (rebuildCues_frames wide target width maxLines rebuilt))
  simp only [translatedBytes, Fallible.bind_ok]
  constructor
  · rintro ⟨bytes, result, rebuilt, encoded⟩
    obtain ⟨frame, lines⟩ := (file rebuilt).mp ⟨bytes, encoded⟩
    exact ⟨frame, result, rebuilt, lines⟩
  · rintro ⟨frame, result, rebuilt, lines⟩
    obtain ⟨bytes, encoded⟩ := (file rebuilt).mpr ⟨frame, lines⟩
    exact ⟨bytes, result, rebuilt, encoded⟩

end Rebuild

/-- A file with one short cue. -/
def shortText : Str := ofString "1\n00:00:01,000 --> 00:00:02,000\nHi"

def shortDoc : Document := ⟨.srt, [pairCue [ofString "Hi"]], .lf, false⟩

def shortSegs : List Segment := [⟨0, ofString "Hi", [], false, false⟩]

theorem translations_written_iff_example :
    (∃ bytes, translatedBytes (fun _ => false) .fr 16 2 shortDoc shortSegs [ofString "Salut"] =
      .ok bytes) ↔
      shortDoc.FrameWritable ∧ ∀ i cue, shortDoc.cues[i]? = some cue →
        CueWritable cue (itemsOf shortSegs [ofString "Salut"] i) := by
  have parsed : parseSubtitle .srt false shortText = .ok shortDoc := by decide +kernel
  have segmented : segmentCues id shortDoc.cues = .ok shortSegs := by decide +kernel
  have valid : validateLine 0 (ofString "Hi") (some (ofString "Salut")) = .ok (ofString "Salut") := by
    decide +kernel
  exact translations_written_iff (fun _ => false) .fr 16 2 parsed segmented
    (.cons (.inr ⟨0, valid⟩) .nil)

/-- A lone surrogate passes the validation and has no UTF-8 form. -/
theorem lone_surrogate_is_not_written :
    parseSubtitle .srt false shortText = .ok shortDoc ∧
      segmentCues id shortDoc.cues = .ok shortSegs ∧
      validateOutput (shortSegs.map (·.text)) (some [some [0xd800]]) = .ok [[0xd800]] ∧
      List.Forall₂ ValidOutput shortSegs [[0xd800]] ∧
        translatedBytes (fun _ => false) .fr 16 2 shortDoc shortSegs [[0xd800]] = .error .value := by
  have valid : validateLine 0 (ofString "Hi") (some [0xd800]) = .ok [0xd800] := by decide +kernel
  refine ⟨by decide +kernel, by decide +kernel, by decide +kernel,
    .cons (.inr ⟨0, valid⟩) .nil, by decide +kernel⟩

end SubtitleTranslator.Engine
