import SubtitleTranslator.Proof.AssRereading
import SubtitleTranslator.Proof.Documents

namespace SubtitleTranslator.Engine
open Library Library.Text

/-- A document that is read again has the same cues but for their text: as many, each with its
times, for SRT with its index and rest, and for ASS and SSA with every other value. -/
structure SameStructure (doc again : Document) : Prop where
  times : List.Forall₂ (fun cue new => new.start = cue.start ∧ new.finish = cue.finish)
    doc.cues again.cues
  srt : doc.envelope = .srt → List.Forall₂ (fun cue new => new.index = cue.index ∧
    new.rest = cue.rest) doc.cues again.cues
  records : List.Forall₂ SameFields doc.records again.records

/-- What is written for a document is read again with the same structure. -/
def StructureKept (format : FileFormat) (doc : Document) (written : Str) : Prop :=
  ∃ again, parseSubtitle format doc.bom written = .ok again ∧ SameStructure doc again

/-- A translated cue keeps everything but its lines. -/
def Frame (cue new : Cue) : Prop := new = { cue with lines := new.lines }

theorem Frame.timed {cue new : Cue} (frame : Frame cue new) (timed : Timed cue) : Timed new := by
  rw [frame]
  exact ⟨timed.read, timed.trimmed, timed.oneLine⟩

theorem timed_of_frames {source cues : List Cue} (frames : List.Forall₂ Frame source cues)
    (timed : ∀ cue ∈ source, Timed cue) : ∀ cue ∈ cues, Timed cue := by
  intro new member
  obtain ⟨cue, inSource, frame⟩ := Fallible.forall_of_forall₂ frames member
  exact frame.timed (timed cue inSource)

/-- The timing lines of a file are those of its cues and those in their bodies. -/
theorem countP_file (newline : Newline) {cues : List Cue} (timed : ∀ cue ∈ cues, Timed cue) :
    (cues.flatMap (srtLines newline)).countP isTiming =
      cues.length + (cues.map fun cue => (bodyLines newline cue).countP isTiming).sum := by
  induction cues with
  | nil => rfl
  | cons cue cues ih =>
      rw [List.forall_mem_cons] at timed
      have isTimed : isTiming (timingLine cue) = true := by
        rw [isTiming, timed.1.read]
        rfl
      have untimed : isTiming (decimal cue.index) = false :=
        isTiming_of_isIndex (decimal_isIndex cue.index).1
      rw [List.flatMap_cons, List.countP_append, ih timed.2, srtLines,
        List.countP_cons_of_neg (by simp [untimed]), List.countP_cons_of_pos isTimed,
        List.map_cons, List.sum_cons, List.length_cons]
      omega

/-- A written SRT document keeps its structure exactly when no body puts a timing line into the
file. -/
theorem srt_kept_iff {bom : Bool} {text : Str} {doc : Document}
    (parsed : parseSubtitle .srt bom text = .ok doc) {cues : List Cue}
    (frames : List.Forall₂ Frame doc.cues cues) {written : Str}
    (rendered : (doc.cloneWithCues cues).render = .ok written) :
    StructureKept .srt doc written ↔
      ∀ cue ∈ cues, ∀ line ∈ bodyLines doc.newline cue, isTiming line = false := by
  obtain ⟨source, read, some_, rfl⟩ := parseSubtitle_srt.mp parsed
  have fits := parseSrt_fits read
  have timed := timed_of_frames frames fun cue member => (fits cue member).timed
  have nonempty : cues ≠ [] := by
    rintro rfl
    cases frames
    exact some_ rfl
  have whole : lines (stripMark written) = cues.flatMap (srtLines (newlineOf text)) :=
    lines_renderSrt nonempty timed rendered
  have small := (renderSrt_eq.mp rendered).1
  constructor
  · rintro ⟨again, readAgain, same⟩
    obtain ⟨found, reads, _, rfl⟩ := parseSubtitle_srt.mp readAgain
    have number : found.length = cues.length :=
      same.times.length_eq.symm.trans frames.length_eq
    have counted := readCues_length reads
    rw [whole, countP_file _ timed, number] at counted
    have zero : (cues.map fun cue => (bodyLines (newlineOf text) cue).countP isTiming).sum = 0 := by
      omega
    intro cue member line inBody
    have none_ := List.sum_eq_zero_iff.mp zero _ (List.mem_map_of_mem member)
    simpa using List.countP_eq_zero.mp none_ line inBody
  · intro untimed
    have reads := readCues_file (newlineOf text) timed small untimed 0
    rw [← whole] at reads
    have kept : List.Forall₂ (fun cue new => new.index = cue.index ∧ new.start = cue.start ∧
        new.finish = cue.finish ∧ new.rest = cue.rest) source
          (cues.map (reread (newlineOf text))) := by
      apply List.forall₂_map_right_iff.mpr
      refine frames.imp fun cue new frame => ?_
      rw [frame]
      exact ⟨rfl, rfl, rfl, rfl⟩
    refine ⟨_, parseSubtitle_srt.mpr ⟨_, reads, by simpa using nonempty, rfl⟩, ?_, fun _ => ?_, .nil⟩
    · exact kept.imp fun cue new same => ⟨same.2.1, same.2.2.1⟩
    · exact kept.imp fun cue new same => ⟨same.1, same.2.2.2⟩

/-- The first line of a file is no Dialogue line. -/
theorem records_after_first {fields : List Str} {number count : Nat} {line : Str}
    {rest : List Str} {events : List (Cue × AssRecord)}
    (read : readEvents false fields number count (line :: rest) = .ok events) :
    ∀ event ∈ events, number < event.2.line := by
  have other : isDialogue false line = false := by simp [isDialogue]
  rw [readEvents_cons, if_neg (by simp [other])] at read
  intro event member
  obtain ⟨i, _, _, isLine, _⟩ := (readEvents_fits read).1 event member
  omega

/-- A file that begins with the first line of a parsed file has no byte order mark. -/
theorem head_join_ne_mark {text first : Str} {rest : List Str}
    (split : fileLines text = first :: rest) (newline : Newline) (more : List Str) :
    (join newline.text (first :: more)).head? ≠ some 0xfeff := by
  have whole : join [0xa] (first :: rest) = stripMark (normalizeNewlines text) := by
    rw [← split, ← splitOn_stripMark]
    exact List.intercalate_splitOn 0xa
  have stop := List.head?_dropWhile_not (fun c : CodePoint => decide (c = 0xfeff))
    (normalizeNewlines text)
  rw [show (normalizeNewlines text).dropWhile (fun c => decide (c = 0xfeff)) =
    stripMark (normalizeNewlines text) from rfl, ← whole] at stop
  cases first with
  | nil =>
      cases more with
      | nil => simp [join_singleton]
      | cons next more => cases newline <;> simp [join_cons_cons, Newline.text]
  | cons c first =>
      have front (separator : Str) (others : List Str) :
          (join separator ((c :: first) :: others)).head? = some c := by
        cases others with
        | nil => rw [join_singleton]; rfl
        | cons next others => rw [join_cons_cons]; rfl
      rw [front] at stop
      rw [front]
      simpa using stop

/-- The lines of a written script are laid by its lines with the new texts. -/
theorem exists_laid {text : Str} {events : List (Cue × AssRecord)}
    (read : readEvents false [] 0 0 (fileLines text) = .ok events) {cues : List Cue}
    (length : cues.length = events.length) (newline : Newline) :
    ∃ groups, List.Forall₂ Lays
        (replaceFrom 0 (cues.zip (events.map Prod.snd)) (fileLines text)) groups ∧
      fileLines (join newline.text
        (replaceLines (cues.zip (events.map Prod.snd)) (fileLines text))) = groups.flatten := by
  obtain ⟨fits, ordered⟩ := readEvents_fits read
  have apart := zip_ordered length ordered
  obtain ⟨first, rest, split⟩ := List.exists_cons_of_ne_nil (lines_ne_nil (stripMark text))
  change fileLines text = first :: rest at split
  rw [split] at read ⊢
  have later : ∀ item ∈ cues.zip (events.map Prod.snd), 0 < item.2.line := by
    intro item member
    obtain ⟨event, inEvents, same⟩ := List.mem_map.mp (List.of_mem_zip member).2
    rw [← same]
    exact records_after_first read event inEvents
  have lines_ : replaceLines (cues.zip (events.map Prod.snd)) (first :: rest) =
      first :: replaceFrom 1 (cues.zip (events.map Prod.snd)) rest := by
    rw [← replaceFrom_cons_of_lt later]
    exact replaceLines_append [] (first :: rest) (fun _ _ => Nat.zero_le _) apart
  rw [lines_, replaceFrom_cons_of_lt later]
  obtain ⟨groups, laid, same⟩ := exists_lays_join newline
    (List.cons_ne_nil first (replaceFrom 1 (cues.zip (events.map Prod.snd)) rest))
  refine ⟨groups, laid, ?_⟩
  rw [← same, fileLines, stripMark_eq_self (head_join_ne_mark split newline _)]

/-- Rereading keeps the fields exactly where the first line of the text has no field separator, or
ends the line. -/
theorem sameFields_iff_of_reread {items : List (Cue × Cue × AssRecord)}
    {again : List (Cue × AssRecord)} (reread : List.Forall₂ Reread items again) :
    List.Forall₂ (fun item event => SameFields item.2.2 event.2) items again ↔
      ∀ item ∈ items, Fieldwise item.2.2 (firstLine (assText item.1)) := by
  induction reread with
  | nil => exact iff_of_true .nil (List.forall_mem_nil _)
  | cons first _ ih =>
      obtain ⟨fields, line, dialogue, fits, refits⟩ := first
      rw [List.forall₂_cons, List.forall_mem_cons, ih, fits.sameFields_iff dialogue refits]

/-- Rereading keeps the times where it keeps the fields. -/
theorem sameTimes_of_reread {items : List (Cue × Cue × AssRecord)} {again : List (Cue × AssRecord)}
    (reread : List.Forall₂ Reread items again)
    (same : List.Forall₂ (fun item event => SameFields item.2.2 event.2) items again) :
    List.Forall₂ (fun item event => event.1.start = item.2.1.start ∧
      event.1.finish = item.2.1.finish) items again := by
  induction reread with
  | nil => exact .nil
  | cons first _ ih =>
      obtain ⟨fields, line, dialogue, fits, refits⟩ := first
      rw [List.forall₂_cons] at same
      exact .cons (fits.sameTimes refits same.1) (ih same.2)

/-- A text whose line ends are harmless has the separator in its first line if at all. -/
theorem fieldwise_firstLine {record : AssRecord} {text : Str} (harmless : Harmless record text) :
    Fieldwise record (firstLine text) ↔ Fieldwise record text := by
  rcases harmless.2 with oneLine | last
  · rw [firstLine, lines_eq_singleton oneLine]
    rfl
  · exact iff_of_true (.inl last) (.inl last)

/-- A written script whose texts have harmless line ends keeps its structure exactly when each text
is the last field or has no comma. -/
theorem ass_kept_iff {ssa bom : Bool} {text : Str} {doc : Document}
    (parsed : parseSubtitle (scriptFormat ssa) bom text = .ok doc) {cues : List Cue} {written : Str}
    (rendered : (doc.cloneWithCues cues).render = .ok written)
    (harmless : ∀ item ∈ cues.zip doc.records, Harmless item.2 (assText item.1)) :
    StructureKept (scriptFormat ssa) doc written ↔
      ∀ item ∈ cues.zip doc.records, Fieldwise item.2 (assText item.1) := by
  obtain ⟨events, read, some_, rfl⟩ := parseSubtitle_ass.mp parsed
  change renderAss (fileLines text) (events.map Prod.snd) (newlineOf text) cues = .ok written
    at rendered
  rw [renderAss] at rendered
  split at rendered
  · rename_i length
    rw [List.length_map] at length
    cases rendered
    obtain ⟨groups, laid, whole⟩ := exists_laid read length (newlineOf text)
    have zipped : cues.zip (events.map Prod.snd) =
        (cues.zip events).map fun item => (item.1, item.2.2) := by
      rw [List.zip_map_right]
      rfl
    have harmlessEvents : ∀ item ∈ cues.zip events, Harmless item.2.2 (assText item.1) := by
      intro item member
      refine harmless (item.1, item.2.2) ?_
      show _ ∈ cues.zip (events.map Prod.snd)
      rw [zipped]
      exact List.mem_map_of_mem member
    obtain ⟨again, readAgain, reread⟩ := reread_run (fun _ member => of_mem_lines member) read length
      harmlessEvents laid 0 0
    have sources : (cues.zip events).map Prod.snd = events :=
      List.map_snd_zip (by rw [length])
    have fieldwise : (∀ item ∈ cues.zip (events.map Prod.snd), Fieldwise item.2 (assText item.1)) ↔
        ∀ item ∈ cues.zip events, Fieldwise item.2.2 (firstLine (assText item.1)) := by
      rw [zipped]
      simp only [List.forall_mem_map]
      exact forall₂_congr fun item member => (fieldwise_firstLine (harmlessEvents item member)).symm
    have records : List.Forall₂ SameFields (events.map Prod.snd) (again.map Prod.snd) ↔
        List.Forall₂ (fun item event => SameFields item.2.2 event.2) (cues.zip events) again := by
      conv_lhs => rw [← sources]
      rw [List.map_map, List.forall₂_map_left_iff, List.forall₂_map_right_iff]
      rfl
    have reads : parseSubtitle (scriptFormat ssa) bom (join (newlineOf text).text
        (replaceLines (cues.zip (events.map Prod.snd)) (fileLines text))) =
          .ok ⟨.ass ssa groups.flatten (again.map Prod.snd), again.map Prod.fst,
            newlineOf (join (newlineOf text).text
              (replaceLines (cues.zip (events.map Prod.snd)) (fileLines text))), bom⟩ := by
      refine parseSubtitle_ass.mpr ⟨again, ?_, ?_, ?_⟩
      · rw [whole, readAgain]
      · rintro rfl
        rw [List.forall₂_nil_right_iff] at reread
        rw [reread] at sources
        exact some_ sources.symm
      · rw [whole]
    rw [show (Document.records ⟨.ass ssa (fileLines text) (events.map Prod.snd),
      events.map Prod.fst, newlineOf text, bom⟩) = events.map Prod.snd from rfl, fieldwise,
      ← sameFields_iff_of_reread reread, ← records]
    constructor
    · rintro ⟨found, isFound, same⟩
      cases reads.symm.trans isFound
      exact same.records
    · intro kept
      refine ⟨_, reads, ?_, fun isSrt => (by cases isSrt), kept⟩
      have times := sameTimes_of_reread reread (records.mp kept)
      show List.Forall₂ _ (events.map Prod.fst) (again.map Prod.fst)
      conv_lhs => rw [← sources]
      rw [List.map_map, List.forall₂_map_left_iff, List.forall₂_map_right_iff]
      exact times
  · cases rendered

/-- The lines of a body without lines are empty. -/
theorem untimed_bodyLines_iff (newline : Newline) (cue : Cue) :
    (∀ line ∈ bodyLines newline cue, isTiming line = false) ↔
      ∀ line ∈ lines (join newline.text (cue.lines ++ [[]])), isTiming line = false := by
  rw [bodyLines, linesOrEmpty]
  split
  · rename_i none_
    rw [none_]
    refine iff_of_true ?_ ?_
    · cases newline <;> decide
    · cases newline <;> decide
  · rfl

/-- A property of paired elements is one of the elements at the same place. -/
theorem forall_mem_zip_iff {α β : Type} {xs : List α} {ys : List β} (property : α → β → Prop) :
    (∀ item ∈ xs.zip ys, property item.1 item.2) ↔
      ∀ (i : Nat) (x : α), xs[i]? = some x → ∀ y ∈ ys[i]?, property x y := by
  constructor
  · intro all i x isX y isY
    exact all (x, y) (List.mem_of_getElem? (List.getElem?_zip_eq_some.mpr ⟨isX, isY⟩))
  · intro all item member
    obtain ⟨i, found⟩ := List.mem_iff_getElem?.mp member
    obtain ⟨isX, isY⟩ := List.getElem?_zip_eq_some.mp found
    exact all i _ isX _ isY

/-- The old text of a record has no line end, and no comma unless it is the last field. -/
theorem old_text {text : Str} {events : List (Cue × AssRecord)}
    (read : readEvents false [] 0 0 (fileLines text) = .ok events) {event : Cue × AssRecord}
    (member : event ∈ events) :
    Harmless event.2 (assText event.1) ∧ Fieldwise event.2 (assText event.1) := by
  obtain ⟨i, line, fields, _, found, dialogue, fits⟩ := (readEvents_fits read).1 event member
  have oneLine := of_mem_lines (List.mem_of_getElem? found)
  have inValues := List.mem_of_getElem? fits.text
  have inLine {c : CodePoint} (inText : c ∈ assText event.1) : c ∈ line := by
    rw [← fits.whole (colon_mem_of_isDialogue dialogue)]
    exact List.mem_append_right _ (mem_join_of_mem _ inValues inText)
  have plain : 0xa ∉ assText event.1 ∧ 0xd ∉ assText event.1 :=
    ⟨fun inText => oneLine.1 (inLine inText), fun inText => oneLine.2 (inLine inText)⟩
  refine ⟨⟨?_, .inl plain⟩, ?_⟩
  · rw [lines_eq_singleton plain]
    exact List.forall_mem_nil _
  · by_cases last : event.2.textIndex + 1 = event.2.values.length
    · exact .inl last
    · obtain ⟨inside, same⟩ := List.getElem?_eq_some_iff.mp fits.text
      have inFront := mem_dropLast_of_lt event.2.values event.2.textIndex (by omega)
      rw [same] at inFront
      exact .inr (fits.not_mem_dropLast _ inFront)

section Rebuild
variable (wide : CodePoint → Bool) (target : Language) (width : ℚ) (maxLines : Nat)

/-- A property of the lines into which the outputs for each translated cue are laid: by the wrapper
for an only segment, and one line for each output of a speaker pair. -/
def LaidOut (count : Nat) (segs : List Segment) (out : List Str)
    (property : Nat → List Str → Prop) : Prop :=
  ∀ i < count, ∀ body, isRewritten (itemsOf segs out i) = true →
    rebuiltLines wide target width maxLines false (itemsOf segs out i) = .ok body → property i body

/-- No line that the outputs put into an SRT file holds a timing. -/
def TimingFree (doc : Document) (segs : List Segment) (out : List Str) : Prop :=
  LaidOut wide target width maxLines doc.cues.length segs out fun _ body =>
    ∀ line ∈ lines (join doc.newline.text (body ++ [[]])), isTiming line = false

/-- The line ends that the outputs put into a script are harmless. -/
def HarmlessTexts (doc : Document) (segs : List Segment) (out : List Str) : Prop :=
  LaidOut wide target width maxLines doc.cues.length segs out fun i body =>
    ∀ record ∈ doc.records[i]?, Harmless record (join (ofString "\\N") body)

/-- The text is the last field of a record, or the outputs put no comma into it. -/
def FieldwiseTexts (doc : Document) (segs : List Segment) (out : List Str) : Prop :=
  LaidOut wide target width maxLines doc.cues.length segs out fun i body =>
    ∀ record ∈ doc.records[i]?, Fieldwise record (join (ofString "\\N") body)

/-- A property of the lines of the rebuilt cues that the old lines have is one of the outputs. -/
theorem forall_rebuilt_iff {cues result : List Cue} {segs : List Segment} {out : List Str}
    (rebuilt : rebuildCues wide target width maxLines cues segs out = .ok result)
    (dialect : ∀ cue ∈ cues, cue.dialect ≠ .vtt) {property : Nat → List Str → Prop}
    (old : ∀ i cue, cues[i]? = some cue → property i cue.lines) :
    (∀ i new, result[i]? = some new → property i new.lines) ↔
      LaidOut wide target width maxLines cues.length segs out property := by
  obtain ⟨length, each⟩ := rebuildCues_eq wide target width maxLines rebuilt
  have plain {i : Nat} {cue : Cue} (found : cues[i]? = some cue) :
      decide (cue.dialect = .vtt) = false :=
    decide_eq_false (dialect cue (List.mem_of_getElem? found))
  constructor
  · intro all i inside body rewritten made
    have inResult : i < result.length := by omega
    have found := List.getElem?_eq_getElem inside
    have stored := List.getElem?_eq_getElem inResult
    rcases rebuildCue_eq wide target width maxLines (each i _ _ found stored) with
      ⟨untouched, _⟩ | ⟨_, lines, same, madeToo⟩
    · rw [rewritten] at untouched
      cases untouched
    · rw [plain found, made] at madeToo
      cases madeToo
      have holds := all i _ stored
      rw [same] at holds
      exact holds
  · intro laid i new stored
    obtain ⟨inResult, _⟩ := List.getElem?_eq_some_iff.mp stored
    have inside : i < cues.length := by omega
    have found := List.getElem?_eq_getElem inside
    rcases rebuildCue_eq wide target width maxLines (each i _ _ found stored) with
      ⟨_, rfl⟩ | ⟨rewritten, lines, same, made⟩
    · exact old i _ found
    · rw [plain found] at made
      rw [same]
      exact laid i inside lines rewritten made

/-- The rebuilt cues keep everything but their lines. -/
theorem rebuildCues_frames {cues result : List Cue} {segs : List Segment} {out : List Str}
    (rebuilt : rebuildCues wide target width maxLines cues segs out = .ok result) :
    List.Forall₂ Frame cues result := by
  obtain ⟨length, each⟩ := rebuildCues_eq wide target width maxLines rebuilt
  rw [List.forall₂_iff_get]
  refine ⟨length.symm, fun i inCues inResult => ?_⟩
  rcases rebuildCue_eq wide target width maxLines (each i _ _
    (List.getElem?_eq_getElem inCues) (List.getElem?_eq_getElem inResult)) with
      ⟨_, same⟩ | ⟨_, lines, same, _⟩
  · rw [List.get_eq_getElem, List.get_eq_getElem, same]
    rfl
  · rw [List.get_eq_getElem, List.get_eq_getElem, same]
    rfl

/-- A translated SRT document keeps its structure exactly when the outputs put no timing line into
it. A translated script whose outputs bring harmless line ends only keeps its structure exactly when
the text is the last field or the outputs bring no comma. -/
theorem structure_kept_iff {format : FileFormat} {bom : Bool} {text : Str} {doc : Document}
    {segs : List Segment} {out : List Str} {result : List Cue} {written : Str}
    (supported : format ≠ .vtt) (parsed : parseSubtitle format bom text = .ok doc)
    (rebuilt : rebuildCues wide target width maxLines doc.cues segs out = .ok result)
    (rendered : (doc.cloneWithCues result).render = .ok written) :
    (format = .srt → (StructureKept format doc written ↔
        TimingFree wide target width maxLines doc segs out)) ∧
      (format ≠ .srt → HarmlessTexts wide target width maxLines doc segs out →
        (StructureKept format doc written ↔
          FieldwiseTexts wide target width maxLines doc segs out)) := by
  constructor
  · rintro rfl
    rw [srt_kept_iff parsed (rebuildCues_frames wide target width maxLines rebuilt) rendered]
    obtain ⟨source, read, _, rfl⟩ := parseSubtitle_srt.mp parsed
    have fits := parseSrt_fits read
    rw [TimingFree, ← forall_rebuilt_iff wide target width maxLines rebuilt]
    · constructor
      · intro all i new stored
        exact (untimed_bodyLines_iff _ new).mp (all new (List.mem_of_getElem? stored))
      · intro all new member
        obtain ⟨i, stored⟩ := List.mem_iff_getElem?.mp member
        exact (untimed_bodyLines_iff _ new).mpr (all i new stored)
    · intro cue member isVtt
      rw [(fits cue member).dialect] at isVtt
      cases isVtt
    · intro _ cue found
      exact (untimed_bodyLines_iff _ cue).mp
        (untimed_bodyLines _ (fits cue (List.mem_of_getElem? found)))
  · intro script harmless
    obtain ⟨ssa, rfl⟩ : ∃ ssa, format = scriptFormat ssa := by
      cases format with
      | srt => exact absurd rfl script
      | vtt => exact absurd rfl supported
      | ass => exact ⟨false, rfl⟩
      | ssa => exact ⟨true, rfl⟩
    obtain ⟨events, read, _, same⟩ := parseSubtitle_ass.mp parsed
    have isCues : doc.cues = events.map Prod.fst := by rw [same]
    have isRecords : doc.records = events.map Prod.snd := by
      rw [same]
      rfl
    have old {i : Nat} {cue : Cue} (found : doc.cues[i]? = some cue) {record : AssRecord}
        (isRecord : record ∈ doc.records[i]?) :
        Harmless record (assText cue) ∧ Fieldwise record (assText cue) := by
      rw [isCues, List.getElem?_map, Option.map_eq_some_iff] at found
      rw [isRecords, List.getElem?_map, Option.mem_def, Option.map_eq_some_iff] at isRecord
      obtain ⟨event, isEvent, rfl⟩ := found
      obtain ⟨other, isOther, rfl⟩ := isRecord
      cases isEvent.symm.trans isOther
      exact old_text read (List.mem_of_getElem? isEvent)
    have dialect : ∀ cue ∈ doc.cues, cue.dialect ≠ .vtt := by
      intro cue member isVtt
      rw [isCues] at member
      obtain ⟨event, inEvents, rfl⟩ := List.mem_map.mp member
      obtain ⟨_, _, _, _, _, _, fits⟩ := (readEvents_fits read).1 event inEvents
      rw [fits.dialect] at isVtt
      cases isVtt
    have allHarmless : ∀ item ∈ result.zip doc.records, Harmless item.2 (assText item.1) :=
      (forall_mem_zip_iff fun cue record => Harmless record (assText cue)).mpr
        ((forall_rebuilt_iff wide target width maxLines rebuilt dialect
          fun i cue found record isRecord => (old found isRecord).1).mpr harmless)
    rw [ass_kept_iff parsed rendered allHarmless, FieldwiseTexts,
      ← forall_rebuilt_iff wide target width maxLines rebuilt dialect
        fun i cue found record isRecord => (old found isRecord).2]
    exact forall_mem_zip_iff fun cue record => Fieldwise record (assText cue)

end Rebuild

/-- A file with a speaker pair. -/
def pairText : Str := ofString "1\n00:00:01,000 --> 00:00:02,000\n- Hi\n- Bye\n"

def pairCue (lines : List Str) : Cue :=
  ⟨1, ofString "00:00:01,000", ofString "00:00:02,000", [], lines, .plain⟩

def pairDoc : Document := ⟨.srt, [pairCue [ofString "- Hi", ofString "- Bye"]], .lf, false⟩

def pairSegs : List Segment := [⟨0, ofString "Hi", [], true, false⟩, ⟨0, ofString "Bye", [], true, false⟩]

def pairOut : List Str := [ofString "Salut\nà toi", ofString "Bye"]

def pairWritten : Str := ofString "1\n00:00:01,000 --> 00:00:02,000\n- Salut\nà toi\n- Bye\n"

theorem structure_kept_iff_example :
    (FileFormat.srt = .srt → (StructureKept .srt pairDoc pairWritten ↔
        TimingFree (fun _ => false) .fr 16 2 pairDoc pairSegs pairOut)) ∧
      (FileFormat.srt ≠ .srt → HarmlessTexts (fun _ => false) .fr 16 2 pairDoc pairSegs pairOut →
        (StructureKept .srt pairDoc pairWritten ↔
          FieldwiseTexts (fun _ => false) .fr 16 2 pairDoc pairSegs pairOut)) := by
  have parsed : parseSubtitle .srt false pairText = .ok pairDoc := by decide +kernel
  have rebuilt : rebuildCues (fun _ => false) .fr 16 2 pairDoc.cues pairSegs pairOut =
      .ok [pairCue [ofString "- Salut\nà toi", ofString "- Bye"]] := by decide +kernel
  have rendered : (pairDoc.cloneWithCues
      [pairCue [ofString "- Salut\nà toi", ofString "- Bye"]]).render = .ok pairWritten := by
    decide +kernel
  exact structure_kept_iff (fun _ => false) .fr 16 2 (by decide) parsed rebuilt rendered

/-- The first output carries a cue of its own. -/
def smuggledOut : List Str :=
  [ofString "Salut\n\n2\n00:00:05,000 --> 00:00:06,000\nX", ofString "Bye"]

def smuggledLines : List Str :=
  [ofString "- Salut\n\n2\n00:00:05,000 --> 00:00:06,000\nX", ofString "- Bye"]

def smuggledWritten : Str :=
  ofString "1\n00:00:01,000 --> 00:00:02,000\n- Salut\n\n2\n00:00:05,000 --> 00:00:06,000\nX\n- Bye\n"

/-- A provider output with a line end adds a cue to the file. -/
theorem smuggled_cue_breaks_structure :
    parseSubtitle .srt false pairText = .ok pairDoc ∧
      segmentCues id pairDoc.cues = .ok pairSegs ∧ List.Forall₂ ValidOutput pairSegs smuggledOut ∧
        rebuildCues (fun _ => false) .fr 16 2 pairDoc.cues pairSegs smuggledOut =
          .ok [pairCue smuggledLines] ∧
        (pairDoc.cloneWithCues [pairCue smuggledLines]).render = .ok smuggledWritten ∧
          ¬StructureKept .srt pairDoc smuggledWritten := by
  have first : validateLine 0 (ofString "Hi")
      (some (ofString "Salut\n\n2\n00:00:05,000 --> 00:00:06,000\nX")) =
        .ok (ofString "Salut\n\n2\n00:00:05,000 --> 00:00:06,000\nX") := by decide +kernel
  have cues : (parseSubtitle .srt false smuggledWritten).map (fun again => again.cues.length) =
      .ok 2 := by decide +kernel
  refine ⟨by decide +kernel, by decide +kernel, .cons (.inr ⟨0, first⟩) (.cons (.inl rfl) .nil),
    by decide +kernel, by decide +kernel, ?_⟩
  rintro ⟨again, readAgain, same⟩
  have number := same.times.length_eq
  change parseSubtitle .srt false smuggledWritten = .ok again at readAgain
  rw [readAgain] at cues
  cases (Except.ok.inj cues).symm.trans number.symm

end SubtitleTranslator.Engine
