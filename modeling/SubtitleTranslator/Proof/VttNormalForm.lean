import SubtitleTranslator.Proof.Documents
import SubtitleTranslator.Proof.VttReading

namespace SubtitleTranslator.Engine
open Library Library.Text

theorem dash_mem_vttTimingText (start finish : VttStamp) (before after rest : Str) :
    0x2d ∈ vttTimingText start before after finish rest := by simp [vttTimingText]

theorem blank_of_mem {s : Str} {c : CodePoint} (member : c ∈ s) (seen : isSpace c = false) :
    blank s = false := by
  rw [blank, List.all_eq_false]
  exact ⟨c, member, by simp [seen]⟩

/-- The line of the times is read back, and only its spaces are new. -/
theorem vttTimed_of_vttTiming? {line : Str} {timing : Timing}
    (times : vttTiming? line = some timing) (oneLine : 0xa ∉ line) (count : Nat) (body : List Str) :
    VttTimed (vttCue count timing body) ∧ ∀ c, isSpace c = true → c ≠ 0x20 → c ∉ line →
      c ∉ timingLine (vttCue count timing body) := by
  obtain ⟨start, before, after, finish, _, _, isStart, isFinish, text⟩ :=
    of_fullmatch_vttTimingRe times
  have inLine : ∀ c ∈ timing.rest, c ∈ line := by
    intro c member
    have inStrip : c ∈ strip line := by
      rw [text, vttTimingText]
      simp [member]
    exact (List.dropWhile_suffix isSpace).subset ((rstrip_front _).subset inStrip)
  have written : timingLine (vttCue count timing body) =
      vttTimingText start [0x20] [0x20] finish timing.rest := by
    show timing.start ++ ofString " --> " ++ timing.finish ++ timing.rest = _
    rw [isStart, isFinish, vttTimingText, List.append_assoc, List.append_assoc]
    rfl
  have seen : blank (timingLine (vttCue count timing body)) = false := by
    rw [written]
    exact blank_of_mem (dash_mem_vttTimingText start finish _ _ _) (by decide)
  have stripped : strip (timingLine (vttCue count timing body)) =
      timingLine (vttCue count timing body) := by
    apply strip_eq_self
    · intro c front
      rw [written, vttTimingText, List.head?_append_of_ne_nil _ start.text_ne_nil] at front
      exact start.isSpace_of_mem (List.mem_of_mem_head? front)
    · intro c back
      have nonempty : strip line ≠ [] := by
        rw [text]
        exact List.ne_nil_of_mem (dash_mem_vttTimingText start finish _ _ _)
      obtain ⟨last, isLast, seenLast⟩ := (strip_solid nonempty).back
      -- The line ends as the line that it was read from.
      have ends (front : Str) : (front ++ (finish.text ++ timing.rest)).getLast? =
          (finish.text ++ timing.rest).getLast? :=
        List.getLast?_append_of_ne_nil _ (by simp [finish.text_ne_nil])
      have same : (timingLine (vttCue count timing body)).getLast? = (strip line).getLast? := by
        rw [written, text]
        calc
          _ = (start.text ++ ([0x20] ++ [0x2d, 0x2d, 0x3e] ++ [0x20]) ++
              (finish.text ++ timing.rest)).getLast? := by
            simp only [vttTimingText, List.append_assoc, List.cons_append, List.nil_append]
          _ = (start.text ++ (before ++ [0x2d, 0x2d, 0x3e] ++ after) ++
              (finish.text ++ timing.rest)).getLast? := by rw [ends, ends]
          _ = _ := by simp only [vttTimingText, List.append_assoc, List.cons_append, List.nil_append]
      rw [same] at back
      cases Option.mem_unique isLast back
      exact seenLast
  refine ⟨⟨?_, seen⟩, fun c space other absent => ?_⟩
  · have space : ∀ c ∈ ([0x20] : Str), isSpace c = true := List.forall_mem_singleton.mpr (by decide)
    rw [vttTiming?, stripped, written,
      fullmatch_vttTimingRe start finish space space fun member => oneLine (inLine _ member),
      ← isStart, ← isFinish]
    rfl
  · have notIn (stamp : VttStamp) : c ∉ stamp.text := fun member => by
      rw [stamp.isSpace_of_mem member] at space
      cases space
    have dash : c ≠ 0x2d := by
      rintro rfl
      cases space
    have arrow : c ≠ 0x3e := by
      rintro rfl
      cases space
    rw [written, vttTimingText]
    simp only [List.mem_append, List.mem_cons, List.not_mem_nil, not_or]
    exact ⟨notIn start, ⟨other, id⟩, dash, dash, arrow, ⟨other, id⟩, notIn finish,
      fun member => absent (inLine c member)⟩

/-- The cues of a WebVTT document carry their times and lines that are not blank. -/
structure VttFits (absent : CodePoint) (cue : Cue) : Prop where
  timed : VttTimed cue
  seen : ∀ line ∈ cue.lines, blank line = false
  oneLine : ∀ line ∈ timingLine cue :: cue.lines, absent ∉ line
  dialect : cue.dialect = .vtt

/-- Every cue that is read from blocks is well formed. -/
theorem readBlocks_fits {absent : CodePoint} (space : isSpace absent = true) (other : absent ≠ 0x20)
    {blocks : List (List Str)} {count : Nat}
    (fits : ∀ block ∈ blocks, ∀ line ∈ block, blank line = false ∧ 0xa ∉ line ∧ absent ∉ line) :
    ∀ cue ∈ (readBlocks count blocks).1, VttFits absent cue := by
  induction blocks generalizing count with
  | nil => exact List.forall_mem_nil _
  | cons block blocks ih =>
      rw [List.forall_mem_cons] at fits
      rcases block_cases block with raw | ⟨identifier, line, timing, body, rfl, plain, times⟩
      · rw [readBlocks_raw raw]
        exact ih fits.2
      · rw [readBlocks_cue plain times, List.forall_mem_cons]
        refine ⟨?_, ih fits.2⟩
        have inside := fits.1
        simp only [List.forall_mem_append, List.forall_mem_cons] at inside
        obtain ⟨_, ⟨_, noFeed, noOther⟩, lines⟩ := inside
        obtain ⟨timed, outside⟩ := vttTimed_of_vttTiming? times noFeed count body
        exact ⟨timed, fun line member => (lines line member).1,
          List.forall_mem_cons.mpr ⟨outside absent space other noOther,
            fun line member => (lines line member).2.2⟩, rfl⟩

/-- A line of the header after the first is not blank and has no arrow. -/
def inHeader (line : Str) : Bool := !blank line && !occurs (ofString "-->") line

/-- The first line of a WebVTT file. -/
def isWebVtt (line : Str) : Prop := (ofString "WEBVTT").isPrefixOf ((strip line).flatMap upperPoint)

theorem parseVtt_eq_ok {text : Str} {newline : Newline} {bom : Bool} {doc : Document} :
    parseVtt text newline bom = .ok doc ↔
      ∃ first rest, (stripMark text).splitOn 0xa = first :: rest ∧ isWebVtt first ∧
        doc = ⟨.vtt (join [0xa] (first :: rest.takeWhile inHeader))
            (readBlocks 0 (blocksOf (rest.dropWhile inHeader))).2,
          (readBlocks 0 (blocksOf (rest.dropWhile inHeader))).1, newline, bom⟩ := by
  rw [parseVtt]
  cases lines : (stripMark text).splitOn 0xa with
  | nil => exact absurd lines (List.splitOn_ne_nil _ _)
  | cons first rest =>
      show (if ¬(ofString "WEBVTT").isPrefixOf ((strip first).flatMap upperPoint) then _
        else Except.ok (⟨.vtt (join [0xa] (first :: rest.takeWhile inHeader))
            (readBlocks 0 (blocksOf (rest.dropWhile inHeader))).2,
          (readBlocks 0 (blocksOf (rest.dropWhile inHeader))).1, newline, bom⟩ : Document)) = _ ↔ _
      split
      · rename_i other
        refine ⟨nofun, ?_⟩
        rintro ⟨_, _, same, isVtt, _⟩
        cases same
        exact absurd isVtt other
      · rename_i vtt
        constructor
        · intro same
          cases same
          exact ⟨first, rest, rfl, not_not.mp vtt, rfl⟩
        · rintro ⟨_, _, same, _, rfl⟩
          cases same
          rfl

/-- The lines of a cue as they stand in the written file. -/
def laidCue (physical : Str → List Str) (cue : Cue) : Cue × List Str :=
  (cue, (linesOrEmpty cue).flatMap physical)

/-- What is written for the blocks of a file are its lines, with those of the given cues. -/
theorem mapM_vttLines {blocks : List (List Str)} {count : Nat} {front cues : List Cue}
    (before : front.length = count) (length : cues.length = (readBlocks count blocks).1.length) :
    ∃ written, (readBlocks count blocks).2.mapM (vttLines (front ++ cues)) = .ok written ∧
      written.flatten =
        layBlocks (readBlocks count blocks).2 (cues.map (laidCue fun line => [line])) := by
  induction blocks generalizing count front cues with
  | nil => exact ⟨[], rfl, rfl⟩
  | cons block blocks ih =>
      rcases block_cases block with raw | ⟨identifier, line, timing, body, rfl, plain, timed⟩
      · rw [readBlocks_raw raw] at length ⊢
        obtain ⟨written, rendered, laid⟩ := ih before length
        refine ⟨(block ++ [[]]) :: written, ?_, ?_⟩
        · rw [List.mapM_cons, rendered]
          rfl
        · rw [List.flatten_cons, laid, List.append_assoc]
          rfl
      · rw [readBlocks_cue plain timed] at length ⊢
        cases cues with
        | nil => cases length
        | cons cue cues =>
            have more : (front ++ [cue]).length = count + 1 := by
              rw [List.length_append, before]
              rfl
            obtain ⟨written, rendered, laid⟩ := ih more (Nat.succ.inj length)
            have found : (front ++ cue :: cues)[count]? = some cue := by
              rw [List.getElem?_append_right (by omega), before, Nat.sub_self]
              rfl
            refine ⟨(identifier ++ [timingLine cue] ++ linesOrEmpty cue ++ [[]]) :: written, ?_, ?_⟩
            · rw [List.append_assoc, List.singleton_append] at rendered
              rw [List.mapM_cons, vttLines, found, rendered]
              rfl
            · rw [List.flatten_cons, laid, List.map_cons, laidCue, List.flatMap_singleton', layBlocks,
                List.append_assoc _ [[]]]
              rfl

/-- The text of a file whose first line is no byte order mark keeps its front. -/
theorem stripMark_join (newline : Newline) {first : Str} (vtt : isWebVtt first)
    (unmarked : first.head? ≠ some 0xfeff) (rest : List Str) :
    stripMark (join newline.text (first :: rest)) = join newline.text (first :: rest) := by
  have nonempty : first ≠ [] := by
    rintro rfl
    exact absurd vtt (by unfold isWebVtt; decide)
  have front : (join newline.text (first :: rest)).head? = first.head? := by
    cases rest with
    | nil => rw [join_singleton]
    | cons next rest =>
        rw [join_cons_cons, List.append_assoc, List.head?_append_of_ne_nil _ nonempty]
  apply stripMark_eq_self
  rw [front]
  exact unmarked

/-- A file is read from its header, a blank line and its blocks. -/
theorem parseVtt_file {text first : Str} {header rest : List Str} (newline : Newline) (bom : Bool)
    (vtt : isWebVtt first) (fits : ∀ line ∈ header, inHeader line = true)
    (lines : (stripMark text).splitOn 0xa = first :: (header ++ [] :: rest)) :
    parseVtt text newline bom = .ok ⟨.vtt (join [0xa] (first :: header))
      (readBlocks 0 (blocksOf rest)).2, (readBlocks 0 (blocksOf rest)).1, newline, bom⟩ := by
  have stop : inHeader [] = false := by decide
  rw [parseVtt_eq_ok]
  refine ⟨first, header ++ [] :: rest, lines, vtt, ?_⟩
  rw [List.takeWhile_append_of_pos fits, List.takeWhile_cons_of_neg (by simp [stop]),
    List.dropWhile_append_of_pos fits, List.dropWhile_cons_of_neg (by simp [stop]),
    blocksOf_cons_blank rfl, List.append_nil]

/-- The lines of the body of a cue are read back. -/
theorem cutCue_laidCue {absent : CodePoint} {cue : Cue} (fits : VttFits absent cue) :
    cutCue (laidCue (fun line => [line]) cue) = cue ∧
      cutOff (laidCue (fun line => [line]) cue).2 = [] := by
  have laid : (laidCue (fun line => [line]) cue).2 = linesOrEmpty cue := List.flatMap_singleton' _
  have seen : ∀ line ∈ cue.lines, (!blank line) = true :=
    fun line member => by simp [fits.seen line member]
  have whole : cue.lines.takeWhile (fun line => !blank line) = cue.lines :=
    List.takeWhile_eq_self_iff.mpr seen
  have none_ : cue.lines.dropWhile (fun line => !blank line) = [] :=
    List.dropWhile_eq_nil_iff.mpr seen
  rw [cutCue, cutOff, laid]
  unfold linesOrEmpty
  split
  · rename_i empty
    refine ⟨?_, by decide⟩
    conv_rhs => rw [← show ({ cue with lines := [] } : Cue) = cue by rw [← empty]]
    rfl
  · rw [whole, none_]
    exact ⟨rfl, rfl⟩

/-- The parts of a WebVTT text: its first line, the rest of its header and its blocks. -/
structure VttFile (text first : Str) (header : List Str) (blocks : List (List Str)) : Prop where
  vtt : isWebVtt first
  unmarked : first.head? ≠ some 0xfeff
  inside : ∀ line ∈ header, inHeader line = true
  nonempty : ∀ block ∈ blocks, block ≠ []
  seen : ∀ block ∈ blocks, ∀ line ∈ block, blank line = false
  head : ∀ line ∈ first :: header, 0xa ∉ line ∧ ∀ c ∈ line, c ∈ text
  body : ∀ block ∈ blocks, ∀ line ∈ block, 0xa ∉ line ∧ ∀ c ∈ line, c ∈ text

/-- The document of the parts of a WebVTT text with the given cues. -/
def vttDoc (first : Str) (header : List Str) (blocks : List VttBlock) (cues : List Cue)
    (newline : Newline) (bom : Bool) : Document :=
  ⟨.vtt (join [0xa] (first :: header)) blocks, cues, newline, bom⟩

/-- A text without its byte order marks starts with none. -/
theorem stripMark_head? (text : Str) : (stripMark text).head? ≠ some 0xfeff := by
  intro front
  have stop := List.head?_dropWhile_not (fun c : CodePoint => c = 0xfeff) text
  rw [show text.dropWhile (fun c : CodePoint => c = 0xfeff) = stripMark text from rfl, front] at stop
  simp at stop

/-- A text that is parsed has its parts. -/
theorem exists_vttFile {text : Str} {newline : Newline} {bom : Bool} {doc : Document}
    (parsed : parseVtt text newline bom = .ok doc) :
    ∃ first header blocks, VttFile text first header blocks ∧
      doc = vttDoc first header (readBlocks 0 blocks).2 (readBlocks 0 blocks).1 newline bom := by
  obtain ⟨first, rest, lines, vtt, rfl⟩ := parseVtt_eq_ok.mp parsed
  have inText : ∀ line ∈ first :: rest, 0xa ∉ line ∧ ∀ c ∈ line, c ∈ text := by
    intro line member
    rw [← lines] at member
    obtain ⟨outside, inside⟩ := of_mem_splitOn member
    exact ⟨outside, fun c inLine => (List.dropWhile_suffix _).subset (inside c inLine)⟩
  have unmarked : first.head? ≠ some 0xfeff := by
    intro marked
    apply stripMark_head? text
    have joined : join [0xa] ((stripMark text).splitOn 0xa) = stripMark text :=
      List.intercalate_splitOn 0xa
    rw [lines] at joined
    rw [← joined]
    cases rest with
    | nil => rw [join_singleton, marked]
    | cons next rest =>
        rw [join_cons_cons, List.append_assoc, List.head?_append, marked]
        rfl
  rw [List.forall_mem_cons] at inText
  refine ⟨first, rest.takeWhile inHeader, blocksOf (rest.dropWhile inHeader), ⟨vtt, unmarked,
    fun line => List.mem_takeWhile_imp, fun block member => (of_mem_blocksOf member).1,
    fun block member line inBlock => ((of_mem_blocksOf member).2 line inBlock).1, ?_, ?_⟩, rfl⟩
  · rw [List.forall_mem_cons]
    exact ⟨inText.1, fun line member => inText.2 line ((List.takeWhile_prefix _).subset member)⟩
  · intro block inBlocks line member
    exact inText.2 line ((List.dropWhile_suffix _).subset ((of_mem_blocksOf inBlocks).2 line member).2)

section File
variable {text first : Str} {header : List Str} {blocks : List (List Str)}

/-- A header is split into its lines. -/
theorem VttFile.splitOn_header (file : VttFile text first header blocks) :
    (join [0xa] (first :: header)).splitOn 0xa = first :: header :=
  List.splitOn_intercalate 0xa (fun line member => (file.head line member).1) (List.cons_ne_nil _ _)

/-- The cues that the parts of a text carry are well formed. -/
theorem VttFile.fits (file : VttFile text first header blocks) {absent : CodePoint}
    (space : isSpace absent = true) (other : absent ≠ 0x20) (free : absent = 0xa ∨ absent ∉ text) :
    ∀ cue ∈ (readBlocks 0 blocks).1, VttFits absent cue := by
  apply readBlocks_fits space other
  intro block inBlocks line member
  obtain ⟨noFeed, inText⟩ := file.body block inBlocks line member
  refine ⟨file.seen block inBlocks line member, noFeed, fun inLine => ?_⟩
  rcases free with rfl | outside
  · exact noFeed inLine
  · exact outside (inText absent inLine)

/-- The lines that are written for a file with the given cues. -/
def fileWith (first : Str) (header : List Str) (blocks : List VttBlock)
    (bodies : List (Cue × List Str)) : List Str :=
  first :: (header ++ [] :: layBlocks blocks bodies)

/-- What is written for a document is its header, a blank line and what its blocks show. -/
theorem VttFile.render (file : VttFile text first header blocks) {cues : List Cue}
    (length : cues.length = (readBlocks 0 blocks).1.length) (newline : Newline) (bom : Bool) :
    (vttDoc first header (readBlocks 0 blocks).2 cues newline bom).render =
      .ok (join newline.text (fileWith first header (readBlocks 0 blocks).2
        (cues.map (laidCue fun line => [line])))) := by
  obtain ⟨written, rendered, laid⟩ := @mapM_vttLines blocks 0 [] cues rfl length
  rw [List.nil_append] at rendered
  show renderVtt (join [0xa] (first :: header)) _ newline cues = _
  rw [renderVtt, file.splitOn_header, rendered, fileWith, ← laid]
  show Except.ok (join newline.text (first :: header ++ [[]] ++ written.flatten)) = _
  rw [List.append_assoc]
  rfl

/-- A file that is laid with the same cues is read back, up to the blank lines of their bodies. -/
theorem VttFile.reparse (file : VttFile text first header blocks) {bodies : List (Cue × List Str)}
    (same : List.Forall₂ (fun cue laid => laid.1 = { cue with lines := laid.1.lines })
      (readBlocks 0 blocks).1 bodies)
    (timed : ∀ laid ∈ bodies, VttTimed laid.1)
    (untimed : ∀ laid ∈ bodies, ∀ block ∈ cutOff laid.2, ∀ line ∈ block, Untimed line)
    {written : Str} (newline : Newline) (bom : Bool)
    (lines : (stripMark written).splitOn 0xa =
      fileWith first header (readBlocks 0 blocks).2 bodies) :
    ∃ read, parseVtt written newline bom =
        .ok (vttDoc first header read (bodies.map cutCue) newline bom) ∧
      identifiersOf read = identifiersOf (readBlocks 0 blocks).2 ∧
        ((∀ laid ∈ bodies, cutOff laid.2 = []) → read = (readBlocks 0 blocks).2) := by
  obtain ⟨read, again, kept⟩ := readBlocks_layBlocks file.nonempty file.seen same timed untimed
  refine ⟨read, ?_, kept⟩
  rw [parseVtt_file newline bom file.vtt file.inside lines, again]
  rfl

/-- A character that the text does not have is in no line that is written for its cues. -/
theorem VttFile.not_mem (file : VttFile text first header blocks) (absent : CodePoint)
    (space : isSpace absent = true) (other : absent ≠ 0x20) (free : absent = 0xa ∨ absent ∉ text) :
    ∀ line ∈ fileWith first header (readBlocks 0 blocks).2
      ((readBlocks 0 blocks).1.map (laidCue fun line => [line])), absent ∉ line := by
  have outside {line : Str} (fits : 0xa ∉ line ∧ ∀ c ∈ line, c ∈ text) : absent ∉ line := by
    rcases free with rfl | missing
    · exact fits.1
    · exact fun member => missing (fits.2 _ member)
  rw [fileWith, ← List.cons_append, List.forall_mem_append, List.forall_mem_cons (l := layBlocks _ _)]
  refine ⟨fun line member => outside (file.head line member), List.not_mem_nil,
    forall_layBlocks List.not_mem_nil
      (fun block inBlocks line member => outside (file.body block inBlocks line member)) ?_⟩
  rw [List.forall_mem_map]
  intro cue member
  have own := (file.fits space other free cue member).oneLine
  rw [List.forall_mem_cons] at own ⊢
  refine ⟨own.1, ?_⟩
  show ∀ line ∈ (linesOrEmpty cue).flatMap _, absent ∉ line
  rw [List.flatMap_singleton']
  unfold linesOrEmpty
  split
  · exact List.forall_mem_singleton.mpr List.not_mem_nil
  · exact own.2

/-- The own cues of a file are read back whole. -/
theorem VttFile.reparse_own (file : VttFile text first header blocks) {written : Str}
    (newline : Newline) (bom : Bool)
    (lines : (stripMark written).splitOn 0xa = fileWith first header (readBlocks 0 blocks).2
      ((readBlocks 0 blocks).1.map (laidCue fun line => [line]))) :
    parseVtt written newline bom =
      .ok (vttDoc first header (readBlocks 0 blocks).2 (readBlocks 0 blocks).1 newline bom) := by
  have cues : ∀ cue ∈ (readBlocks 0 blocks).1, VttFits 0xa cue :=
    file.fits (by decide) (by decide) (.inl rfl)
  have whole (cue : Cue) (member : cue ∈ (readBlocks 0 blocks).1) := cutCue_laidCue (cues cue member)
  obtain ⟨read, again, _, kept⟩ := file.reparse
    (by rw [List.forall₂_map_right_iff, List.forall₂_same]; exact fun _ _ => rfl)
    (by rw [List.forall_mem_map]; exact fun cue member => (cues cue member).timed)
    (by
      rw [List.forall_mem_map]
      intro cue member
      rw [(whole cue member).2]
      exact List.forall_mem_nil _)
    newline bom lines
  have sameCues : ((readBlocks 0 blocks).1.map (laidCue fun line => [line])).map cutCue =
      (readBlocks 0 blocks).1 := by
    rw [List.map_map]
    conv_rhs => rw [← List.map_id (readBlocks 0 blocks).1]
    exact List.map_congr_left fun cue member => (whole cue member).1
  rw [again, sameCues, kept]
  rw [List.forall_mem_map]
  exact fun cue member => (whole cue member).2

end File

/-- Parsing what is written for a WebVTT document gives the document back: the file itself with line
feeds, and its normalized text for the document of a normalized text. -/
theorem parseVtt_normal_form {text : Str} {newline : Newline} {bom : Bool} {doc : Document}
    (parsed : parseVtt text newline bom = .ok doc) :
    ∃ written, doc.render = .ok written ∧
      (newline = .lf → parseVtt written newline bom = .ok doc) ∧
        (0xd ∉ text → parseVtt (normalizeNewlines written) newline bom = .ok doc) := by
  obtain ⟨first, header, blocks, file, rfl⟩ := exists_vttFile parsed
  have noFeeds := file.not_mem 0xa (by decide) (by decide) (.inl rfl)
  refine ⟨_, file.render rfl newline bom, ?_, ?_⟩
  · rintro rfl
    apply file.reparse_own
    rw [fileWith, stripMark_join .lf file.vtt file.unmarked]
    exact List.splitOn_intercalate 0xa noFeeds (List.cons_ne_nil _ _)
  · intro noReturn
    apply file.reparse_own
    have noReturns := file.not_mem 0xd (by decide) (by decide) (.inr noReturn)
    rw [splitOn_stripMark, fileLines, fileWith, stripMark_join newline file.vtt file.unmarked,
      lines_join newline (List.cons_ne_nil _ _) fun line member back =>
        noReturns line member (List.mem_of_getLast? back)]
    conv_rhs => rw [← List.flatMap_singleton' (first :: _)]
    exact List.flatMap_congr fun line member =>
      lines_eq_singleton ⟨noFeeds line member, noReturns line member⟩

/-- A file with a header of two lines that a cue follows at once, a note, an identifier of two lines,
a cue without text and a style. -/
def mixedText : Str :=
  ofString "WEBVTT - mixed\nKind: captions\n00:01.000-->00:02.000 align:left \nHello\n00:03.000 --> 00:04.000\n\nNOTE one\ntwo\n \nfirst\nsecond --> third\n1:00:03.000 --> 1:00:04,000\n\n\nSTYLE\n::cue"

def mixedDoc : Document :=
  { envelope := .vtt (ofString "WEBVTT - mixed\nKind: captions")
      [.cue 0 [], .raw [ofString "NOTE one", ofString "two"],
        .cue 1 [ofString "first", ofString "second --> third"],
        .raw [ofString "STYLE", ofString "::cue"]]
    cues := [⟨1, ofString "00:01.000", ofString "00:02.000", ofString " align:left",
        [ofString "Hello", ofString "00:03.000 --> 00:04.000"], .vtt⟩,
      ⟨2, ofString "1:00:03.000", ofString "1:00:04,000", [], [], .vtt⟩]
    newline := .crLf
    bom := true }

theorem parseVtt_normal_form_example :
    ∃ written, mixedDoc.render = .ok written ∧
      (Newline.crLf = .lf → parseVtt written .crLf true = .ok mixedDoc) ∧
        (0xd ∉ mixedText → parseVtt (normalizeNewlines written) .crLf true = .ok mixedDoc) := by
  have parsed : parseVtt mixedText .crLf true = .ok mixedDoc := by decide +kernel
  exact parseVtt_normal_form parsed

end SubtitleTranslator.Engine
