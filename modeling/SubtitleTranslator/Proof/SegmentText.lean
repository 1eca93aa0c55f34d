import SubtitleTranslator.Proof.MaskInverse
import SubtitleTranslator.Proof.Segments

namespace SubtitleTranslator.Engine
open Library Library.Text

/-- The masked text of a text. -/
def maskedText (s : Str) (ass : Bool) : Str := (assemble 0 (maskPieces s ass)).1

/-- The tags of a text. -/
def lineTags (s : Str) (ass : Bool) : List Str := (assemble 0 (maskPieces s ass)).2

/-- The step of `_split_dash` without the refusals of `int`. -/
def splitLine (line : Str) (ass : Bool) : SplitLine :=
  match dashRe.match? (maskedText line ass) with
  | none => ⟨false, false, line⟩
  | some (lead, rest) =>
      ⟨true, strip lead ≠ [],
        (sentinelRe.scan (strip lead ++ rest)).flatMap (unmaskText (lineTags line ass))⟩

/-- `int` converts the numbers that `_split_dash` meets in a line. -/
def SplitReadable (line : Str) (ass : Bool) : Prop :=
  ReadableTags line ass ∧ ((splitLine line ass).dashed = true → FewTags line ass)

/-- No digit starts a tag piece. -/
def OpensPlainly (piece : MaskPiece) : Prop :=
  piece.isTag = true → ∃ c ∈ piece.text.head?, isDecimal c = false

theorem isDecimal_of_isReserved {c : CodePoint} (reserved : isReserved c = true) :
    isDecimal c = false := by
  by_contra digit
  have small := val_lt_of_isDecimal (by simpa using digit : isDecimal c = true)
  have closing := isClosing_of_isDecimal (by simpa using digit : isDecimal c = true)
  simp only [isReserved, isPlaceholder, closing, Bool.or_eq_true, Bool.and_eq_true,
    decide_eq_true_eq, Bool.false_eq_true, or_false] at reserved
  rcases reserved with opening | range
  · rw [isOpening, beq_iff_eq] at opening
    rw [opening] at digit
    exact digit (by decide)
  · omega

/-- No digit starts a tag. -/
theorem tag_head {s : Str} {ass : Bool} {tag : Str} (member : tag ∈ lineTags s ass) :
    ∃ c ∈ tag.head?, isDecimal c = false := by
  rw [lineTags, assemble_tags] at member
  obtain ⟨piece, inPieces, rfl⟩ := List.mem_map.mp member
  obtain ⟨inState, tagged⟩ := List.mem_filter.mp inPieces
  have starts : (maskRe ass).Starts fun c => isDecimal c = false :=
    maskRe_starts (by decide) (by decide) (by decide) (fun c => isDecimal_of_isReserved) ass
  have grows (last : MaskPiece) (text : Str) (tagged : last.isTag = true)
      (opens : OpensPlainly last) : OpensPlainly { last with text := last.text ++ text } := by
    intro _
    obtain ⟨c, front, plain⟩ := opens tagged
    refine ⟨c, ?_, plain⟩
    rw [List.head?_append, front]
    rfl
  have fresh (part : Str ⊕ Str) (inParts : part ∈ maskParts s ass) :
      OpensPlainly ⟨part.isRight, Pattern.readText part⟩ := by
    intro right
    cases part with
    | inl text => cases right
    | inr tag =>
        obtain ⟨text, left, matched⟩ :=
          Pattern.of_inr_mem_scan starts.captured.consumes (Pattern.of_inr_mem_parts inParts)
        exact Pattern.captured_starts starts matched
  exact foldl_advance_pieces grows opened_start (List.forall_mem_nil _) fresh piece
    (List.mem_reverse.mp inState) tagged

theorem lineTags_length (s : Str) (ass : Bool) :
    (lineTags s ass).length = tagCount false (maskParts s ass) := by
  rw [lineTags, assemble_tags, List.length_map, ← maskPieces_count, List.countP_eq_length_filter]

theorem findall_maskedText (s : Str) (ass : Bool) :
    sentinelRe.findall (maskedText s ass) = (List.range (lineTags s ass).length).map decimal := by
  rw [maskedText, findall_assemble, lineTags_length]

theorem unmask_maskedText (s : Str) (ass : Bool) :
    (sentinelRe.scan (maskedText s ass)).flatMap (unmaskText (lineTags s ass)) = s :=
  unmask_assemble s ass

/-- The parts of a masked line around its dash. -/
structure DashParts (line : Str) (ass : Bool) (lead rest : Str) (tokens kept : List Token)
    (dash : CodePoint) (spaces : Str) : Prop where
  leading : ∀ token ∈ tokens, token.isLeading
  scan : sentinelRe.scan (maskedText line ass) =
    tokens.map Token.read ++ (.inl dash :: (spaces.map .inl ++ sentinelRe.scan rest))
  body : sentinelRe.scan (strip lead ++ rest) = kept.map Token.read ++ sentinelRe.scan rest
  kept : ∀ (γ : Type) (f : Token → List γ), (∀ c, isSpace c = true → f (.char c) = []) →
    kept.flatMap f = tokens.flatMap f
  blank : ∀ c ∈ spaces, isSpace c = true
  kind : isDash dash = true
  minus : dash = 0x2d → ∀ c ∈ (spaces ++ rest).head?, isDecimal c = false

theorem exists_dashParts {line lead rest : Str} {ass : Bool}
    (matched : dashRe.match? (maskedText line ass) = some (lead, rest)) :
    ∃ tokens kept dash spaces, DashParts line ass lead rest tokens kept dash spaces := by
  obtain ⟨tokens, dash, spaces, leading, rfl, split, clean, blank, _, kind, minus⟩ :=
    of_match_dashRe matched
  obtain ⟨kept, keptLeading, strips, same⟩ := strip_leading leading
  have chars : ∀ token ∈ spaces.map Token.char, token.Clean := by
    intro token member
    obtain ⟨space, inside, rfl⟩ := List.mem_map.mp member
    exact (show (Token.char space).isLeading from blank space inside).clean
  refine ⟨tokens, kept, dash, spaces, leading, ?_, ?_, same, blank, kind, minus⟩
  · have read := scan_tokens (List.forall_mem_append.mpr
      ⟨fun token member => (leading token member).clean, List.forall_mem_cons.mpr ⟨clean, chars⟩⟩) rest
    rw [List.flatMap_append, List.flatMap_cons, flatMap_char, List.map_append, List.map_cons,
      List.map_map] at read
    rw [split]
    simpa [Token.text, Token.read, Function.comp_def] using read
  · rw [strips, scan_tokens fun token member => (keptLeading token member).clean]

/-- The sentinels of a masked line are around its dash. -/
theorem DashParts.findall {line lead rest : Str} {ass : Bool} {tokens kept : List Token}
    {dash : CodePoint} {spaces : Str} (parts : DashParts line ass lead rest tokens kept dash spaces) :
    sentinelRe.findall (strip lead ++ rest) = sentinelRe.findall (maskedText line ass) := by
  have numbers (xs : List Token) : (xs.map Token.read).filterMap Sum.getRight? =
      xs.flatMap fun token => (Token.read token).getRight?.toList := by
    rw [List.filterMap_map, List.filterMap_eq_flatMap_toList]
    rfl
  have spaces_ : (spaces.map Sum.inl).filterMap (Sum.getRight? (α := CodePoint) (β := Str)) = [] := by
    rw [List.filterMap_map]
    exact List.filterMap_eq_nil_iff.mpr fun c _ => rfl
  rw [Pattern.findall, Pattern.findall, parts.scan, parts.body, List.filterMap_append,
    List.filterMap_append, List.filterMap_cons_none rfl, List.filterMap_append, spaces_,
    List.nil_append, numbers, numbers, parts.kept Str _ fun c _ => rfl]

/-- A line is split exactly when the numbers that it meets are readable. -/
theorem splitDash_eq {line : Str} {ass : Bool} {split : SplitLine} :
    splitDash line ass = .ok split ↔ SplitReadable line ass ∧ split = splitLine line ass := by
  have restored {lead rest body : Str}
      (matched : dashRe.match? (maskedText line ass) = some (lead, rest)) :
      unmaskTags (strip lead ++ rest) (lineTags line ass) = .ok body ↔ FewTags line ass ∧
        body = (sentinelRe.scan (strip lead ++ rest)).flatMap (unmaskText (lineTags line ass)) := by
    obtain ⟨_, _, _, _, parts⟩ := exists_dashParts matched
    rw [unmaskTags_eq, ← readable_assemble, ReadableSentinels, parts.findall]
    rfl
  rw [splitDash, Fallible.bind_ok, SplitReadable, splitLine]
  cases matched : dashRe.match? (maskedText line ass) with
  | none =>
      constructor
      · rintro ⟨⟨masked, tags⟩, masks, continued⟩
        obtain ⟨readable, same⟩ := maskTags_eq.mp masks
        obtain ⟨rfl, rfl⟩ := Prod.ext_iff.mp same
        rw [maskedText] at matched
        simp only [matched] at continued
        cases continued
        exact ⟨⟨readable, fun dashed => by cases dashed⟩, rfl⟩
      · rintro ⟨⟨readable, _⟩, rfl⟩
        rw [maskedText] at matched
        refine ⟨_, maskTags_eq.mpr ⟨readable, rfl⟩, ?_⟩
        simp only [matched]
        rfl
  | some found =>
      obtain ⟨lead, rest⟩ := found
      have unmasks := @restored lead rest
      rw [maskedText] at matched
      constructor
      · rintro ⟨⟨masked, tags⟩, masks, continued⟩
        obtain ⟨readable, same⟩ := maskTags_eq.mp masks
        obtain ⟨rfl, rfl⟩ := Prod.ext_iff.mp same
        simp only [matched] at continued
        obtain ⟨body, unmasked, same⟩ := Fallible.bind_ok.mp continued
        cases same
        obtain ⟨few, rfl⟩ := (unmasks matched).mp unmasked
        exact ⟨⟨readable, fun _ => few⟩, rfl⟩
      · rintro ⟨⟨readable, few⟩, rfl⟩
        refine ⟨_, maskTags_eq.mpr ⟨readable, rfl⟩, ?_⟩
        simp only [matched]
        exact Fallible.bind_ok.mpr ⟨_, (unmasks matched).mpr ⟨few rfl, rfl⟩, rfl⟩

/-- A dash splits a line after whitespace and tags only, and a hyphen before a digit is no dash. -/
structure DashAt (line : Str) (ass : Bool) (before : Str) (dash : CodePoint) (after : Str) : Prop where
  split : line = before ++ dash :: after
  lead : ∃ chunks : List Str, before = chunks.flatten ∧
    ∀ chunk ∈ chunks, (∀ c ∈ chunk, isSpace c = true) ∨ chunk ∈ lineTags line ass
  kind : isDash dash = true
  minus : dash = 0x2d → ∀ c ∈ after.head?, isDecimal c = false

/-- The first restored character after a masked text is no digit unless the text starts with it. -/
theorem head_unmask {line rest : Str} {ass : Bool} {before : List (CodePoint ⊕ Str)}
    (read : sentinelRe.scan (maskedText line ass) = before ++ sentinelRe.scan rest)
    (plain : ∀ c ∈ rest.head?, isDecimal c = false) :
    ∀ c ∈ ((sentinelRe.scan rest).flatMap (unmaskText (lineTags line ass))).head?,
      isDecimal c = false := by
  cases rest with
  | nil =>
      intro c front
      cases front
  | cons first others =>
      cases hit : sentinelRe.match? (first :: others) with
      | none =>
          rw [Pattern.scan_cons_of_none hit, List.flatMap_cons]
          intro c front
          cases front
          exact plain first rfl
      | some result =>
          obtain ⟨digits, left⟩ := result
          obtain ⟨head, taken, taking⟩ := sentinelRe_consumes _ _ (Pattern.match?_mem hit)
          dsimp only at taking
          obtain ⟨rfl, rfl⟩ := List.cons.inj taking
          rw [Pattern.scan_cons_of_some hit] at read ⊢
          have numbered : digits ∈ sentinelRe.findall (maskedText line ass) := by
            rw [Pattern.findall, read, List.mem_filterMap]
            exact ⟨.inr digits, List.mem_append_right _ List.mem_cons_self, rfl⟩
          rw [findall_maskedText] at numbered
          obtain ⟨k, inRange, rfl⟩ := List.mem_map.mp numbered
          rw [List.mem_range] at inRange
          have inTags : (lineTags line ass)[k] ∈ lineTags line ass := List.getElem_mem inRange
          obtain ⟨c, isFirst, undecimal⟩ := tag_head inTags
          have text : unmaskText (lineTags line ass) (.inr (decimal k)) = (lineTags line ass)[k] := by
            rw [unmaskText, decimalValue_decimal, List.getElem?_eq_getElem inRange]
            rfl
          rw [List.flatMap_cons, text, List.head?_append, isFirst]
          intro other front
          cases front
          exact undecimal

/-- A split line loses one dash and nothing else that can be seen. -/
theorem splitLine_dashed {line : Str} {ass : Bool} (dashed : (splitLine line ass).dashed = true) :
    ∃ before dash after, DashAt line ass before dash after ∧
      visible (splitLine line ass).body = visible before ++ visible after := by
  rw [splitLine] at dashed ⊢
  cases matched : dashRe.match? (maskedText line ass) with
  | none =>
      rw [matched] at dashed
      cases dashed
  | some found =>
      obtain ⟨lead, rest⟩ := found
      obtain ⟨tokens, kept, dash, spaces, parts⟩ := exists_dashParts matched
      let restore : Token → Str := fun token => unmaskText (lineTags line ass) token.read
      let after := (sentinelRe.scan rest).flatMap (unmaskText (lineTags line ass))
      have texts (xs : List Token) :
          (xs.map Token.read).flatMap (unmaskText (lineTags line ass)) = xs.flatMap restore :=
        List.flatMap_map ..
      refine ⟨tokens.flatMap restore, dash, spaces ++ after, ⟨?_, ?_, parts.kind, ?_⟩, ?_⟩
      · have whole := unmask_maskedText line ass
        have restored : (spaces.map Sum.inl).flatMap (unmaskText (lineTags line ass)) = spaces := by
          rw [List.flatMap_map]
          exact List.flatMap_singleton' spaces
        rw [parts.scan, List.flatMap_append, texts, List.flatMap_cons, List.flatMap_append,
          restored] at whole
        exact whole.symm
      · refine ⟨tokens.map restore, List.flatMap_def, ?_⟩
        intro chunk member
        obtain ⟨token, inTokens, rfl⟩ := List.mem_map.mp member
        cases token with
        | char c =>
            have space : isSpace c = true := parts.leading _ inTokens
            exact .inl fun d inside => by rwa [List.mem_singleton.mp inside]
        | sentinel front digits back =>
            simp only [restore, Token.read, unmaskText]
            cases found : (lineTags line ass)[decimalValue digits]? with
            | none => exact .inl fun d inside => by cases inside
            | some tag => exact .inr (List.mem_of_getElem? found)
      · intro hyphen
        have plain := parts.minus hyphen
        cases spaces with
        | nil =>
            have read : sentinelRe.scan (maskedText line ass) =
                (tokens.map Token.read ++ [.inl dash]) ++ sentinelRe.scan rest := by
              rw [parts.scan]
              simp
            exact head_unmask read plain
        | cons space more =>
            intro c front
            cases front
            exact plain space rfl
      · change visible ((sentinelRe.scan (strip lead ++ rest)).flatMap _) = _
        have same := parts.kept CodePoint (fun token => visible (restore token)) fun c space =>
          visible_of_blank fun d inside => by rwa [List.mem_singleton.mp inside]
        rw [parts.body, List.flatMap_append, texts, visible_append, visible_append,
          visible_of_blank parts.blank, List.nil_append, visible_flatMap restore,
          visible_flatMap restore, same]

theorem splitLine_undashed {line : Str} {ass : Bool} (undashed : (splitLine line ass).dashed = false) :
    (splitLine line ass).body = line := by
  rw [splitLine] at undashed ⊢
  cases matched : dashRe.match? (maskedText line ass) with
  | none => rfl
  | some found =>
      rw [matched] at undashed
      cases undashed

/-- The lines of a cue that are not blank, without whitespace at their ends. -/
def strippedLines (cue : Cue) : List Str := (cue.lines.map strip).filter (· ≠ [])

/-- A dialect other than WebVTT has the ASS escapes or none. -/
def Cue.ass (cue : Cue) : Bool := cue.dialect = .ass

/-- The split lines of a cue. -/
def splitLines (cue : Cue) : List SplitLine := (strippedLines cue).map (splitLine · cue.ass)

/-- The whole text of a cue in one line. -/
def joinedLine (cue : Cue) : Str := join [0x20] (strippedLines cue)

/-- The speakers of a cue in order. -/
def speakersOf (cue : Cue) : List Speaker := ((splitLines cue).foldl addSpeaker []).reverse

/-- The texts that the segments of a cue mask. -/
def segmentTexts (cue : Cue) : List Str :=
  if isPair (splitLines cue) then (speakersOf cue).map fun speaker => join [0x20] speaker.bodies
  else [strip (splitLine (joinedLine cue) cue.ass).body]

/-- The segment of a text. -/
def segmentOf (ass : Bool) (cueIndex : Nat) (dashed inside : Bool) (text : Str) : Segment :=
  ⟨cueIndex, maskedText text ass, lineTags text ass, dashed, inside⟩

theorem segmentOf_text (ass : Bool) (cueIndex : Nat) (dashed inside : Bool) (text : Str) :
    (segmentOf ass cueIndex dashed inside text).text = maskedText text ass := rfl

/-- The segments of a cue. -/
def cueSegments (cue : Cue) (cueIndex : Nat) : List Segment :=
  if isPair (splitLines cue) then
    (speakersOf cue).map fun speaker =>
      segmentOf cue.ass cueIndex speaker.dashed speaker.inside (join [0x20] speaker.bodies)
  else
    let line := splitLine (joinedLine cue) cue.ass
    [segmentOf cue.ass cueIndex line.dashed line.inside (strip line.body)]

/-- `int` converts the numbers that `segment_cue` meets. -/
structure CueReadable (cue : Cue) : Prop where
  lines : ∀ line ∈ strippedLines cue, SplitReadable line cue.ass
  joined : isPair (splitLines cue) = false → SplitReadable (joinedLine cue) cue.ass
  texts : ∀ text ∈ segmentTexts cue, ReadableTags text cue.ass

section Segmentation
variable {unescape : Str → Str} {cue : Cue} {cueIndex : Nat}

theorem maskSegment_eq (plain : cue.dialect ≠ .vtt) {dashed inside : Bool} {text : Str}
    {seg : Segment} : maskSegment unescape cue cueIndex dashed inside text = .ok seg ↔
      ReadableTags text cue.ass ∧ seg = segmentOf cue.ass cueIndex dashed inside text := by
  rw [maskSegment, Fallible.bind_ok, entitiesOf, if_neg plain]
  constructor
  · rintro ⟨result, masks, same⟩
    obtain ⟨readable, rfl⟩ := maskTags_eq.mp masks
    cases same
    exact ⟨readable, rfl⟩
  · rintro ⟨readable, rfl⟩
    exact ⟨_, maskTags_eq.mpr ⟨readable, rfl⟩, rfl⟩

/-- A cue is segmented exactly when the numbers that it meets are readable. -/
theorem segmentCue_eq (plain : cue.dialect ≠ .vtt) {segs : List Segment} :
    segmentCue unescape cue cueIndex = .ok segs ↔
      CueReadable cue ∧ segs = cueSegments cue cueIndex := by
  have split {parsed : List SplitLine} :
      ((strippedLines cue).mapM fun line => splitDash line cue.ass) = .ok parsed ↔
        (∀ line ∈ strippedLines cue, SplitReadable line cue.ass) ∧ parsed = splitLines cue :=
    Fallible.mapM_eq_map fun line _ => splitDash_eq
  have masked {segs : List Segment} : ((speakersOf cue).mapM fun speaker =>
      maskSegment unescape cue cueIndex speaker.dashed speaker.inside
        (join [0x20] speaker.bodies)) = .ok segs ↔
        (∀ speaker ∈ speakersOf cue, ReadableTags (join [0x20] speaker.bodies) cue.ass) ∧
          segs = (speakersOf cue).map fun speaker =>
            segmentOf cue.ass cueIndex speaker.dashed speaker.inside (join [0x20] speaker.bodies) :=
    Fallible.mapM_eq_map fun speaker _ => maskSegment_eq plain
  rw [segmentCue, Fallible.bind_ok]
  change (∃ parsed, ((strippedLines cue).mapM fun line => splitDash line cue.ass) = .ok parsed ∧ _) ↔ _
  cases pair : isPair (splitLines cue) with
  | true =>
      constructor
      · rintro ⟨parsed, parses, continued⟩
        obtain ⟨lines, rfl⟩ := split.mp parses
        rw [if_pos pair] at continued
        obtain ⟨texts, rfl⟩ := masked.mp continued
        refine ⟨⟨lines, fun alone => ?_, ?_⟩, by rw [cueSegments, if_pos pair]⟩
        · rw [pair] at alone
          cases alone
        · rw [segmentTexts, if_pos pair]
          exact List.forall_mem_map.mpr texts
      · rintro ⟨readable, rfl⟩
        refine ⟨_, split.mpr ⟨readable.lines, rfl⟩, ?_⟩
        have texts := readable.texts
        rw [segmentTexts, if_pos pair] at texts
        rw [if_pos pair, cueSegments, if_pos pair]
        exact masked.mpr ⟨List.forall_mem_map.mp texts, rfl⟩
  | false =>
      have single : ¬isPair (splitLines cue) = true := by simp [pair]
      constructor
      · rintro ⟨parsed, parses, continued⟩
        obtain ⟨lines, rfl⟩ := split.mp parses
        rw [if_neg single] at continued
        obtain ⟨line, splits, continued⟩ := Fallible.bind_ok.mp continued
        obtain ⟨joined, rfl⟩ := splitDash_eq.mp splits
        obtain ⟨seg, masks, same⟩ := Fallible.bind_ok.mp continued
        cases same
        obtain ⟨readable, rfl⟩ := (maskSegment_eq plain).mp masks
        refine ⟨⟨lines, fun _ => joined, ?_⟩, ?_⟩
        · rw [segmentTexts, if_neg single, List.forall_mem_singleton]
          exact readable
        · rw [cueSegments, if_neg single]
          rfl
      · rintro ⟨readable, rfl⟩
        refine ⟨_, split.mpr ⟨readable.lines, rfl⟩, ?_⟩
        have texts := readable.texts
        rw [segmentTexts, if_neg single, List.forall_mem_singleton] at texts
        rw [if_neg single, cueSegments, if_neg single]
        exact Fallible.bind_ok.mpr ⟨_, splitDash_eq.mpr ⟨readable.joined pair, rfl⟩,
          Fallible.bind_ok.mpr ⟨_, (maskSegment_eq plain).mpr ⟨texts, rfl⟩, rfl⟩⟩

end Segmentation

/-- A joined text starts with its first line. -/
theorem join_front (first : Str) (more : List Str) :
    ∃ tail, join [0x20] (first :: more) = first ++ tail ∧ visible tail = more.flatMap visible := by
  cases more with
  | nil => exact ⟨[], by rw [join_singleton, List.append_nil], rfl⟩
  | cons next more =>
      refine ⟨[0x20] ++ join [0x20] (next :: more), ?_, ?_⟩
      · rw [join_cons_cons, List.append_assoc]
      · rw [visible_append, visible_space, visible_join, visible_flatten, ← List.flatMap_def]
        rfl

theorem strippedLines_visible (cue : Cue) :
    (strippedLines cue).flatMap visible = cue.lines.flatMap visible := by
  rw [strippedLines]
  induction cue.lines with
  | nil => rfl
  | cons line lines ih =>
      rw [List.map_cons, List.flatMap_cons, ← ih, ← visible_strip line]
      by_cases empty : strip line = []
      · rw [List.filter_cons_of_neg (by simp [empty]), empty]
        rfl
      · rw [List.filter_cons_of_pos (by simp [empty]), List.flatMap_cons]

/-- A speaker has the lines of a group: the first one without its dash, if it has one. -/
def SpeakerOf (ass : Bool) (group : List Str) (speaker : Speaker) : Prop :=
  ∃ first more, group = first :: more ∧ speaker.dashed = (splitLine first ass).dashed ∧
    speaker.bodies.flatMap visible = visible (splitLine first ass).body ++ more.flatMap visible

/-- A line starts a speaker or goes on with the latest one; every speaker but the first is dashed. -/
theorem foldl_addSpeaker_groups (ass : Bool) (lines : List Str) {groups : List (List Str)}
    {speakers : List Speaker} (made : List.Forall₂ (SpeakerOf ass) groups speakers)
    (dashed : ∀ speaker ∈ speakers.dropLast, speaker.dashed = true) :
    ∃ all, List.Forall₂ (SpeakerOf ass) all
        ((lines.map (splitLine · ass)).foldl addSpeaker speakers) ∧
      all.reverse.flatten = groups.reverse.flatten ++ lines ∧
      ∀ speaker ∈ ((lines.map (splitLine · ass)).foldl addSpeaker speakers).dropLast,
        speaker.dashed = true := by
  induction lines generalizing groups speakers with
  | nil => exact ⟨groups, made, (List.append_nil _).symm, dashed⟩
  | cons line lines ih =>
      rw [List.map_cons, List.foldl_cons]
      have fresh : SpeakerOf ass [line] ⟨(splitLine line ass).dashed, (splitLine line ass).inside,
          [strip (splitLine line ass).body]⟩ :=
        ⟨line, [], rfl, rfl, by simp [visible_strip]⟩
      cases made with
      | nil =>
          obtain ⟨all, others, flat, opened⟩ := @ih [[line]] _ (.cons fresh .nil) (by simp)
          exact ⟨all, others, by rw [flat]; rfl, opened⟩
      | @cons group last groups others first rest =>
          rw [addSpeaker]
          by_cases starts : (splitLine line ass).dashed = true
          · rw [if_pos starts]
            obtain ⟨all, made, flat, opened⟩ := @ih ([line] :: group :: groups) _
              (.cons fresh (.cons first rest)) (List.forall_mem_cons.mpr ⟨starts, dashed⟩)
            refine ⟨all, made, ?_, opened⟩
            rw [flat]
            simp
          · rw [if_neg starts]
            have whole := splitLine_undashed (Bool.not_eq_true _ ▸ starts)
            obtain ⟨opening, more, rfl, same, bodies⟩ := first
            have grown : SpeakerOf ass ((opening :: more) ++ [line])
                { last with bodies := last.bodies ++ [strip (splitLine line ass).body] } := by
              refine ⟨opening, more ++ [line], rfl, same, ?_⟩
              rw [List.flatMap_append, bodies, List.flatMap_append, List.flatMap_singleton,
                List.flatMap_singleton, visible_strip, whole, List.append_assoc]
            have kept : ∀ speaker ∈ ({ last with
                bodies := last.bodies ++ [strip (splitLine line ass).body] } :: others).dropLast,
                speaker.dashed = true := by
              cases others with
              | nil => simp
              | cons next others =>
                  rw [List.dropLast_cons_cons] at dashed ⊢
                  exact List.forall_mem_cons.mpr (List.forall_mem_cons.mp dashed)
            obtain ⟨all, made, flat, opened⟩ := @ih (((opening :: more) ++ [line]) :: groups) _
              (.cons grown rest) kept
            refine ⟨all, made, ?_, opened⟩
            rw [flat]
            simp

/-- A restored text has the lines of its group: an undashed one all that can be seen, a dashed one
all but the dash that follows only whitespace and tags. -/
def TextFits (ass : Bool) (group : List Str) (dashed : Bool) (text : Str) : Prop :=
  if dashed then
    ∃ line more before dash after, join [0x20] group = line ++ more ∧
      DashAt line ass before dash after ∧ visible text = visible before ++ visible (after ++ more)
  else visible text = group.flatMap visible

/-- A segment restores the lines of its group. -/
def SegmentFits (ass : Bool) (group : List Str) (seg : Segment) : Prop :=
  ∃ restored, unmaskTags seg.text seg.tags = .ok restored ∧ TextFits ass group seg.dashed restored

/-- The segments of a cue are its lines in order; only the first of several may have no dash. -/
structure SegmentsFit (cue : Cue) (cueIndex : Nat) (segs : List Segment) : Prop where
  index : ∀ seg ∈ segs, seg.cueIndex = cueIndex
  lines : ∃ groups, groups.flatten = strippedLines cue ∧
    groups.flatten.flatMap visible = cue.lines.flatMap visible ∧
    List.Forall₂ (SegmentFits cue.ass) groups segs
  dashed : ∀ seg ∈ segs.tail, seg.dashed = true

theorem segmentFits_of_text {ass : Bool} {group : List Str} {cueIndex : Nat} {dashed inside : Bool}
    {text : Str} (few : FewTags text ass) (fits : TextFits ass group dashed text) :
    SegmentFits ass group (segmentOf ass cueIndex dashed inside text) :=
  ⟨text, unmaskTags_eq.mpr ⟨(readable_assemble text ass).mpr few, (unmask_maskedText text ass).symm⟩,
    fits⟩

/-- The joined bodies of a speaker have the lines of the speaker. -/
theorem SpeakerOf.fits {ass : Bool} {group : List Str} {speaker : Speaker}
    (made : SpeakerOf ass group speaker) :
    TextFits ass group speaker.dashed (join [0x20] speaker.bodies) := by
  obtain ⟨first, more, rfl, same, bodies⟩ := made
  rw [TextFits, visible_join, visible_flatten, ← List.flatMap_def, bodies, same]
  cases starts : (splitLine first ass).dashed with
  | true =>
      rw [if_pos rfl]
      obtain ⟨before, dash, after, position, seen⟩ := splitLine_dashed starts
      obtain ⟨tail, joined, tailSeen⟩ := join_front first more
      refine ⟨first, tail, before, dash, after, joined, position, ?_⟩
      rw [seen, visible_append, tailSeen, List.append_assoc]
  | false =>
      rw [if_neg Bool.false_ne_true, splitLine_undashed starts]
      rfl

/-- The split joined line of a cue has the lines of the cue. -/
theorem joined_fits (cue : Cue) :
    TextFits cue.ass (strippedLines cue) (splitLine (joinedLine cue) cue.ass).dashed
      (strip (splitLine (joinedLine cue) cue.ass).body) := by
  rw [TextFits, visible_strip]
  cases starts : (splitLine (joinedLine cue) cue.ass).dashed with
  | true =>
      rw [if_pos rfl]
      obtain ⟨before, dash, after, position, seen⟩ := splitLine_dashed starts
      refine ⟨joinedLine cue, [], before, dash, after, (List.append_nil _).symm, position, ?_⟩
      rw [seen, List.append_nil]
  | false =>
      rw [if_neg Bool.false_ne_true, splitLine_undashed starts]
      rw [joinedLine, visible_join, visible_flatten, List.flatMap_def]

theorem cueSegments_fit {cue : Cue} {cueIndex : Nat}
    (few : ∀ text ∈ segmentTexts cue, FewTags text cue.ass) :
    SegmentsFit cue cueIndex (cueSegments cue cueIndex) := by
  rw [cueSegments]
  by_cases pair : isPair (splitLines cue) = true
  · rw [if_pos pair]
    rw [segmentTexts, if_pos pair, List.forall_mem_map] at few
    obtain ⟨all, made, flat, opened⟩ := foldl_addSpeaker_groups cue.ass (strippedLines cue)
      List.Forall₂.nil (List.forall_mem_nil _)
    have lines : all.reverse.flatten = strippedLines cue := flat
    have speakers : List.Forall₂ (SpeakerOf cue.ass) all.reverse (speakersOf cue) :=
      List.rel_reverse made
    refine ⟨List.forall_mem_map.mpr fun _ _ => rfl, ⟨all.reverse, lines, ?_, ?_⟩, ?_⟩
    · rw [lines, strippedLines_visible]
    · rw [List.forall₂_map_right_iff]
      have each := List.forall₂_and_left _ _ |>.mpr ⟨few, speakers.flip⟩
      exact List.Forall₂.flip (each.imp fun speaker group ⟨fewer, made⟩ =>
        segmentFits_of_text fewer (SpeakerOf.fits made))
    · rw [speakersOf, ← List.map_tail, List.tail_reverse, List.forall_mem_map]
      exact fun speaker member => opened speaker (List.mem_reverse.mp member)
  · rw [if_neg pair]
    rw [segmentTexts, if_neg pair, List.forall_mem_singleton] at few
    refine ⟨List.forall_mem_singleton.mpr rfl, ⟨[strippedLines cue], ?_, ?_, ?_⟩, by simp⟩
    · exact List.flatten_singleton
    · rw [List.flatten_singleton, strippedLines_visible]
    · exact .cons (segmentFits_of_text few (joined_fits cue)) .nil

/-- The segments of a cue mask its texts. -/
theorem cueSegments_text (cue : Cue) (cueIndex : Nat) :
    (cueSegments cue cueIndex).map Segment.text =
      (segmentTexts cue).map (maskedText · cue.ass) := by
  rw [cueSegments, segmentTexts]
  by_cases pair : isPair (splitLines cue) = true
  · rw [if_pos pair, if_pos pair, List.map_map, List.map_map]
    exact List.map_congr_left fun speaker _ => segmentOf_text ..
  · rw [if_neg pair, if_neg pair, List.map_singleton, List.map_singleton, segmentOf_text]

/-- An SRT cue with one line. -/
def oneLine (line : Str) : Cue :=
  ⟨1, ofString "00:00:01,000", ofString "00:00:02,000", [], [line], .plain⟩

theorem strip_drawingBlock (digits : Str) : strip (drawingBlock digits) = drawingBlock digits := by
  refine strip_eq_self ?_ ?_
  · intro c front
    cases front
    decide
  · intro c back
    rw [drawingBlock, ← List.cons_append, List.getLast?_concat] at back
    cases back
    decide

end SubtitleTranslator.Engine
