import SubtitleTranslator.Construction.Sentinel

namespace SubtitleTranslator.Engine
open Library Library.Text

/-- The internal placeholders are `[\U000f0000-\U000ffffd]`. -/
def isPlaceholder (c : CodePoint) : Bool := 0xf0000 ≤ c.val && c.val ≤ 0xffffd

/-- This class is `_RESERVED`: the sentinel brackets and the internal placeholders. -/
def isReserved (c : CodePoint) : Bool := isOpening c || isClosing c || isPlaceholder c

/-- This pattern is `</?[a-zA-Z][^>]*>`. -/
def elementRe : Pattern CodePoint Unit := do
  let _ ← .one (· == 0x3c)
  let _ ← .optional (.one (· == 0x2f))
  let _ ← .one isAsciiLetter
  let _ ← .many (· != 0x3e)
  let _ ← .one (· == 0x3e)
  pure ()

/-- This pattern is the karaoke timestamp `<(?:\d+:)?\d{1,2}:\d{2}[.,]\d{1,3}>`. -/
def karaokeRe : Pattern CodePoint Unit := do
  let _ ← .one (· == 0x3c)
  let _ ← .optional (do
    let _ ← .many1 isDecimal
    .one (· == 0x3a))
  let _ ← .between isDecimal 1 2
  let _ ← .one (· == 0x3a)
  let _ ← .exactly isDecimal 2
  let _ ← .one (fun c => c == 0x2e || c == 0x2c)
  let _ ← .between isDecimal 1 3
  let _ ← .one (· == 0x3e)
  pure ()

/-- This pattern is the override block `\{[^}]*\}`. -/
def overrideRe : Pattern CodePoint Unit := do
  let _ ← .one (· == 0x7b)
  let _ ← .many (· != 0x7d)
  let _ ← .one (· == 0x7d)
  pure ()

/-- This pattern is `_TAG_ALT`. -/
def tagAlt : Pattern CodePoint Unit := .either elementRe (.either karaokeRe overrideRe)

/-- This pattern is `\\[hn]`, the hard space and the soft line break of ASS. -/
def escapeRe : Pattern CodePoint Unit := do
  let _ ← .one (· == 0x5c)
  let _ ← .one (fun c => c == 0x68 || c == 0x6e)
  pure ()

/-- This pattern is `_RESERVED_RE`. -/
def reservedRe : Pattern CodePoint Unit := do
  let _ ← .one isReserved
  pure ()

/-- This pattern is `_MASK_ASS_RE` or `_MASK_RE`. -/
def maskRe (ass : Bool) : Pattern CodePoint Unit :=
  .either tagAlt (if ass then .either escapeRe reservedRe else reservedRe)

/-- This pattern is `_DRAWING_RE`; it captures the digits. -/
def drawingRe : Pattern CodePoint Str := do
  let _ ← .one (· == 0x5c)
  let _ ← .one (· == 0x70)
  .many1 isDecimal

/-- An entry of `pieces` in `mask_tags`. -/
structure MaskPiece where
  isTag : Bool
  text : Str
  deriving DecidableEq

/-- The loop of `mask_tags` keeps its pieces, the latest first, and whether it is in a drawing. -/
structure MaskState where
  pieces : List MaskPiece
  drawing : Bool

/-- A drawing folds the text into the latest piece. -/
def MaskState.add (state : MaskState) (isTag : Bool) (text : Str) : List MaskPiece :=
  if state.drawing then
    match state.pieces with
    | [] => []
    | last :: others => { last with text := last.text ++ text } :: others
  else ⟨isTag, text⟩ :: state.pieces

/-- The mode of the last `\p` in an override block tells whether a drawing follows. -/
def drawingAfter (drawing : Bool) (tag : Str) : Except Failure Bool :=
  if tag.head? = some 0x7b then
    match (drawingRe.findall tag).getLast? with
    | none => pure drawing
    | some digits => do
        let mode ← int digits
        pure (0 < mode)
  else pure drawing

/-- The loop body of `mask_tags` for a text between matches or a match. -/
def MaskState.step (state : MaskState) : Str ⊕ Str → Except Failure MaskState
  | .inl text => pure { state with pieces := state.add false text }
  | .inr tag => do
      let drawing ← drawingAfter state.drawing tag
      pure ⟨state.add true tag, drawing⟩

/-- A decoded text is split at its reserved characters, which are masked like tags. -/
def decodePiece (unescape : Str → Str) (piece : MaskPiece) : List MaskPiece :=
  if piece.isTag then [piece]
  else
    (Pattern.parts (Pattern.captured reservedRe |>.scan (unescape piece.text))).map
      (Sum.elim (⟨false, ·⟩) (⟨true, ·⟩))

/-- The sentinel of a tag number. -/
def sentinel (k : Nat) : Str := [0x27e6] ++ decimal k ++ [0x27e7]

/-- The tags are replaced by sentinels that are numbered from `k` on. -/
def assemble : Nat → List MaskPiece → Str × List Str
  | _, [] => ([], [])
  | k, piece :: rest =>
      if piece.isTag then
        let (text, tags) := assemble (k + 1) rest
        (sentinel k ++ text, piece.text :: tags)
      else
        let (text, tags) := assemble k rest
        (piece.text ++ text, tags)

/-- This function is `mask_tags`; `entities` is the decoder of character references, if any. -/
def maskTags (s : Str) (ass : Bool) (entities : Option (Str → Str)) :
    Except Failure (Str × List Str) := do
  let state ← (Pattern.parts ((Pattern.captured (maskRe ass)).scan s)).foldlM
    MaskState.step ⟨[], false⟩
  let pieces := state.pieces.reverse
  pure (assemble 0 (match entities with
    | none => pieces
    | some unescape => pieces.flatMap (decodePiece unescape)))

/-- The replacement of a sentinel in `unmask_tags`. -/
def unmaskPart (tags : List Str) : CodePoint ⊕ Str → Except Failure Str
  | .inl c => pure [c]
  | .inr digits => do
      let k ← int digits
      pure (tags[k]?.getD [])

/-- This function is `unmask_tags`. -/
def unmaskTags (s : Str) (tags : List Str) : Except Failure Str := do
  let texts ← (sentinelRe.scan s).mapM (unmaskPart tags)
  pure texts.flatten

/-- This pattern is `\u27e6\d+\u27e7\s*`. -/
def leadSentinelRe : Pattern CodePoint Str := do
  let _ ← .one isOpening
  let _ ← .many1 isDecimal
  let _ ← .one isClosing
  .many isSpace

/-- This pattern is the group `lead` of `DASH_RE`. -/
def leadRe : Pattern CodePoint (List Str) := do
  let _ ← .many isSpace
  .star leadSentinelRe

/-- This pattern is `DASH_RE`; it captures the lead. -/
def dashRe : Pattern CodePoint Str := do
  let lead ← .captured leadRe
  let _ ← .either
    (do
      let _ ← .one (· == 0x2d)
      .notAhead isDecimal)
    (do
      let _ ← .one (fun c => c == 0x2013 || c == 0x2014)
      pure ())
  let _ ← .many isSpace
  .ahead (fun c => !isSpace c)
  pure lead

/-- The result of `_split_dash`: a dash, whether it follows leading tags, and the line without it. -/
structure SplitLine where
  dashed : Bool
  inside : Bool
  body : Str
  deriving DecidableEq

/-- This function is `_split_dash`. -/
def splitDash (line : Str) (ass : Bool) : Except Failure SplitLine := do
  let (masked, tags) ← maskTags line ass none
  match dashRe.match? masked with
  | none => pure ⟨false, false, line⟩
  | some (lead, rest) => do
      let lead := strip lead
      let body ← unmaskTags (lead ++ rest) tags
      pure ⟨true, lead ≠ [], body⟩

/-- The lines of one speaker. -/
structure Speaker where
  dashed : Bool
  inside : Bool
  bodies : List Str

/-- An undashed line continues the latest speaker. -/
def addSpeaker (groups : List Speaker) (line : SplitLine) : List Speaker :=
  match groups with
  | [] => [⟨line.dashed, line.inside, [strip line.body]⟩]
  | last :: others =>
      if line.dashed then ⟨line.dashed, line.inside, [strip line.body]⟩ :: last :: others
      else { last with bodies := last.bodies ++ [strip line.body] } :: others

/-- This test is `single_dash_pair`: a dashed line answers an undashed one. -/
def singleDashPair : List SplitLine → Bool
  | [first, second] => !first.dashed && second.dashed
  | _ => false

/-- A cue with a dialogue pair keeps its speakers apart. -/
def isPair (parsed : List SplitLine) : Bool :=
  singleDashPair parsed || 2 ≤ parsed.countP (·.dashed)

section Segmentation
variable (unescape : Str → Str)

/-- The decoder for the text of a dialect. -/
def entitiesOf (dialect : Dialect) : Option (Str → Str) :=
  if dialect = .vtt then some unescape else none

/-- A segment masks its text. -/
def maskSegment (cue : Cue) (cueIndex : Nat) (dashed inside : Bool) (text : Str) :
    Except Failure Segment := do
  let (masked, tags) ← maskTags text (cue.dialect = .ass) (entitiesOf unescape cue.dialect)
  pure ⟨cueIndex, masked, tags, dashed, inside⟩

/-- This function is `segment_cue`; `unescape` is `html.unescape`. -/
def segmentCue (cue : Cue) (cueIndex : Nat) : Except Failure (List Segment) := do
  let ass : Bool := cue.dialect = .ass
  let stripped := (cue.lines.map strip).filter (· ≠ [])
  let parsed ← stripped.mapM fun line => splitDash line ass
  if isPair parsed then
    (parsed.foldl addSpeaker []).reverse.mapM fun speaker =>
      maskSegment unescape cue cueIndex speaker.dashed speaker.inside (join [0x20] speaker.bodies)
  else do
    let line ← splitDash (join [0x20] stripped) ass
    let seg ← maskSegment unescape cue cueIndex line.dashed line.inside (strip line.body)
    pure [seg]

/-- A job segments all its cues. -/
def segmentCues (cues : List Cue) : Except Failure (List Segment) := do
  let segs ← cues.zipIdx.mapM fun (cue, cueIndex) => segmentCue unescape cue cueIndex
  pure segs.flatten

end Segmentation

end SubtitleTranslator.Engine
