import SubtitleTranslator.Construction.Srt

namespace SubtitleTranslator.Engine
open Library Library.Text

/-- These are the exceptions of the format adapters.
`format` is SubtitleFormatError, and `engine` is what the engine raises. -/
inductive FormatFailure where
  | format (message : Str)
  | engine (failure : Failure)
  deriving DecidableEq

/-- `str` raises ValueError on more digits than CPython converts. -/
def str (n : Nat) : Except Failure Str :=
  if (decimal n).length ≤ maxStrDigits then .ok (decimal n) else .error .value

/-- The line with the times of a cue. -/
def timingLine (cue : Cue) : Str := cue.start ++ ofString " --> " ++ cue.finish ++ cue.rest

/-- This function is `cue.lines or [""]`. -/
def linesOrEmpty (cue : Cue) : List Str := if cue.lines = [] then [[]] else cue.lines

/-- The lines that `_render_srt` writes for a cue. -/
def srtBlock (cue : Cue) : Except Failure (List Str) := do
  let index ← str cue.index
  pure ([index, timingLine cue] ++ linesOrEmpty cue ++ [[]])

/-- This function is `_render_srt`. -/
def renderSrt (newline : Newline) (cues : List Cue) : Except Failure Str := do
  let blocks ← cues.mapM srtBlock
  pure (join newline.text blocks.flatten)

/-- This pattern is the group `(?:\d+:)?\d{2}:\d{2}[.,]\d{3}` of `VTT_TIMING_RE`. -/
def vttTimeRe : Pattern CodePoint Str := do
  let hours ← .optional (do
    let digits ← .many1 isDecimal
    let colon ← .one (· == 0x3a)
    pure (digits ++ [colon]))
  let minutes ← .exactly isDecimal 2
  let colon ← .one (· == 0x3a)
  let seconds ← .exactly isDecimal 2
  let mark ← .one (fun c => c == 0x2e || c == 0x2c)
  let fraction ← .exactly isDecimal 3
  pure (hours.getD [] ++ minutes ++ colon :: seconds ++ mark :: fraction)

/-- This pattern is `VTT_TIMING_RE`. -/
def vttTimingRe : Pattern CodePoint Timing := do
  let start ← vttTimeRe
  let _ ← .many isSpace
  let _ ← .one (· == 0x2d)
  let _ ← .one (· == 0x2d)
  let _ ← .one (· == 0x3e)
  let _ ← .many isSpace
  let finish ← vttTimeRe
  let rest ← .many isNotNewline
  pure ⟨start, finish, rest⟩

/-- The groups of a line that `VTT_TIMING_RE` matches as a whole. -/
def vttTiming? (line : Str) : Option Timing := vttTimingRe.fullmatch? (strip line)

/-- A block of a WebVTT file is kept as it is, or carries a cue. -/
inductive VttBlock where
  | raw (lines : List Str)
  | cue (cue : Nat) (identifier : List Str)
  deriving DecidableEq

/-- This function is the part of `str.upper` that the word `WEBVTT` sees: the ASCII letters and
U+1E97, which becomes a T with a mark. -/
def upperPoint (c : CodePoint) : Str :=
  if lowercase : 0x61 ≤ c.val ∧ c.val ≤ 0x7a then [⟨c.val - 0x20, by omega⟩]
  else if c = 0x1e97 then [0x54, 0x308]
  else [c]

/-- The loop of `_parse_vtt` over the blocks; `count` counts the cues so far. -/
def readBlocks : Nat → List (List Str) → List Cue × List VttBlock
  | _, [] => ([], [])
  | count, block :: rest =>
      let identifier := block.takeWhile fun line => (vttTiming? line).isNone
      match block.drop identifier.length with
      | [] =>
          let (cues, blocks) := readBlocks count rest
          (cues, .raw block :: blocks)
      | line :: body =>
          match vttTiming? line with
          | none =>
              let (cues, blocks) := readBlocks count rest
              (cues, .raw block :: blocks)
          | some timing =>
              let (cues, blocks) := readBlocks (count + 1) rest
              (⟨count + 1, timing.start, timing.finish, timing.rest, body, .vtt⟩ :: cues,
                .cue count identifier :: blocks)

/-- A record remembers a Dialogue line: its number, its values, the place of the text among them,
and the prefix before them. -/
structure AssRecord where
  line : Nat
  values : List Str
  textIndex : Nat
  lead : Str
  deriving DecidableEq

/-- The header of a section is in brackets. -/
def isSection (stripped : Str) : Bool :=
  stripped.head? = some 0x5b && stripped.getLast? = some 0x5d

/-- This test is `stripped.lower().startswith(name)`. -/
def isNamed (name : String) (stripped : Str) : Bool := (ofString name).isPrefixOf (lower stripped)

/-- The text after the first colon of a line. -/
def afterColon (line : Str) : Str := (line.dropWhile (· ≠ 0x3a)).tail

/-- The names of a Format line. -/
def formatFields (line : Str) : List Str :=
  ((afterColon line).splitOn 0x2c).map fun part => lower (strip part)

/-- The value of a named field is empty without such a field. -/
def fieldValue (fields values : List Str) (name : String) : Str :=
  match fields.idxOf? (ofString name) with
  | some i => values[i]?.getD []
  | none => []

/-- The body of the loop of `_parse_ass` for a Dialogue line. -/
def readDialogue (fields : List Str) (number count : Nat) (line : Str) :
    Except FormatFailure (Cue × AssRecord) :=
  if fields = [] then
    .error (.format (ofString "ASS/SSA [Events] section has no Format line."))
  else
    let content := afterColon line
    let values := splitMax 0x2c (fields.length - 1) (lstrip content)
    match fields.idxOf? (ofString "text") with
    | some textIndex =>
        if values.length = fields.length then
          let lead := line.takeWhile (· ≠ 0x3a) ++ [0x3a] ++ content.takeWhile isSpace
          .ok (⟨count + 1, fieldValue fields values "start", fieldValue fields values "end", [],
            splitPair 0x5c 0x4e (values[textIndex]?.getD []), .ass⟩,
            ⟨number, values, textIndex, lead⟩)
        else .error (.format (ofString "Malformed ASS/SSA Dialogue line."))
    | none => .error (.format (ofString "Malformed ASS/SSA Dialogue line."))

/-- The loop of `_parse_ass` over the lines; `number` and `count` count the lines and the cues so
far. -/
def readEvents (inEvents : Bool) (fields : List Str) (number count : Nat) :
    List Str → Except FormatFailure (List (Cue × AssRecord))
  | [] => pure []
  | line :: rest =>
      let stripped := strip line
      if isSection stripped then
        readEvents (lower stripped = ofString "[events]") fields (number + 1) count rest
      else if !inEvents then readEvents inEvents fields (number + 1) count rest
      else if isNamed "format:" stripped then
        readEvents inEvents (formatFields line) (number + 1) count rest
      else if !isNamed "dialogue:" stripped then
        readEvents inEvents fields (number + 1) count rest
      else do
        let event ← readDialogue fields number count line
        let events ← readEvents inEvents fields (number + 1) (count + 1) rest
        pure (event :: events)

/-- The new text of a Dialogue line has `\N` for each line break. -/
def assText (cue : Cue) : Str := join (ofString "\\N") cue.lines

/-- The Dialogue line of a record with a new text. -/
def assLine (record : AssRecord) (text : Str) : Str :=
  record.lead ++ join [0x2c] (record.values.set record.textIndex text)

/-- The loop of `_render_ass` replaces the lines of the records. -/
def replaceLines (items : List (Cue × AssRecord)) (lines : List Str) : List Str :=
  items.foldl (fun lines item => lines.set item.2.line (assLine item.2 (assText item.1))) lines

/-- The formats are the keys of `SUPPORTED_EXTENSIONS` without the dot. -/
inductive FileFormat where
  | srt
  | vtt
  | ass
  | ssa
  deriving DecidableEq

/-- The envelope of a document is its format with the metadata that the adapter keeps. -/
inductive Envelope where
  | srt
  | vtt (header : Str) (blocks : List VttBlock)
  | ass (ssa : Bool) (lines : List Str) (records : List AssRecord)
  deriving DecidableEq

/-- This structure is `SubtitleDocument`. -/
structure Document where
  envelope : Envelope
  cues : List Cue
  newline : Newline
  bom : Bool
  deriving DecidableEq

/-- This function is `clone_with_cues`. -/
def Document.cloneWithCues (doc : Document) (cues : List Cue) : Document := { doc with cues := cues }

/-- The records of an ASS or SSA document. -/
def Document.records (doc : Document) : List AssRecord :=
  match doc.envelope with
  | .ass _ _ records => records
  | _ => []

/-- This function is `_parse_vtt`. -/
def parseVtt (text : Str) (newline : Newline) (bom : Bool) : Except FormatFailure Document :=
  let lines := (stripMark text).splitOn 0xa
  let first := lines.headD []
  if ¬(ofString "WEBVTT").isPrefixOf ((strip first).flatMap upperPoint) then
    .error (.format (ofString "WebVTT file must begin with WEBVTT."))
  else
    let inHeader (line : Str) : Bool := !blank line && !occurs (ofString "-->") line
    let header := first :: lines.tail.takeWhile inHeader
    let blocks := ((lines.tail.dropWhile inHeader).splitOnP blank).filter (· ≠ [])
    let (cues, blocks) := readBlocks 0 blocks
    .ok ⟨.vtt (join [0xa] header) blocks, cues, newline, bom⟩

/-- This function is `_parse_ass`. -/
def parseAss (text : Str) (ssa : Bool) (newline : Newline) (bom : Bool) :
    Except FormatFailure Document := do
  let lines := (stripMark text).splitOn 0xa
  let events ← readEvents false [] 0 0 lines
  pure ⟨.ass ssa lines (events.map Prod.snd), events.map Prod.fst, newline, bom⟩

/-- This function is `parse_subtitle` on the decoded text of a file; `bom` tells whether the file
began with a byte order mark. -/
def parseSubtitle (format : FileFormat) (bom : Bool) (text : Str) :
    Except FormatFailure Document := do
  let newline := if occurs [0xd, 0xa] (text.take 8192) then Newline.crLf else .lf
  let normalized := normalizeNewlines text
  let doc ← match format with
    | .srt => do
        let cues ← (parseSrt normalized).mapError .engine
        pure ⟨.srt, cues, newline, bom⟩
    | .vtt => parseVtt normalized newline bom
    | .ass => parseAss normalized false newline bom
    | .ssa => parseAss normalized true newline bom
  if doc.cues = [] then .error (.format (ofString "No subtitle cues were found in the file."))
  else pure doc

/-- The lines that `_render_vtt` writes for a block. -/
def vttLines (cues : List Cue) : VttBlock → Except Failure (List Str)
  | .raw lines => pure (lines ++ [[]])
  | .cue k identifier =>
      match cues[k]? with
      | some cue => pure (identifier ++ [timingLine cue] ++ linesOrEmpty cue ++ [[]])
      | none => .error .other

/-- This function is `_render_vtt`. -/
def renderVtt (header : Str) (blocks : List VttBlock) (newline : Newline) (cues : List Cue) :
    Except Failure Str := do
  let written ← blocks.mapM (vttLines cues)
  pure (join newline.text (header.splitOn 0xa ++ [[]] ++ written.flatten))

/-- This function is `_render_ass`. -/
def renderAss (lines : List Str) (records : List AssRecord) (newline : Newline)
    (cues : List Cue) : Except Failure Str :=
  if cues.length = records.length then
    pure (join newline.text (replaceLines (cues.zip records) lines))
  else .error .value

/-- This function is `render`. -/
def Document.render (doc : Document) : Except Failure Str :=
  match doc.envelope with
  | .srt => renderSrt doc.newline doc.cues
  | .vtt header blocks => renderVtt header blocks doc.newline doc.cues
  | .ass _ lines records => renderAss lines records doc.newline doc.cues

end SubtitleTranslator.Engine
