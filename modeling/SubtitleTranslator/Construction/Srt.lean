import SubtitleTranslator.Construction.Engine
import SubtitleTranslator.Library.Lines
import SubtitleTranslator.Library.Pattern

namespace SubtitleTranslator.Engine
open Library Library.Text

/-- This pattern is the group `\d{1,2}:\d{2}:\d{2}[,.]\d{1,3}` of `TIMING_RE`. -/
def timeRe : Pattern CodePoint Str := do
  let hours ← .between isDecimal 1 2
  let first ← .one (· == 0x3a)
  let minutes ← .exactly isDecimal 2
  let second ← .one (· == 0x3a)
  let seconds ← .exactly isDecimal 2
  let mark ← .one (fun c => c == 0x2c || c == 0x2e)
  let fraction ← .between isDecimal 1 3
  pure (hours ++ first :: minutes ++ second :: seconds ++ mark :: fraction)

/-- The groups of `TIMING_RE`. -/
structure Timing where
  start : Str
  finish : Str
  rest : Str
  deriving DecidableEq

/-- This pattern is `TIMING_RE`. -/
def timingRe : Pattern CodePoint Timing := do
  let start ← timeRe
  let _ ← .many isSpace
  let _ ← .one (· == 0x2d)
  let _ ← .one (· == 0x2d)
  let _ ← .one (· == 0x3e)
  let _ ← .many isSpace
  let finish ← timeRe
  let rest ← .many isNotNewline
  pure ⟨start, finish, rest⟩

/-- The groups of a line in which `TIMING_RE` finds a match. -/
def timing? (line : Str) : Option Timing := (timingRe.search? line).map Prod.fst

def isTiming (line : Str) : Bool := (timing? line).isSome

/-- This test is `_INDEX_RE.fullmatch(line.strip())`. -/
def isIndex (line : Str) : Bool := strip line ≠ [] && (strip line).all isAsciiDigit

/-- This test is `starts_cue` at the first of the lines that are left. -/
def startsCue : List Str → Bool
  | [] => false
  | [line] => isTiming line
  | line :: next :: _ => isTiming line || (isIndex line && isTiming next)

/-- The loop of `parse_srt` that reads the body of a cue, and the lines that it leaves. -/
def readBody : List Str → List Str × List Str
  | [] => ([], [])
  | line :: rest =>
      if blank line then
        let following := rest.dropWhile blank
        if following = [] ∨ startsCue following then ([], following)
        else
          let (body, left) := readBody rest
          ([] :: body, left)
      else if startsCue (line :: rest) then ([], line :: rest)
      else
        let (body, left) := readBody rest
        (line :: body, left)

/-- The optional index line, and the lines from the timing line on. -/
def readIndex (line : Str) (rest : List Str) : Except Failure (Option Nat × List Str) :=
  if isIndex line && rest.head?.any isTiming then do
    let index ← int (strip line)
    pure (some index, rest)
  else pure (none, line :: rest)

/-- A cue has its own index, or the number of the cues so far. -/
def srtCue (index : Option Nat) (auto : Nat) (timing : Timing) (body : List Str) : Cue :=
  { index := index.getD (auto + 1)
    start := timing.start
    finish := timing.finish
    rest := rstrip timing.rest
    lines := body.rdropWhile blank }

/-- The main loop of `parse_srt` after a number of lines that the last cue took; `auto` counts the
cues so far. -/
def readCues : Nat → Nat → List Str → Except Failure (List Cue)
  | _, _, [] => pure []
  | taken + 1, auto, _ :: rest => readCues taken auto rest
  | 0, auto, line :: rest =>
      if blank line then readCues 0 auto rest
      else do
        let (index, header) ← readIndex line rest
        match header.head?.bind timing? with
        | none => readCues 0 auto rest
        | some timing => do
            let (body, left) := readBody header.tail
            let cues ← readCues (rest.length - left.length) (auto + 1) rest
            pure (srtCue index auto timing body :: cues)

/-- This function is `s.lstrip("\ufeff")`. -/
def stripMark (s : Str) : Str := s.dropWhile (· = 0xfeff)

/-- This function is `parse_srt`. -/
def parseSrt (raw : Str) : Except Failure (List Cue) := readCues 0 0 (lines (stripMark raw))

end SubtitleTranslator.Engine
