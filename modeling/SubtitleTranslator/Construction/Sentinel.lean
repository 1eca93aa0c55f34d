import SubtitleTranslator.Construction.Engine

namespace SubtitleTranslator.Engine
open Library Library.Text

/-- The bracket U+27E6 opens a sentinel. -/
def isOpening (c : CodePoint) : Bool := c == 0x27e6

/-- The bracket U+27E7 closes a sentinel. -/
def isClosing (c : CodePoint) : Bool := c == 0x27e7

/-- This pattern is `SENTINEL_RE`; it captures the digits. -/
def sentinelRe : Pattern CodePoint Str := do
  let _ ← .one isOpening
  let _ ← .many isSpace
  let digits ← .many1 isDecimal
  let _ ← .many isSpace
  let _ ← .one isClosing
  pure digits

/-- This function is `SENTINEL_RE.sub("", s)`. -/
def removeSentinels (s : Str) : Str := sentinelRe.sub (fun _ => []) s

/-- The numbers of the sentinels of a text. -/
def sentinelNumbers (s : Str) : Except Failure (List Nat) := (sentinelRe.findall s).mapM int

/-- This function is `placeholders_match`. -/
def placeholdersMatch (source translated : Str) : Except Failure Bool := do
  let expected ← sentinelNumbers source
  let got ← sentinelNumbers translated
  if expected.isPerm got then
    let rest := removeSentinels translated
    pure (!rest.any isOpening && !rest.any isClosing)
  else pure false

/-- This function is `_has_text`. -/
def hasText (s : Str) : Bool := strip (removeSentinels s) ≠ []

/-- This function is `needs_translation`. -/
def needsTranslation (seg : Segment) : Bool := hasText seg.text

/-- The checks of `_validate_output` on one line; a translation that is no string is `none`. -/
def validateLine (position : Nat) (source : Str) : Option Str → Except Failure Str
  | none =>
      .error (.translation (ofString "provider returned a non-text translation for line " ++
        decimal (position + 1)))
  | some translated =>
      if hasText source ∧ ¬hasText translated then
        .error (.translation (ofString "provider returned an empty line " ++
          decimal (position + 1)))
      else do
        if ← placeholdersMatch source translated then pure translated
        else .error (.translation (ofString "line " ++ decimal (position + 1) ++
          ofString " lost or altered its markup placeholders"))

/-- The loop of `_validate_output` from a position on. -/
def validateLines : Nat → List Str → List (Option Str) → Except Failure (List Str)
  | position, source :: texts, translated :: output => do
      let line ← validateLine position source translated
      let lines ← validateLines (position + 1) texts output
      pure (line :: lines)
  | _, _, _ => pure []

/-- This function is `_validate_output`; an output that is no list is `none`. -/
def validateOutput (texts : List Str) : Option (List (Option Str)) → Except Failure (List Str)
  | none =>
      .error (.translation (ofString "provider returned no translations for " ++
        decimal texts.length ++ ofString " lines"))
  | some output =>
      if output.length = texts.length then validateLines 0 texts output
      else .error (.translation (ofString "provider returned " ++ decimal output.length ++
        ofString " translations for " ++ decimal texts.length ++ ofString " lines"))

end SubtitleTranslator.Engine
