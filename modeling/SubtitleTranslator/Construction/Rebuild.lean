import SubtitleTranslator.Construction.Wrapping

namespace SubtitleTranslator.Engine
open Library Library.Text

/-- The placeholder range holds 65534 characters. -/
def placeholderCount : Nat := 65534

/-- This function is `chr(_PH_BASE + k)`, which raises ValueError past the last code point. -/
def placeholder (k : Nat) : Except Failure CodePoint :=
  if inside : 0xf0000 + k < 0x110000 then .ok ⟨0xf0000 + k, inside⟩ else .error .value

/-- The number of a placeholder. -/
def placeholderNumber (c : CodePoint) : Nat := c.val - 0xf0000

/-- The substitution of `_to_wrap_form` with the numbers that it has seen. -/
def substitutePlaceholders (count : Nat) :
    List (CodePoint ⊕ Str) → List Nat → Except Failure (Str × List Nat)
  | [], seen => pure ([], seen)
  | .inl c :: rest, seen => do
      let (s, seen) ← substitutePlaceholders count rest seen
      pure (c :: s, seen)
  | .inr digits :: rest, seen => do
      let k ← int digits
      if k < count ∧ k ∉ seen then do
        let c ← placeholder k
        let (s, seen) ← substitutePlaceholders count rest (k :: seen)
        pure (c :: s, seen)
      else substitutePlaceholders count rest seen

/-- This function is `_to_wrap_form`. -/
def toWrapForm (t : Str) (tags : List Str) : Except Failure Str := do
  let clean := t.filter fun c => !isPlaceholder c
  let (s, seen) ← substitutePlaceholders tags.length (sentinelRe.scan clean) []
  let s := strip (s.filter fun c => !isOpening c && !isClosing c)
  let lost ← ((List.range tags.length).filter (· ∉ seen)).mapM placeholder
  pure (s ++ lost)

/-- This function is `html.escape(s, quote=False)` on one character. -/
def escapePoint (c : CodePoint) : Str :=
  if c = 0x26 then ofString "&amp;"
  else if c = 0x3c then ofString "&lt;"
  else if c = 0x3e then ofString "&gt;"
  else [c]

/-- The text of one character of the wrap form. -/
def restorePoint (tags : List Str) (escape : Bool) (c : CodePoint) : Str :=
  if isPlaceholder c then tags[placeholderNumber c]?.getD []
  else if escape then escapePoint c else [c]

/-- This function is `_from_wrap_form`. -/
def fromWrapForm (s : Str) (tags : List Str) (escape : Bool) : Str :=
  s.flatMap (restorePoint tags escape)

/-- This class is `[\s\U000f0000-\U000ffffd]` of `_LEAD_PH_RE`. -/
def isLead (c : CodePoint) : Bool := isSpace c || isPlaceholder c

/-- This function is `_with_dash`. -/
def withDash (line : Str) (inside : Bool) : Str :=
  let head := strip (line.takeWhile isLead)
  if inside ∧ head ≠ [] then head ++ ofString "- " ++ line.dropWhile isLead
  else ofString "- " ++ line

section Rebuild
variable (wide : CodePoint → Bool) (target : Language) (width : ℚ) (maxLines : Nat)

/-- One line of a speaker pair. -/
def speakerLine (vtt : Bool) (item : Segment × Str) : Except Failure Str := do
  let line := strip (← toWrapForm item.2 item.1.tags)
  let line := if item.1.dashed then withDash line item.1.dashInside else line
  pure (strip (fromWrapForm line item.1.tags vtt))

/-- The wrapper is picked from the output and the target. -/
def wrapText (t : Str) : List Str :=
  if target.cjk ∧ t.any isCjk then wrapCjk wide t width maxLines
  else wrapLatin wide t ⌊width * 2⌋.toNat maxLines

/-- A dash goes on the first line of a body. -/
def dashBody (seg : Segment) : List Str → List Str
  | [] => []
  | first :: body =>
      if seg.dashed then withDash first seg.dashInside :: body else first :: body

/-- The lines of a cue with one segment. -/
def wrappedLines (vtt : Bool) (item : Segment × Str) : Except Failure (List Str) := do
  let t := strip (← toWrapForm item.2 item.1.tags)
  let body := dashBody item.1 (wrapText wide target width maxLines t)
  pure (body.map fun line => fromWrapForm line item.1.tags vtt)

/-- A cue is rewritten when one of its segments needs translation. -/
def isRewritten (items : List (Segment × Str)) : Bool := items.any fun item => needsTranslation item.1

/-- The new lines of a cue: its one segment is wrapped, and a speaker pair has a line each. -/
def rebuiltLines (vtt : Bool) : List (Segment × Str) → Except Failure (List Str)
  | [item] => wrappedLines wide target width maxLines vtt item
  | items => items.mapM (speakerLine vtt)

/-- The loop body of `rebuild_cues` for a cue and its segments. -/
def rebuildCue (cue : Cue) (items : List (Segment × Str)) : Except Failure Cue :=
  if isRewritten items then do
    let lines ← rebuiltLines wide target width maxLines (cue.dialect = .vtt) items
    pure { cue with lines := lines }
  else pure cue

/-- This function is `rebuild_cues`; the list of outputs has one entry for each segment. -/
def rebuildCues (cues : List Cue) (segs : List Segment) (out : List Str) :
    Except Failure (List Cue) :=
  if segs.length = out.length then
    cues.zipIdx.mapM fun (cue, ci) =>
      rebuildCue wide target width maxLines cue
        ((segs.zip out).filter fun item => item.1.cueIndex = ci)
  else .error .value

end Rebuild

end SubtitleTranslator.Engine
