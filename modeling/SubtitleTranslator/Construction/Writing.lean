import SubtitleTranslator.Construction.Formats
import SubtitleTranslator.Construction.Rebuild
import SubtitleTranslator.Library.Utf8

namespace SubtitleTranslator.Engine
open Library Library.Text

/-- This function is `s.encode("utf-8")`; UnicodeEncodeError is a ValueError. -/
def encodeUtf8 (s : Str) : Except Failure (List UInt8) :=
  match utf8? s with
  | some bytes => .ok bytes
  | none => .error .value

/-- This function is `to_bytes`. -/
def Document.toBytes (doc : Document) : Except Failure (List UInt8) := do
  let text ← doc.render
  encodeUtf8 ((if doc.bom then [0xfeff] else []) ++ text)

/-- A finished job writes its document with the rebuilt cues. -/
def translatedBytes (wide : CodePoint → Bool) (target : Language) (width : ℚ) (maxLines : Nat)
    (doc : Document) (segs : List Segment) (out : List Str) : Except Failure (List UInt8) := do
  let cues ← rebuildCues wide target width maxLines doc.cues segs out
  (doc.cloneWithCues cues).toBytes

end SubtitleTranslator.Engine
