import SubtitleTranslator.Construction.Markup

namespace SubtitleTranslator.Engine
open Library Library.Text

/-- This class is `CJK_PUNCT_NO_LEAD`. -/
def noLead : Str := ofString "，。、；：？！）」』】》〉,.!?;:)]\x7d"

/-- This class is `CJK_PUNCT_NO_TRAIL`. -/
def noTrail : Str := ofString "（「『【《〈([\x7b"

section Width
variable (wide : CodePoint → Bool)

/-- The width of a character in half-width cells. -/
def cellsOf (c : CodePoint) : Nat :=
  if isPlaceholder c then 0 else if wide c then 2 else 1

/-- This function is `_cells`; `wide` tells the characters of East Asian width W or F. -/
def cells (s : Str) : Nat := (s.map (cellsOf wide)).sum

/-- This function is `display_width`. -/
def displayWidth (s : Str) : ℚ := cells wide s / 2

/-- The loops of `wrap_cjk` keep the finished lines and the current one. -/
structure WrapState where
  lines : List Str
  cur : Str

/-- A break carries an opening punctuation mark to the next line. -/
def WrapState.cut (state : WrapState) (c : CodePoint) : WrapState :=
  match state.cur.getLast? with
  | some last =>
      if last ∈ noTrail then ⟨state.lines ++ [state.cur.dropLast], [last, c]⟩
      else ⟨state.lines ++ [state.cur], [c]⟩
  | none => ⟨state.lines ++ [state.cur], [c]⟩

/-- The loop body of `wrap_cjk` for its test of the width. -/
def WrapState.step (full : WrapState → CodePoint → Bool) (state : WrapState) (c : CodePoint) :
    WrapState :=
  if state.cur ≠ [] ∧ full state c ∧ c ∉ noLead ∧ ¬isPlaceholder c then state.cut c
  else { state with cur := state.cur ++ [c] }

/-- A loop of `wrap_cjk` over the characters of a text. -/
def wrapLoop (full : WrapState → CodePoint → Bool) (s : Str) : List Str :=
  let state := s.foldl (WrapState.step full) ⟨[], []⟩
  if state.cur ≠ [] then state.lines ++ [state.cur] else state.lines

/-- This function is `wrap_cjk`. -/
def wrapCjk (s : Str) (limit : ℚ) (maxLines : Nat) : List Str :=
  let s := strip s
  if s = [] ∨ displayWidth wide s ≤ limit then [s]
  else
    let lines := wrapLoop (fun state c => limit < displayWidth wide (state.cur ++ [c])) s
    let count := if lines.length ≤ maxLines then min (max lines.length 2) maxLines else maxLines
    let target := displayWidth wide s / count
    let balanced := wrapLoop
      (fun state _ => target ≤ displayWidth wide state.cur ∧ state.lines.length < count - 1) s
    (balanced.filter (strip · ≠ [])).map strip

/-- The loop of `_latin_words` keeps its words and the pending markup. -/
structure WordState where
  words : List Str
  pending : Str

/-- This function is `f"{front} {back}" if front else back`. -/
def spaced (front back : Str) : Str := if front ≠ [] then front ++ [0x20] ++ back else back

def WordState.step (state : WordState) (word : Str) : WordState :=
  if cells wide word = 0 then { state with pending := spaced state.pending word }
  else ⟨state.words ++ [spaced state.pending word], []⟩

/-- This function is `_latin_words`. -/
def latinWords (s : Str) : List Str :=
  let state := (words s).foldl (WordState.step wide) ⟨[], []⟩
  if state.pending = [] then state.words
  else match state.words.getLast? with
    | some last => state.words.dropLast ++ [last ++ [0x20] ++ state.pending]
    | none => [state.pending]

/-- The loop body of `wrap_latin`. -/
def wrapWord (limit : Nat) (state : WrapState) (word : Str) : WrapState :=
  if state.cur ≠ [] ∧ limit < cells wide state.cur + 1 + cells wide word then
    ⟨state.lines ++ [state.cur], word⟩
  else { state with cur := spaced state.cur word }

/-- The inner loop of `_balance_lines` fills a line up to the target. -/
def fillLine (target : Nat) : Str → List Str → Str × List Str
  | current, [] => (current, [])
  | current, word :: remaining =>
      if cells wide current + 1 + cells wide word ≤ target then
        fillLine target (current ++ [0x20] ++ word) remaining
      else (current, word :: remaining)

/-- This function is `_balance_lines` for the lines that are left. -/
def balanceLines : List Str → Nat → List Str
  | [], _ => []
  | word :: remaining, slots + 2 =>
      let width := ((word :: remaining).map (cells wide)).sum + remaining.length
      let line := fillLine wide ((width + slots + 1) / (slots + 2)) word remaining
      line.1 :: balanceLines line.2 (slots + 1)
  | remaining, _ => [join [0x20] remaining]

/-- The lines of the greedy pass of `wrap_latin`. -/
def greedyLines (limit : Nat) (words : List Str) : List Str :=
  let state := words.foldl (wrapWord wide limit) ⟨[], []⟩
  if state.cur ≠ [] then state.lines ++ [state.cur] else state.lines

/-- This function is `wrap_latin`. -/
def wrapLatin (s : Str) (limit maxLines : Nat) : List Str :=
  let words := latinWords wide s
  let lines := greedyLines wide limit words
  if lines = [] then [[]]
  else
    let maxLines := max 1 maxLines
    if lines.length ≤ maxLines then lines else balanceLines wide words maxLines

end Width

end SubtitleTranslator.Engine
