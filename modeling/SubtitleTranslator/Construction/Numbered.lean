import SubtitleTranslator.Construction.Engine
import Mathlib.Data.List.AList

namespace SubtitleTranslator.Engine
open Library Library.Text

/-- This class is `[\t.)\uff1a:\u3001-]`. -/
def isNumberSeparator (c : CodePoint) : Bool :=
  c == 0x9 || c == 0x2e || c == 0x29 || c == 0xff1a || c == 0x3a || c == 0x3001 || c == 0x2d

/-- This pattern is `_NUMBERED_RE`, `^(\d+)\s*[\t.)\uff1a:\u3001-]\s*(.*)$`. -/
def numberedRe : Pattern CodePoint (Str × Str) := do
  let number ← .many1 isDecimal
  let _ ← .many isSpace
  let _ ← .one isNumberSeparator
  let _ ← .many isSpace
  let text ← .many isNotNewline
  .dollar isNewline
  pure (number, text)

/-- This pattern is `_NUMBER_ONLY_RE`, `^(\d+)$`. -/
def numberOnlyRe : Pattern CodePoint Str := do
  let number ← .many1 isDecimal
  .dollar isNewline
  pure number

/-- Two CJK characters meet at the line break without a space. -/
def joinContinuation (head tail : Str) : Str :=
  if head = [] then tail
  else if (head.getLast?.any isCjk && tail.head?.any isCjk) then head ++ tail
  else head ++ [0x20] ++ tail

/-- The loop of `parse_numbered` keeps the entries and the number of the latest entry. -/
structure NumberedState where
  got : AList (fun _ : Nat => Str)
  last : Option Nat

/-- An entry line sets its entry and becomes the latest entry. -/
def NumberedState.set (state : NumberedState) (number : Nat) (text : Str) : NumberedState where
  got := state.got.insert number text
  last := some number

/-- An unnumbered line continues the latest entry; before the first entry it is preamble. -/
def NumberedState.continueLast (state : NumberedState) (line : Str) : NumberedState :=
  match state.last with
  | none => state
  | some last =>
      { state with
        got := state.got.insert last (joinContinuation ((state.got.lookup last).getD []) line) }

/-- The second half of the loop body tries a bare number and then a continuation. -/
def readBareNumber (expected : Nat) (state : NumberedState) (line : Str) :
    Except Failure NumberedState :=
  match numberOnlyRe.match? line with
  | none => .ok (state.continueLast line)
  | some (number, _) => do
      let number ← int number
      if 1 ≤ number ∧ number ≤ expected ∧ number ∉ state.got then
        .ok (state.set number [])
      else .ok (state.continueLast line)

/-- This function is the loop body of `parse_numbered`. -/
def readNumberedLine (expected : Nat) (state : NumberedState) (raw : Str) :
    Except Failure NumberedState :=
  let line := strip raw
  if line = [] ∨ (ofString "```").isPrefixOf line then .ok state
  else match numberedRe.match? line with
    | none => readBareNumber expected state line
    | some ((number, text), _) => do
        let number ← int number
        if 1 ≤ number ∧ number ≤ expected then .ok (state.set number (strip text))
        else readBareNumber expected state line

/-- The numbers from 1 to `expected` in order. -/
def expectedNumbers (expected : Nat) : List Nat := (List.range expected).map (· + 1)

/-- This function is `str` of a list of numbers. -/
def numberListText (numbers : List Nat) : Str :=
  [0x5b] ++ join (ofString ", ") (numbers.map decimal) ++ [0x5d]

/-- The error of `parse_numbered` counts the entries and names the first missing numbers. -/
def missingLines (got expected : Nat) (missing : List Nat) : Failure :=
  .translation (ofString "model returned " ++ decimal got ++ ofString "/" ++ decimal expected ++
    ofString " lines; missing " ++ numberListText (missing.take 10))

/-- This function pulls the numbered entries out of a reply. -/
def parseNumbered (out : Str) (expected : Nat) : Except Failure (List Str) := do
  let state ← (splitlines out).foldlM (readNumberedLine expected) ⟨∅, none⟩
  let missing := (expectedNumbers expected).filter (· ∉ state.got)
  if missing ≠ [] then .error (missingLines state.got.keys.length expected missing)
  else .ok ((expectedNumbers expected).map fun number => (state.got.lookup number).getD [])

/-- A provider writes each text of a batch on a line of its own, after its number and a tab. -/
def numberedLine (number : Nat) (text : Str) : Str := decimal number ++ [0x9] ++ text

/-- This text is the user message of the Anthropic and OpenAI providers. -/
def numberedPrompt (texts : List Str) : Str :=
  join [0xa] (texts.mapIdx fun i text => numberedLine (i + 1) text)

example : parseNumbered (ofString "ignored heading\n2) second\n1： first") 2 =
    .ok [ofString "first", ofString "second"] := by decide

end SubtitleTranslator.Engine
