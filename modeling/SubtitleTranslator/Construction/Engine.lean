import SubtitleTranslator.Library.Pattern

namespace SubtitleTranslator.Engine
open Library Library.Text

/-- A `float` number of seconds. -/
inductive Seconds where
  | finite (value : ℚ)
  | infinite
  | negativeInfinite
  | nan
  deriving DecidableEq

/-- These are the exceptions that the engine raises or handles.
`value` is ValueError, and `other` is any exception outside the TranslationError family. -/
inductive Failure where
  | translation (message : Str)
  | fatal (message : Str)
  | rateLimit (message : Str) (retryAfter : Option Seconds)
  | canceled
  | value
  | other
  deriving DecidableEq

/-- The markup dialect of a cue: `""`, `"ass"` or `"vtt"`. -/
inductive Dialect where
  | plain
  | ass
  | vtt
  deriving DecidableEq

structure Cue where
  index : Nat
  start : Str
  finish : Str
  rest : Str
  lines : List Str
  dialect : Dialect := .plain
  deriving DecidableEq

/-- A segment is one translatable unit of a cue. -/
structure Segment where
  cueIndex : Nat
  text : Str
  tags : List Str
  dashed : Bool
  dashInside : Bool := false
  deriving DecidableEq

/-- The target languages are the keys of `LANGS`. -/
inductive Language where
  | zhTw
  | zhCn
  | ja
  | ko
  | es
  | fr
  | de
  | it
  | ptBr
  | ru
  | nl
  | pl
  | tr
  | uk
  | id
  deriving DecidableEq

def Language.key : Language → Str
  | .zhTw => ofString "zh-TW"
  | .zhCn => ofString "zh-CN"
  | .ja => ofString "ja"
  | .ko => ofString "ko"
  | .es => ofString "es"
  | .fr => ofString "fr"
  | .de => ofString "de"
  | .it => ofString "it"
  | .ptBr => ofString "pt-BR"
  | .ru => ofString "ru"
  | .nl => ofString "nl"
  | .pl => ofString "pl"
  | .tr => ofString "tr"
  | .uk => ofString "uk"
  | .id => ofString "id"

/-- These are the `CJK_LANGS`. -/
def Language.cjk (target : Language) : Bool := target = .zhTw ∨ target = .zhCn ∨ target = .ja

/-- This class is `HAS_CJK_RE`. -/
def isCjk (c : CodePoint) : Bool :=
  (0x3040 ≤ c.val && c.val ≤ 0x30ff) || (0x3400 ≤ c.val && c.val ≤ 0x4dbf) ||
  (0x4e00 ≤ c.val && c.val ≤ 0x9fff) || (0xf900 ≤ c.val && c.val ≤ 0xfaff)

/-- `int` raises ValueError on more digits than CPython converts. -/
def int (digits : Str) : Except Failure Nat :=
  match int? digits with
  | some value => .ok value
  | none => .error .value

/-- This class is `.`, which excludes only the line feed. -/
def isNotNewline (c : CodePoint) : Bool := c != 0xa

def isNewline (c : CodePoint) : Bool := c == 0xa

end SubtitleTranslator.Engine
