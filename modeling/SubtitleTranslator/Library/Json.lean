import SubtitleTranslator.Library.Text

namespace Library
open Text

/-- A JSON value as a Python program reads it. A number keeps its spelling. -/
inductive Json where
  | null
  | boolean (value : Bool)
  | number (literal : Str)
  | string (text : Str)
  | array (items : List Json)
  | object (entries : List (Str × Json))

namespace Json

/-- These are KeyError, IndexError and TypeError. -/
inductive Fault where
  | key
  | index
  | type
  deriving DecidableEq

/-- The value of a key in a dictionary. -/
def find (entries : List (Str × Json)) (key : String) : Option Json := entries.lookup (ofString key)

/-- This function is `value[key]` for a text. -/
def item (key : String) : Json → Except Fault Json
  | object entries =>
      match find entries key with
      | some value => .ok value
      | none => .error .key
  | _ => .error .type

/-- This function is `value[0]`. -/
def first : Json → Except Fault Json
  | array (value :: _) => .ok value
  | array [] => .error .index
  | string (c :: _) => .ok (string [c])
  | string [] => .error .index
  | object _ => .error .key
  | _ => .error .type

/-- The text of a string value. -/
def text? : Json → Option Str
  | string text => some text
  | _ => none

/-- The dictionary of an object. -/
def object? : Json → Option (List (Str × Json))
  | object entries => some entries
  | _ => none

end Json

end Library
