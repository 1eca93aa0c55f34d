import SubtitleTranslator.Library.Lines
import SubtitleTranslator.Library.Utf8Decoding

namespace SubtitleTranslator.Jobs
open Library.Text

/-- The set is `SUPPORTED_EXTENSIONS`. -/
def supportedExtensions : List Str := [".srt", ".vtt", ".ass", ".ssa"].map ofString

def maxFilenameStemBytes : Nat := 150

def fallbackFilenameStem : Str := ofString "subtitle"

/-- The set is `UNSAFE_FILENAME_CHARACTERS`. -/
def unsafeFilenameCharacters : Str := ofString "\"'<>:|?*\\/"

/-- The set is `WINDOWS_RESERVED_STEMS`. -/
def windowsReservedStems : List Str :=
  ["con", "prn", "aux", "nul"].map ofString ++
    (List.range' 1 9).map (fun number => ofString "com" ++ decimal number) ++
    (List.range' 1 9).map (fun number => ofString "lpt" ++ decimal number)

/-- The first letter of a general category. -/
inductive Category where
  | letter
  | mark
  | number
  | punctuation
  | symbol
  | separator
  | other
  deriving DecidableEq

/-- These are the tables of `unicodedata`: NFC and the categories, where a surrogate is Cs and a
printable ASCII character is none of the control, format, private or unassigned ones. -/
structure UnicodeData where
  normalize : Str → Str
  category : CodePoint → Category
  surrogate_other : ∀ c, isSurrogate c = true → category c = .other
  printable : ∀ c : CodePoint, 0x20 ≤ c.val → c.val < 0x7f → category c ≠ .other

/-- This function is one round of the loop over the characters of the stem. -/
def UnicodeData.keep? (tables : UnicodeData) (c : CodePoint) : Option CodePoint :=
  if tables.category c = .other ∨ c ∈ unsafeFilenameCharacters then none
  else if tables.category c = .separator then some 0x20
  else some c

/-- This function is `re.sub(r" {2,}", " ", s)`. -/
def collapseSpaces : Str → Str
  | [] => []
  | [c] => [c]
  | c :: d :: rest =>
      if c = 0x20 ∧ d = 0x20 then collapseSpaces (d :: rest) else c :: collapseSpaces (d :: rest)

def isSpaceOrDot (c : CodePoint) : Bool := c == 0x20 || c == 0x2e

/-- This function is `s.strip(" .")`. -/
def stripSpaceDot (s : Str) : Str := (s.dropWhile isSpaceOrDot).rdropWhile isSpaceOrDot

def isSlash (c : CodePoint) : Bool := c == 0x5c || c == 0x2f

/-- The stem and the extension of the name that a client sent, when the extension is supported. No
letter of an extension is the lower case of a letter outside ASCII. -/
def supportedName? (tables : UnicodeData) (rawName : Str) : Option (Str × Str) :=
  let name := strip (((tables.normalize rawName).splitOnP isSlash).getLastD [])
  match rpartition? 0x2e name with
  | none => none
  | some (stem, extension) =>
      if ofString "." ++ lower extension ∈ supportedExtensions then some (stem, extension) else none

/-- The stem before its bytes are counted. -/
def cleanStem (tables : UnicodeData) (stem : Str) : Str :=
  stripSpaceDot (collapseSpaces (stem.filterMap tables.keep?))

/-- The part before the first dot names a device. No letter of these names is the lower case of a
letter outside ASCII. -/
def isDeviceStem (s : Str) : Bool :=
  lower (strip ((splitMax 0x2e 1 s).headD [])) ∈ windowsReservedStems

/-- This error is `UnicodeEncodeError`. -/
inductive EncodeError where
  | surrogate
  deriving DecidableEq

/-- This function is `upload_display_name`. -/
def uploadDisplayName (tables : UnicodeData) (rawName : Str) : Except EncodeError (Option Str) :=
  match supportedName? tables rawName with
  | none => .ok none
  | some (stem, extension) =>
      match utf8? (cleanStem tables stem) with
      | none => .error .surrogate
      | some bytes =>
          let clean := stripSpaceDot (decodeIgnore 0 (bytes.take maxFilenameStemBytes))
          let clean := if clean = [] then fallbackFilenameStem else clean
          let clean := if isDeviceStem clean then ofString "_" ++ clean else clean
          .ok (some (clean ++ ofString "." ++ extension))

end SubtitleTranslator.Jobs
