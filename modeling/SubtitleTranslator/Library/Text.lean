import Mathlib.Data.List.DropRight
import Mathlib.Tactic

namespace Library.Text

/-- A string element is any code point, a lone surrogate included. -/
abbrev CodePoint := Fin 0x110000

instance codePoint_neZero : NeZero 0x110000 := ⟨by decide⟩

instance codePoint_lawfulBEq : LawfulBEq CodePoint := inferInstance

abbrev Str := List CodePoint

instance str_lawfulBEq : LawfulBEq Str := inferInstance

/-- Every character is a code point. -/
def ofChar (c : Char) : CodePoint :=
  ⟨c.val.toNat, by
    rcases c.valid with low | ⟨_, high⟩
    · have : c.val.toNat < 0xd800 := low
      omega
    · exact high⟩

/-- This function reads a literal. -/
def ofString (s : String) : Str := s.toList.map ofChar

/-- These are the code points of `str.isspace`, which `\s` and `str.strip` share. -/
def isSpace (c : CodePoint) : Bool :=
  (0x9 ≤ c.val && c.val ≤ 0xd) || (0x1c ≤ c.val && c.val ≤ 0x20) || c.val == 0x85 ||
  c.val == 0xa0 || c.val == 0x1680 || (0x2000 ≤ c.val && c.val ≤ 0x200a) ||
  c.val == 0x2028 || c.val == 0x2029 || c.val == 0x202f || c.val == 0x205f || c.val == 0x3000

/-- These are the boundaries of `str.splitlines`. -/
def isLineBreak (c : CodePoint) : Bool :=
  (0xa ≤ c.val && c.val ≤ 0xd) || (0x1c ≤ c.val && c.val ≤ 0x1e) || c.val == 0x85 ||
  c.val == 0x2028 || c.val == 0x2029

/-- Each Unicode decimal digit range has ten code points from its zero. -/
def decimalZeros : List Nat :=
  [0x30, 0x660, 0x6f0, 0x7c0, 0x966, 0x9e6, 0xa66, 0xae6, 0xb66, 0xbe6, 0xc66, 0xce6, 0xd66,
    0xde6, 0xe50, 0xed0, 0xf20, 0x1040, 0x1090, 0x17e0, 0x1810, 0x1946, 0x19d0, 0x1a80, 0x1a90,
    0x1b50, 0x1bb0, 0x1c40, 0x1c50, 0xa620, 0xa8d0, 0xa900, 0xa9d0, 0xa9f0, 0xaa50, 0xabf0,
    0xff10, 0x104a0, 0x10d30, 0x10d40, 0x11066, 0x110f0, 0x11136, 0x111d0, 0x112f0, 0x11450,
    0x114d0, 0x11650, 0x116c0, 0x116d0, 0x116da, 0x11730, 0x118e0, 0x11950, 0x11bf0, 0x11c50,
    0x11d50, 0x11da0, 0x11de0, 0x11f50, 0x16a60, 0x16ac0, 0x16b50, 0x16d70, 0x1ccf0, 0x1d7ce,
    0x1d7d8, 0x1d7e2, 0x1d7ec, 0x1d7f6, 0x1e140, 0x1e2f0, 0x1e4f0, 0x1e5f1, 0x1e950, 0x1fbf0]

/-- The value of a `\d` code point is its distance from the zero of its range. -/
def decimalValue? (c : CodePoint) : Option Nat :=
  (decimalZeros.find? fun first => first ≤ c.val && c.val < first + 10).map (c.val - ·)

/-- This class is `\d`. -/
def isDecimal (c : CodePoint) : Bool := (decimalValue? c).isSome

/-- This class is `[0-9]`. -/
def isAsciiDigit (c : CodePoint) : Bool := 0x30 ≤ c.val && c.val ≤ 0x39

/-- This class is `[a-zA-Z]`. -/
def isAsciiLetter (c : CodePoint) : Bool :=
  (0x41 ≤ c.val && c.val ≤ 0x5a) || (0x61 ≤ c.val && c.val ≤ 0x7a)

/-- The conversion of ASCII letters is the part of `str.lower` that ASCII words see. -/
def lowerPoint (c : CodePoint) : CodePoint :=
  if upper : 0x41 ≤ c.val ∧ c.val ≤ 0x5a then ⟨c.val + 0x20, by omega⟩ else c

def lower (s : Str) : Str := s.map lowerPoint

def lstrip (s : Str) : Str := s.dropWhile isSpace

def rstrip (s : Str) : Str := s.rdropWhile isSpace

def strip (s : Str) : Str := rstrip (lstrip s)

/-- A string is blank when `strip` leaves nothing. -/
def blank (s : Str) : Bool := s.all isSpace

/-- This function is `s.replace("\r\n", "\n")`. -/
def replaceCrLf : Str → Str
  | [] => []
  | [c] => [c]
  | c :: d :: rest =>
      if c = 0xd ∧ d = 0xa then 0xa :: replaceCrLf rest else c :: replaceCrLf (d :: rest)

/-- This function is `s.replace("\r\n", "\n").replace("\r", "\n")`. -/
def normalizeNewlines (s : Str) : Str :=
  (replaceCrLf s).map fun c => if c = 0xd then 0xa else c

/-- A boundary ends a line; text after the last boundary is one more line. -/
def splitBreaks : Str → List Str
  | [] => []
  | c :: rest =>
      if isLineBreak c then [] :: splitBreaks rest
      else match splitBreaks rest with
        | [] => [[c]]
        | line :: lines => (c :: line) :: lines

def splitlines (s : Str) : List Str := splitBreaks (replaceCrLf s)

/-- This function is `s.split()`: the maximal runs without whitespace. -/
def words (s : Str) : List Str := (s.splitOnP isSpace).filter (· ≠ [])

/-- This function is `separator.join(parts)`. -/
def join (separator : Str) (parts : List Str) : Str := separator.intercalate parts

/-- CPython refuses to convert a longer run of digits. -/
def maxStrDigits : Nat := 4300

/-- This value is what the digits of `int(s)` denote. -/
def decimalValue (s : Str) : Nat :=
  s.foldl (fun value c => 10 * value + (decimalValue? c).getD 0) 0

/-- `int` on a string of digits either reads it or raises ValueError. -/
def int? (s : Str) : Option Nat :=
  if s.length ≤ maxStrDigits then some (decimalValue s) else none

/-- This function is `str` of one decimal digit. -/
def digitPoint (d : Nat) : CodePoint := ⟨0x30 + d % 10, by omega⟩

/-- This function is `str(n)`. -/
def decimal (n : Nat) : Str :=
  if n = 0 then [0x30] else (Nat.digits 10 n).reverse.map digitPoint

theorem isLineBreak_isSpace {c : CodePoint} (boundary : isLineBreak c = true) :
    isSpace c = true := by
  simp only [isLineBreak, isSpace, Bool.or_eq_true, Bool.and_eq_true, decide_eq_true_eq,
    beq_iff_eq] at boundary ⊢
  omega

/-- The ten ASCII digits are decimal digits with their usual values. -/
theorem decimalValue?_digitPoint (d : Nat) (digit : d < 10) :
    decimalValue? (digitPoint d) = some d := by
  interval_cases d <;> decide

theorem isDecimal_digitPoint (d : Nat) : isDecimal (digitPoint d) = true := by
  have same : digitPoint d = digitPoint (d % 10) := by simp [digitPoint]
  rw [same, isDecimal, decimalValue?_digitPoint _ (Nat.mod_lt _ (by decide))]
  rfl

/-- A text with visible ends is already stripped. -/
theorem strip_eq_self {s : Str} (front : ∀ c ∈ s.head?, isSpace c = false)
    (back : ∀ c ∈ s.getLast?, isSpace c = false) : strip s = s := by
  have left : lstrip s = s := by
    cases s with
    | nil => rfl
    | cons c rest => simp [lstrip, front c (by simp)]
  rw [strip, left, rstrip, List.rdropWhile_eq_self_iff]
  intro nonempty
  simp [back _ (List.getLast?_eq_some_getLast nonempty)]

/-- Stripping a text never lengthens it. -/
theorem strip_length_le (s : Str) : (strip s).length ≤ s.length :=
  (List.rdropWhile_prefix isSpace _).length_le.trans (List.dropWhile_suffix isSpace).length_le

/-- The front of a stripped text is visible. -/
theorem strip_head? {s : Str} (stripped : strip s = s) : ∀ c ∈ s.head?, isSpace c = false := by
  intro c front
  cases s with
  | nil => simp at front
  | cons first rest =>
      simp only [List.head?_cons, Option.mem_def, Option.some.injEq] at front
      subst front
      by_contra space
      simp only [Bool.not_eq_false] at space
      have short : strip (first :: rest) = strip rest := by simp [strip, lstrip, space]
      have bound := strip_length_le rest
      rw [← short, stripped, List.length_cons] at bound
      omega

/-- The back of a stripped text is visible. -/
theorem strip_getLast? {s : Str} (stripped : strip s = s) :
    ∀ c ∈ s.getLast?, isSpace c = false := by
  intro c back
  rw [← stripped] at back
  obtain ⟨nonempty, rfl⟩ := List.mem_getLast?_eq_getLast back
  simpa [strip, rstrip] using List.rdropWhile_last_not isSpace (lstrip s) nonempty

theorem decimal_ne_nil (n : Nat) : decimal n ≠ [] := by
  unfold decimal
  split
  · simp
  · simpa using Nat.digits_ne_nil_iff_ne_zero.mpr ‹_›

theorem exists_digitPoint_of_mem_decimal {n : Nat} {c : CodePoint} (member : c ∈ decimal n) :
    ∃ d, c = digitPoint d := by
  unfold decimal at member
  split at member
  · exact ⟨0, List.mem_singleton.mp member⟩
  · simp only [List.mem_map, List.mem_reverse] at member
    obtain ⟨d, _, rfl⟩ := member
    exact ⟨d, rfl⟩

/-- Every code point of a written number is a decimal digit. -/
theorem isDecimal_of_mem_decimal {n : Nat} {c : CodePoint} (member : c ∈ decimal n) :
    isDecimal c = true := by
  obtain ⟨d, rfl⟩ := exists_digitPoint_of_mem_decimal member
  exact isDecimal_digitPoint d

/-- Every code point of a written number is an ASCII digit. -/
theorem range_of_mem_decimal {n : Nat} {c : CodePoint} (member : c ∈ decimal n) :
    0x30 ≤ c.val ∧ c.val ≤ 0x39 := by
  obtain ⟨d, rfl⟩ := exists_digitPoint_of_mem_decimal member
  simp only [digitPoint]
  omega

theorem isSpace_of_mem_decimal {n : Nat} {c : CodePoint} (member : c ∈ decimal n) :
    isSpace c = false := by
  have range := range_of_mem_decimal member
  simp only [isSpace, Bool.or_eq_false_iff, Bool.and_eq_false_iff, decide_eq_false_iff_not,
    beq_eq_false_iff_ne]
  omega

theorem isLineBreak_of_mem_decimal {n : Nat} {c : CodePoint} (member : c ∈ decimal n) :
    isLineBreak c = false := by
  by_contra boundary
  have space := isLineBreak_isSpace (c := c) (by simpa using boundary)
  rw [isSpace_of_mem_decimal member] at space
  exact Bool.false_ne_true space

theorem decimalValue_reverse_map {digits : List Nat} (small : ∀ d ∈ digits, d < 10) :
    decimalValue (digits.reverse.map digitPoint) = Nat.ofDigits 10 digits := by
  induction digits with
  | nil => rfl
  | cons d rest ih =>
      have tail := ih fun digit member => small digit (List.mem_cons_of_mem _ member)
      rw [decimalValue] at tail ⊢
      rw [List.reverse_cons, List.map_append, List.foldl_append, tail, Nat.ofDigits_cons]
      simp [decimalValue?_digitPoint d (small d List.mem_cons_self), Nat.add_comm]

/-- Reading a written number gives the number back. -/
theorem decimalValue_decimal (n : Nat) : decimalValue (decimal n) = n := by
  unfold decimal
  split
  · subst n; decide
  · rw [decimalValue_reverse_map fun d member => Nat.digits_lt_base (by decide) member]
    exact Nat.ofDigits_digits 10 n

/-- A decimal digit has a value below ten. -/
theorem decimalValue?_lt {c : CodePoint} {d : Nat} (digit : decimalValue? c = some d) : d < 10 := by
  obtain ⟨first, found, rfl⟩ := Option.map_eq_some_iff.mp digit
  have inside := List.find?_some found
  rw [Bool.and_eq_true, decide_eq_true_eq, decide_eq_true_eq] at inside
  omega

/-- A number has at most as many digits as the text that denotes it. -/
theorem decimalValue_lt (s : Str) : decimalValue s < 10 ^ s.length := by
  have grows (s : Str) (start : Nat) :
      s.foldl (fun value c => 10 * value + (decimalValue? c).getD 0) start <
        (start + 1) * 10 ^ s.length := by
    induction s generalizing start with
    | nil => simp
    | cons c s ih =>
        have small : (decimalValue? c).getD 0 < 10 := by
          cases digit : decimalValue? c with
          | none => decide
          | some d => exact decimalValue?_lt digit
        rw [List.foldl_cons, List.length_cons, Nat.pow_succ']
        apply (ih _).trans_le
        rw [← Nat.mul_assoc]
        apply Nat.mul_le_mul_right
        omega
  simpa [decimalValue] using grows s 0

theorem decimal_length_le_iff (n : Nat) :
    (decimal n).length ≤ maxStrDigits ↔ n < 10 ^ maxStrDigits := by
  unfold decimal
  split
  · subst n
    exact iff_of_true (by decide) (Nat.pow_pos (by decide))
  · rw [List.length_map, List.length_reverse]
    exact Nat.digits_length_le_iff (by decide) n

/-- `int` reads back every number whose digits CPython converts. -/
theorem int?_decimal (n : Nat) :
    int? (decimal n) = if n < 10 ^ maxStrDigits then some n else none := by
  rw [int?, decimalValue_decimal]
  simp only [decimal_length_le_iff]

theorem replaceCrLf_eq_self {s : Str} (absent : 0xd ∉ s) : replaceCrLf s = s := by
  fun_induction replaceCrLf s with
  | case1 => rfl
  | case2 c => rfl
  | case3 c d rest pair => simp [pair.1] at absent
  | case4 c d rest _ ih => rw [ih fun member => absent (List.mem_cons_of_mem _ member)]

theorem splitBreaks_append_cons {line : Str} (inside : ∀ c ∈ line, isLineBreak c = false)
    {boundary : CodePoint} (ends : isLineBreak boundary = true) (rest : Str) :
    splitBreaks (line ++ boundary :: rest) = line :: splitBreaks rest := by
  induction line with
  | nil => simp [splitBreaks, ends]
  | cons c line ih =>
      rw [List.cons_append, splitBreaks, inside c List.mem_cons_self,
        ih fun d member => inside d (List.mem_cons_of_mem _ member)]
      rfl

theorem splitBreaks_eq_singleton {line : Str} (inside : ∀ c ∈ line, isLineBreak c = false)
    (nonempty : line ≠ []) : splitBreaks line = [line] := by
  induction line with
  | nil => exact absurd rfl nonempty
  | cons c line ih =>
      rw [splitBreaks, inside c List.mem_cons_self]
      cases line with
      | nil => rfl
      | cons d line =>
          rw [ih (fun e member => inside e (List.mem_cons_of_mem _ member)) (by simp)]
          rfl

/-- A joined text holds only its separator and its parts. -/
theorem mem_join {separator : Str} {parts : List Str} {c : CodePoint}
    (member : c ∈ join separator parts) : c ∈ separator ∨ ∃ part ∈ parts, c ∈ part := by
  induction parts with
  | nil => simp [join] at member
  | cons part rest ih =>
      cases rest with
      | nil => exact .inr ⟨part, by simp, by simpa [join] using member⟩
      | cons next rest =>
          rw [join, List.intercalate_cons_cons] at member
          rcases List.mem_append.mp member with front | tail
          · rcases List.mem_append.mp front with inPart | inSeparator
            · exact .inr ⟨part, List.mem_cons_self, inPart⟩
            · exact .inl inSeparator
          · rcases ih tail with inSeparator | ⟨other, inRest, inOther⟩
            · exact .inl inSeparator
            · exact .inr ⟨other, List.mem_cons_of_mem _ inRest, inOther⟩

/-- Lines that are written one per line are read back. -/
theorem splitlines_join {lines : List Str}
    (oneLine : ∀ line ∈ lines, line ≠ [] ∧ ∀ c ∈ line, isLineBreak c = false) :
    splitlines (join [0xa] lines) = lines := by
  have absent : 0xd ∉ join [0xa] lines := by
    intro member
    rcases mem_join member with separator | ⟨line, inLines, inLine⟩
    · simp at separator
    · exact absurd ((oneLine line inLines).2 _ inLine) (by decide)
  rw [splitlines, replaceCrLf_eq_self absent]
  clear absent
  induction lines with
  | nil => rfl
  | cons line rest ih =>
      obtain ⟨nonempty, inside⟩ := oneLine line List.mem_cons_self
      cases rest with
      | nil => simpa [join] using splitBreaks_eq_singleton inside nonempty
      | cons next rest =>
          have tail := ih fun part member => oneLine part (List.mem_cons_of_mem _ member)
          have form : join [0xa] (line :: next :: rest) = line ++ 0xa :: join [0xa] (next :: rest) := by
            simp [join]
          rw [form, splitBreaks_append_cons inside (by decide), tail]

/-- The characters of a text without whitespace. -/
def visible (s : Str) : Str := s.filter fun c => !isSpace c

theorem visible_append (s t : Str) : visible (s ++ t) = visible s ++ visible t :=
  List.filter_append _ _

theorem visible_cons_of_space {c : CodePoint} (space : isSpace c = true) (s : Str) :
    visible (c :: s) = visible s := by
  simp [visible, space]

theorem visible_cons_of_not_space {c : CodePoint} (seen : isSpace c = false) (s : Str) :
    visible (c :: s) = c :: visible s := by
  simp [visible, seen]

theorem visible_lstrip (s : Str) : visible (lstrip s) = visible s := by
  induction s with
  | nil => rfl
  | cons c rest ih =>
      by_cases space : isSpace c = true
      · rw [visible_cons_of_space space, ← ih, lstrip, lstrip, List.dropWhile_cons_of_pos space]
      · rw [lstrip, List.dropWhile_cons_of_neg space]

theorem rstrip_eq_reverse (s : Str) : rstrip s = (lstrip s.reverse).reverse := rfl

theorem visible_reverse (s : Str) : visible s.reverse = (visible s).reverse :=
  List.filter_reverse

theorem visible_strip (s : Str) : visible (strip s) = visible s := by
  rw [strip, rstrip_eq_reverse, visible_reverse, visible_lstrip, visible_reverse,
    List.reverse_reverse, visible_lstrip]

/-- A text is its whitespace around the stripped text. -/
theorem exists_strip (s : Str) :
    ∃ front back, s = front ++ strip s ++ back ∧ (∀ c ∈ front, isSpace c = true) ∧
      ∀ c ∈ back, isSpace c = true := by
  refine ⟨s.takeWhile isSpace, (lstrip s).rtakeWhile isSpace, ?_, fun c => List.mem_takeWhile_imp,
    fun c => List.mem_rtakeWhile_imp⟩
  have front : s.takeWhile isSpace ++ lstrip s = s := List.takeWhile_append_dropWhile
  have back : strip s ++ (lstrip s).rtakeWhile isSpace = lstrip s :=
    List.rdropWhile_append_rtakeWhile ..
  rw [List.append_assoc, back, front]

/-- Whitespace does not matter for the characters of a kind that has none. -/
theorem filter_visible {kind : CodePoint → Bool} (seen : ∀ c, isSpace c = true → kind c = false)
    (s : Str) : (visible s).filter kind = s.filter kind := by
  rw [visible, List.filter_filter]
  congr 1
  funext c
  cases space : isSpace c with
  | false => simp
  | true => simp [seen c space]

theorem filter_strip {kind : CodePoint → Bool} (seen : ∀ c, isSpace c = true → kind c = false)
    (s : Str) : (strip s).filter kind = s.filter kind := by
  rw [← filter_visible seen, visible_strip, filter_visible seen]

theorem visible_flatten (lines : List Str) : visible lines.flatten = (lines.map visible).flatten :=
  List.filter_flatten

theorem visible_flatMap {β : Type} (f : β → Str) (parts : List β) :
    visible (parts.flatMap f) = parts.flatMap fun part => visible (f part) :=
  List.filter_flatMap

theorem visible_of_blank {s : Str} (blank : ∀ c ∈ s, isSpace c = true) : visible s = [] :=
  List.filter_eq_nil_iff.mpr fun c member => by simp [blank c member]

theorem visible_space : visible [0x20] = [] := by decide

/-- A text whose first and last characters are visible. -/
structure Solid (s : Str) : Prop where
  front : ∃ c ∈ s.head?, isSpace c = false
  back : ∃ c ∈ s.getLast?, isSpace c = false

/-- A visible character keeps a text from being blank. -/
theorem visible_ne_nil {s : Str} {c : CodePoint} (member : c ∈ s) (seen : isSpace c = false) :
    visible s ≠ [] :=
  List.ne_nil_of_mem (List.mem_filter.mpr ⟨member, by simp [seen]⟩)

/-- What remains of a stripped text is empty or solid. -/
theorem strip_solid {s : Str} (nonempty : strip s ≠ []) : Solid (strip s) := by
  constructor
  · have kept : lstrip s ≠ [] := by
      intro empty
      rw [strip, empty] at nonempty
      exact nonempty rfl
    obtain ⟨suffix, same⟩ := List.rdropWhile_prefix isSpace (lstrip s)
    change strip s ++ suffix = lstrip s at same
    refine ⟨(lstrip s).head kept, ?_, ?_⟩
    · rw [Option.mem_def, ← List.head?_eq_some_head kept, ← same, List.head?_append,
        List.head?_eq_some_head nonempty]
      rfl
    · simpa [lstrip] using List.head_dropWhile_not isSpace kept
  · refine ⟨(strip s).getLast nonempty, List.getLast?_eq_some_getLast nonempty, ?_⟩
    simpa [strip, rstrip] using List.rdropWhile_last_not isSpace (lstrip s) nonempty

/-- A solid text is already stripped. -/
theorem Solid.strip_eq {s : Str} (solid : Solid s) : strip s = s := by
  obtain ⟨⟨first, isFirst, seenFirst⟩, last, isLast, seenLast⟩ := solid
  refine strip_eq_self (fun c front => ?_) fun c back => ?_
  · cases Option.mem_unique isFirst front
    exact seenFirst
  · cases Option.mem_unique isLast back
    exact seenLast

/-- Stripping the front of a text keeps a back that starts with a visible character. -/
theorem lstrip_append (front : Str) {back : Str} (seen : ∃ c ∈ back.head?, isSpace c = false) :
    lstrip (front ++ back) = lstrip front ++ back := by
  induction front with
  | nil =>
      obtain ⟨c, first, visible⟩ := seen
      cases back with
      | nil => cases first
      | cons d back =>
          cases first
          exact List.dropWhile_cons_of_neg (by simp [visible])
  | cons c front ih =>
      cases space : isSpace c with
      | true =>
          rw [lstrip, List.cons_append, List.dropWhile_cons_of_pos space]
          rw [lstrip, List.dropWhile_cons_of_pos space]
          exact ih
      | false =>
          rw [lstrip, List.cons_append, List.dropWhile_cons_of_neg (by simp [space]), lstrip,
            List.dropWhile_cons_of_neg (by simp [space])]
          rfl

/-- Stripping the back of a text keeps a front that ends with a visible character. -/
theorem rstrip_append {front : Str} (seen : ∃ c ∈ front.getLast?, isSpace c = false) (back : Str) :
    rstrip (front ++ back) = front ++ rstrip back := by
  have first : ∃ c ∈ front.reverse.head?, isSpace c = false := by
    rwa [List.head?_reverse]
  rw [rstrip_eq_reverse, List.reverse_append, lstrip_append _ first, List.reverse_append,
    List.reverse_reverse, ← rstrip_eq_reverse]

/-- Whitespace around a solid text is stripped. -/
theorem Solid.strip_between {front s back : Str} (solid : Solid s)
    (before : ∀ c ∈ front, isSpace c = true) (after : ∀ c ∈ back, isSpace c = true) :
    strip (front ++ s ++ back) = s := by
  obtain ⟨⟨first, isFirst, seen⟩, last⟩ := solid
  have starts : first ∈ (s ++ back).head? := by
    rw [List.head?_append, Option.mem_def.mp isFirst]
    rfl
  have noFront : lstrip front = [] := List.dropWhile_eq_nil_iff.mpr before
  have noBack : rstrip back = [] := List.rdropWhile_eq_nil_iff.mpr after
  rw [strip, List.append_assoc, lstrip_append front ⟨first, starts, seen⟩, noFront,
    List.nil_append, rstrip_append last, noBack, List.append_nil]

theorem strip_ne_nil {s : Str} (seen : visible s ≠ []) : strip s ≠ [] := by
  intro empty
  rw [← visible_strip, empty] at seen
  exact seen rfl

theorem join_singleton (separator part : Str) : join separator [part] = part := by
  simp [join]

theorem join_cons_cons (separator part next : Str) (rest : List Str) :
    join separator (part :: next :: rest) = part ++ separator ++ join separator (next :: rest) := by
  simp [join]

/-- Joining lines with spaces adds nothing that can be seen. -/
theorem visible_join (lines : List Str) :
    visible (join [0x20] lines) = visible lines.flatten := by
  induction lines with
  | nil => rfl
  | cons line lines ih =>
      cases lines with
      | nil => rw [join_singleton, List.flatten_singleton]
      | cons next lines =>
          rw [join_cons_cons, visible_append, visible_append, visible_space, ih, List.append_nil]
          exact (visible_append _ _).symm

/-- A text that is joined from solid parts is solid. -/
theorem Solid.join {separator : Str} {parts : List Str} (nonempty : parts ≠ [])
    (solid : ∀ part ∈ parts, Solid part) : Solid (join separator parts) := by
  induction parts with
  | nil => exact absurd rfl nonempty
  | cons part rest ih =>
      cases rest with
      | nil =>
          rw [join_singleton]
          exact solid part List.mem_cons_self
      | cons next rest =>
          obtain ⟨_, last, isLast, seenLast⟩ := ih (List.cons_ne_nil _ _)
            fun other member => solid other (List.mem_cons_of_mem _ member)
          obtain ⟨first, isFirst, seenFirst⟩ := (solid part List.mem_cons_self).front
          rw [join_cons_cons]
          refine ⟨⟨first, ?_, seenFirst⟩, last, ?_, seenLast⟩
          · rw [List.append_assoc, List.head?_append, isFirst]
            rfl
          · rw [List.getLast?_append, isLast]
            rfl

/-- Stripping the front of a text of blank and solid pieces drops whole pieces. -/
theorem lstrip_flatMap {β : Type} {f : β → Str} {blank : β → Bool} {pieces : List β}
    (spaces : ∀ piece ∈ pieces, blank piece = true → ∀ c ∈ f piece, isSpace c = true)
    (solid : ∀ piece ∈ pieces, blank piece = false → ∃ c ∈ (f piece).head?, isSpace c = false) :
    lstrip (pieces.flatMap f) = (pieces.dropWhile blank).flatMap f := by
  induction pieces with
  | nil => rfl
  | cons piece rest ih =>
      have tail := ih (fun other member => spaces other (List.mem_cons_of_mem _ member))
        (fun other member => solid other (List.mem_cons_of_mem _ member))
      cases kind : blank piece with
      | true =>
          rw [List.dropWhile_cons_of_pos kind, ← tail, List.flatMap_cons, lstrip,
            List.dropWhile_append_of_pos (spaces piece List.mem_cons_self kind)]
          rfl
      | false =>
          obtain ⟨c, front, seen⟩ := solid piece List.mem_cons_self kind
          rw [List.dropWhile_cons_of_neg (by simp [kind]), List.flatMap_cons, lstrip]
          cases text : f piece with
          | nil =>
              rw [text] at front
              cases front
          | cons first more =>
              rw [text] at front
              cases front
              exact List.dropWhile_cons_of_neg (by simp [seen])

/-- Stripping a text of blank and solid pieces drops whole pieces. -/
theorem strip_flatMap {β : Type} {f : β → Str} {blank : β → Bool} {pieces : List β}
    (spaces : ∀ piece ∈ pieces, blank piece = true → ∀ c ∈ f piece, isSpace c = true)
    (solid : ∀ piece ∈ pieces, blank piece = false → Solid (f piece)) :
    strip (pieces.flatMap f) = ((pieces.dropWhile blank).rdropWhile blank).flatMap f := by
  have kept : ∀ piece ∈ pieces.dropWhile blank, piece ∈ pieces :=
    fun piece member => (List.dropWhile_sublist blank).subset member
  rw [strip, lstrip_flatMap spaces fun piece member kind => (solid piece member kind).front,
    rstrip_eq_reverse, List.reverse_flatMap, @lstrip_flatMap _ _ blank, List.rdropWhile,
    List.reverse_flatMap]
  · simp [Function.comp_def]
  · intro piece member kind c inside
    rw [List.mem_reverse] at member
    exact spaces piece (kept piece member) kind c (List.mem_reverse.mp inside)
  · intro piece member kind
    rw [List.mem_reverse] at member
    simpa using (solid piece (kept piece member) kind).back

/-- The words of a text are its characters without whitespace. -/
theorem words_flatten (s : Str) : (words s).flatten = visible s := by
  have nonempty (parts : List Str) : (parts.filter (· ≠ [])).flatten = parts.flatten := by
    induction parts with
    | nil => rfl
    | cons part rest ih =>
        cases part with
        | nil => simpa using ih
        | cons c part => simpa using ih
  rw [words, nonempty]
  induction s with
  | nil => rfl
  | cons c rest ih =>
      rw [List.splitOnP_cons_eq_if_modifyHead]
      split
      · rename_i space
        rw [visible_cons_of_space space, ← ih]
        rfl
      · rename_i seen
        rw [visible_cons_of_not_space (by simpa using seen), ← ih]
        cases parts : rest.splitOnP isSpace with
        | nil => exact absurd parts (List.splitOnP_ne_nil _ _)
        | cons part others => rfl

/-- Each word has characters, and none of them is whitespace. -/
theorem of_mem_words {s word : Str} (member : word ∈ words s) :
    word ≠ [] ∧ ∀ c ∈ word, isSpace c = false := by
  obtain ⟨inParts, nonempty⟩ := List.mem_filter.mp member
  refine ⟨of_decide_eq_true nonempty, ?_⟩
  clear nonempty member
  induction s generalizing word with
  | nil =>
      rw [List.splitOnP_nil, List.mem_singleton] at inParts
      subst inParts
      exact nofun
  | cons c rest ih =>
      rw [List.splitOnP_cons_eq_if_modifyHead] at inParts
      split at inParts
      · rcases List.mem_cons.mp inParts with rfl | later
        · exact nofun
        · exact ih later
      · rename_i seen
        cases parts : rest.splitOnP isSpace with
        | nil => exact absurd parts (List.splitOnP_ne_nil _ _)
        | cons part others =>
            rw [parts] at inParts ih
            rcases List.mem_cons.mp inParts with rfl | later
            · exact List.forall_mem_cons.mpr ⟨by simpa using seen, ih List.mem_cons_self⟩
            · exact ih (List.mem_cons_of_mem _ later)

/-- The part before the first separator and the part after it are determined. -/
theorem separated_inj {separator : CodePoint} {first second : Str} (absent : separator ∉ first)
    (absentToo : separator ∉ second) {rest other : Str}
    (same : first ++ separator :: rest = second ++ separator :: other) :
    first = second ∧ rest = other := by
  induction first generalizing second with
  | nil =>
      cases second with
      | nil => simpa using same
      | cons c second =>
          rw [List.nil_append, List.cons_append, List.cons.injEq] at same
          exact absurd (same.1 ▸ List.mem_cons_self) absentToo
  | cons c first ih =>
      rw [List.mem_cons, not_or] at absent
      cases second with
      | nil =>
          rw [List.nil_append, List.cons_append, List.cons.injEq] at same
          exact absurd same.1.symm absent.1
      | cons d second =>
          rw [List.mem_cons, not_or] at absentToo
          rw [List.cons_append, List.cons_append, List.cons.injEq] at same
          obtain ⟨equal, rests⟩ := ih absent.2 absentToo.2 same.2
          exact ⟨by rw [same.1, equal], rests⟩

/-- The digits of a number determine it. -/
theorem decimal_injective {m n : Nat} (same : decimal m = decimal n) : m = n := by
  rw [← decimalValue_decimal m, same, decimalValue_decimal]

end Library.Text
