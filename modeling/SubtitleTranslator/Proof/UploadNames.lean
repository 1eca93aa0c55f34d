import SubtitleTranslator.Construction.UploadNames

namespace SubtitleTranslator.Jobs
open Library Text

/-- What a stem must be, whatever its length and the devices. -/
structure TidyStem (tables : UnicodeData) (stem : Str) : Prop where
  nonempty : stem ≠ []
  clean : ∀ c ∈ stem, c ∉ unsafeFilenameCharacters ∧ tables.category c ≠ .other
  front : ∀ c ∈ stem.head?, isSpaceOrDot c = false
  back : ∀ c ∈ stem.getLast?, isSpaceOrDot c = false

/-- A stem that is safe in a file system and a header. -/
structure SafeStem (tables : UnicodeData) (stem : Str) : Prop extends TidyStem tables stem where
  noDevice : isDeviceStem stem = false
  short : ∃ bytes, utf8? stem = some bytes ∧ bytes.length ≤ maxFilenameStemBytes

/-- A safe name has a safe stem before its last dot and a supported extension after it. -/
def SafeName (tables : UnicodeData) (name : Str) : Prop :=
  ∃ stem extension, rpartition? 0x2e name = some (stem, extension) ∧
    ofString "." ++ lower extension ∈ supportedExtensions ∧ SafeStem tables stem

/-- The cleaned stem begins with a device and has exactly the limit of bytes where it is cut. -/
def DeviceAtLimit (tables : UnicodeData) (rawName : Str) : Prop :=
  ∃ stem extension front rest bytes, supportedName? tables rawName = some (stem, extension) ∧
    cleanStem tables stem = front ++ rest ∧ utf8? front = some bytes ∧
    bytes.length = maxFilenameStemBytes ∧ (∀ c ∈ front.getLast?, isSpaceOrDot c = false) ∧
    isDeviceStem front = true

theorem stripSpaceDot_within (s : Str) : stripSpaceDot s <:+: s :=
  (List.rdropWhile_prefix isSpaceOrDot _).isInfix.trans
    (List.dropWhile_suffix isSpaceOrDot).isInfix

theorem stripSpaceDot_head? (s : Str) : ∀ c ∈ (stripSpaceDot s).head?, isSpaceOrDot c = false := by
  intro c front
  obtain ⟨suffix, same⟩ := List.rdropWhile_prefix isSpaceOrDot (s.dropWhile isSpaceOrDot)
  change stripSpaceDot s ++ suffix = _ at same
  have whole : c ∈ (s.dropWhile isSpaceOrDot).head? := by
    rw [← same, List.head?_append, Option.mem_def.mp front]
    rfl
  have first := List.head?_dropWhile_not isSpaceOrDot s
  rw [Option.mem_def.mp whole] at first
  exact first

theorem stripSpaceDot_getLast? (s : Str) :
    ∀ c ∈ (stripSpaceDot s).getLast?, isSpaceOrDot c = false := by
  intro c back
  obtain ⟨nonempty, rfl⟩ := List.mem_getLast?_eq_getLast back
  simpa [stripSpaceDot] using List.rdropWhile_last_not isSpaceOrDot _ nonempty

/-- A text whose ends are neither a space nor a dot keeps them. -/
theorem stripSpaceDot_eq_self {s : Str} (front : ∀ c ∈ s.head?, isSpaceOrDot c = false)
    (back : ∀ c ∈ s.getLast?, isSpaceOrDot c = false) : stripSpaceDot s = s := by
  have left : s.dropWhile isSpaceOrDot = s := by
    cases s with
    | nil => rfl
    | cons c rest => exact List.dropWhile_cons_of_neg (by simp [front c rfl])
  rw [stripSpaceDot, left, List.rdropWhile_eq_self_iff]
  intro nonempty
  simp [back _ (List.getLast?_eq_some_getLast nonempty)]

theorem collapseSpaces_sublist (s : Str) : (collapseSpaces s).Sublist s := by
  fun_induction collapseSpaces s with
  | case1 => exact List.Sublist.refl _
  | case2 c => exact List.Sublist.refl _
  | case3 c d rest _ ih => exact ih.cons c
  | case4 c d rest _ ih => exact ih.cons_cons c

/-- What the loop keeps of a character is neither unsafe nor a control character. -/
theorem UnicodeData.keep?_clean (tables : UnicodeData) {c d : CodePoint}
    (kept : tables.keep? c = some d) :
    d ∉ unsafeFilenameCharacters ∧ tables.category d ≠ .other := by
  unfold keep? at kept
  split_ifs at kept with dropped separator
  · cases kept
    exact ⟨by decide, tables.printable 0x20 (by decide) (by decide)⟩
  · cases kept
    rw [not_or] at dropped
    exact dropped.symm

theorem cleanStem_clean (tables : UnicodeData) (stem : Str) :
    ∀ c ∈ cleanStem tables stem, c ∉ unsafeFilenameCharacters ∧ tables.category c ≠ .other := by
  intro c member
  have kept := (collapseSpaces_sublist _).subset ((stripSpaceDot_within _).subset member)
  obtain ⟨d, _, keeps⟩ := List.mem_filterMap.mp kept
  exact tables.keep?_clean keeps

/-- Surrogates do not survive the cleaning, so the stem is encoded. -/
theorem exists_utf8_cleanStem (tables : UnicodeData) (stem : Str) :
    ∃ bytes, utf8? (cleanStem tables stem) = some bytes := by
  rw [← Option.isSome_iff_exists, utf8?_isSome_iff]
  intro c member
  cases lone : isSurrogate c with
  | false => rfl
  | true => exact absurd (tables.surrogate_other c lone) (cleanStem_clean tables stem c member).2

/-- The stem after its bytes are counted and its ends stripped again. -/
def cutStem (tables : UnicodeData) (stem : Str) : Str :=
  stripSpaceDot (cut maxFilenameStemBytes (cleanStem tables stem))

def namedStem (tables : UnicodeData) (stem : Str) : Str :=
  if cutStem tables stem = [] then fallbackFilenameStem else cutStem tables stem

def guardedStem (tables : UnicodeData) (stem : Str) : Str :=
  if isDeviceStem (namedStem tables stem) then ofString "_" ++ namedStem tables stem
  else namedStem tables stem

/-- The stem of an upload name is cleaned, cut, named and guarded. -/
theorem uploadDisplayName_eq (tables : UnicodeData) (rawName : Str) :
    uploadDisplayName tables rawName =
      .ok ((supportedName? tables rawName).map fun parts =>
        guardedStem tables parts.1 ++ ofString "." ++ parts.2) := by
  rw [uploadDisplayName]
  cases supportedName? tables rawName with
  | none => rfl
  | some parts =>
      obtain ⟨stem, extension⟩ := parts
      obtain ⟨bytes, written⟩ := exists_utf8_cleanStem tables stem
      have same := decodeIgnore_utf8 written maxFilenameStemBytes
      simp only [written, same, Option.map_some, guardedStem, namedStem, cutStem]
      rfl

theorem cutStem_utf8 (tables : UnicodeData) (stem : Str) :
    ∃ bytes, utf8? (cutStem tables stem) = some bytes ∧ bytes.length ≤ maxFilenameStemBytes := by
  obtain ⟨_, bytes, written, short⟩ := cut_spec maxFilenameStemBytes (cleanStem tables stem)
  obtain ⟨front, back, same⟩ := stripSpaceDot_within
    (cut maxFilenameStemBytes (cleanStem tables stem))
  rw [← same] at written
  obtain ⟨left, _, some, _, rfl⟩ := utf8?_append.mp written
  obtain ⟨_, middle, _, inside, rfl⟩ := utf8?_append.mp some
  refine ⟨middle, inside, ?_⟩
  rw [List.length_append, List.length_append] at short
  omega

theorem fallback_eq : fallbackFilenameStem = [0x73, 0x75, 0x62, 0x74, 0x69, 0x74, 0x6c, 0x65] :=
  rfl

theorem unsafeFilenameCharacters_eq : unsafeFilenameCharacters =
    [0x22, 0x27, 0x3c, 0x3e, 0x3a, 0x7c, 0x3f, 0x2a, 0x5c, 0x2f] := rfl

theorem fallback_tidy (tables : UnicodeData) : TidyStem tables fallbackFilenameStem := by
  rw [fallback_eq]
  have printable : ∀ c ∈ ([0x73, 0x75, 0x62, 0x74, 0x69, 0x74, 0x6c, 0x65] : Str),
      c ∉ unsafeFilenameCharacters ∧ 0x20 ≤ c.val ∧ c.val < 0x7f := by
    simp [unsafeFilenameCharacters_eq]
  refine ⟨List.cons_ne_nil _ _, fun c member => ?_, by simp [isSpaceOrDot],
    by simp [isSpaceOrDot]⟩
  obtain ⟨safe, low, high⟩ := printable c member
  exact ⟨safe, tables.printable c low high⟩

theorem fallback_utf8 :
    utf8? fallbackFilenameStem = some [0x73, 0x75, 0x62, 0x74, 0x69, 0x74, 0x6c, 0x65] := by
  rw [fallback_eq]
  decide +kernel

/-- A name that is found is tidy and within the limit. -/
theorem namedStem_tidy (tables : UnicodeData) (stem : Str) :
    TidyStem tables (namedStem tables stem) ∧
      ∃ bytes, utf8? (namedStem tables stem) = some bytes ∧ bytes.length ≤ maxFilenameStemBytes := by
  rw [namedStem]
  split_ifs with empty
  · exact ⟨fallback_tidy tables, _, fallback_utf8, by decide⟩
  · refine ⟨⟨empty, fun c member => ?_, stripSpaceDot_head? _, stripSpaceDot_getLast? _⟩,
      cutStem_utf8 tables stem⟩
    exact cleanStem_clean tables stem c
      ((cut_spec _ _).1.subset ((stripSpaceDot_within _).subset member))

theorem mark_eq : ofString "_" = [0x5f] := by decide

/-- The mark in front of a device name makes it another name. -/
theorem isDeviceStem_guard (s : Str) : isDeviceStem (ofString "_" ++ s) = false := by
  have marked : ∀ name ∈ windowsReservedStems, name.head? ≠ none ∧ name.head? ≠ some 0x5f := by
    decide +kernel
  have front : ∃ part, (splitMax 0x2e 1 (0x5f :: s)).headD [] = 0x5f :: part := by
    rw [splitMax, if_neg (by decide)]
    cases parts : splitMax 0x2e 1 s with
    | nil => exact absurd parts (splitMax_ne_nil _ _ _)
    | cons part others => exact ⟨part, rfl⟩
  obtain ⟨part, front⟩ := front
  have left : lstrip (0x5f :: part) = 0x5f :: part := List.dropWhile_cons_of_neg (by decide)
  have stripped : strip (0x5f :: part) <+: 0x5f :: part := by
    rw [strip, left]
    exact List.rdropWhile_prefix isSpace _
  rw [mark_eq, List.singleton_append, isDeviceStem, front, decide_eq_false_iff_not]
  intro device
  rcases List.prefix_cons_iff.mp stripped with empty | ⟨rest, form, _⟩
  · rw [empty] at device
    exact (marked _ device).1 rfl
  · rw [form] at device
    exact (marked _ device).2 rfl

/-- The guarded stem is tidy and names no device. -/
theorem guardedStem_tidy (tables : UnicodeData) (stem : Str) :
    TidyStem tables (guardedStem tables stem) ∧
      isDeviceStem (guardedStem tables stem) = false := by
  obtain ⟨tidy, _⟩ := namedStem_tidy tables stem
  rw [guardedStem]
  split_ifs with device
  · refine ⟨⟨by simp [mark_eq], ?_, ?_, ?_⟩, isDeviceStem_guard _⟩
    · intro c member
      rcases List.mem_append.mp member with mark | inside
      · rw [mark_eq, List.mem_singleton] at mark
        rw [mark]
        exact ⟨by decide, tables.printable _ (by decide) (by decide)⟩
      · exact tidy.clean c inside
    · intro c front
      rw [mark_eq, List.singleton_append, List.head?_cons, Option.mem_some_iff] at front
      rw [← front]
      decide
    · intro c back
      apply tidy.back c
      rwa [List.getLast?_append_of_ne_nil _ tidy.nonempty] at back
  · exact ⟨tidy, by simpa using device⟩


/-- The mark in front of a device name has no room when the name takes the whole limit. -/
theorem guardedStem_short_iff (tables : UnicodeData) (stem : Str) :
    (∃ bytes, utf8? (guardedStem tables stem) = some bytes ∧ bytes.length ≤ maxFilenameStemBytes) ↔
      ¬ ∃ bytes, isDeviceStem (namedStem tables stem) = true ∧
        utf8? (namedStem tables stem) = some bytes ∧ bytes.length = maxFilenameStemBytes := by
  obtain ⟨_, bytes, written, short⟩ := namedStem_tidy tables stem
  rw [guardedStem]
  split_ifs with device
  · have marked : utf8? (ofString "_" ++ namedStem tables stem) = some (0x5f :: bytes) :=
      utf8?_append.mpr ⟨[0x5f], bytes, by decide, written, rfl⟩
    rw [marked, written]
    constructor
    · rintro ⟨_, same, room⟩ ⟨_, _, same', full⟩
      cases same
      cases same'
      rw [List.length_cons] at room
      omega
    · intro room
      refine ⟨_, rfl, ?_⟩
      have : bytes.length ≠ maxFilenameStemBytes := fun full => room ⟨bytes, device, rfl, full⟩
      rw [List.length_cons]
      omega
  · exact iff_of_true ⟨bytes, written, short⟩ fun ⟨_, named, _⟩ => device named

theorem fallback_noDevice : isDeviceStem fallbackFilenameStem = false := by
  rw [fallback_eq]
  decide +kernel

/-- A cut at the limit is kept when it ends in neither a space nor a dot. -/
theorem cutStem_eq_of_full {tables : UnicodeData} {stem front rest : Str} {bytes : List UInt8}
    (form : cleanStem tables stem = front ++ rest) (written : utf8? front = some bytes)
    (full : bytes.length = maxFilenameStemBytes)
    (back : ∀ c ∈ front.getLast?, isSpaceOrDot c = false) : cutStem tables stem = front := by
  have same : cut maxFilenameStemBytes (cleanStem tables stem) = front := by
    rw [form, ← full]
    exact cut_append written rest
  rw [cutStem, same]
  refine stripSpaceDot_eq_self (fun c first => ?_) back
  apply stripSpaceDot_head? (collapseSpaces (stem.filterMap tables.keep?))
  change c ∈ (cleanStem tables stem).head?
  rw [form, List.head?_append, Option.mem_def.mp first]
  rfl

/-- Only a cut at the limit gives a stem of that many bytes. -/
theorem cleanStem_of_full {tables : UnicodeData} {stem : Str} {bytes : List UInt8}
    (written : utf8? (cutStem tables stem) = some bytes)
    (full : bytes.length = maxFilenameStemBytes) :
    ∃ rest, cleanStem tables stem = cutStem tables stem ++ rest := by
  obtain ⟨⟨rest, form⟩, all, whole, short⟩ :=
    cut_spec maxFilenameStemBytes (cleanStem tables stem)
  obtain ⟨front, back, same⟩ := stripSpaceDot_within
    (cut maxFilenameStemBytes (cleanStem tables stem))
  change front ++ cutStem tables stem ++ back = _ at same
  rw [← same] at whole
  obtain ⟨left, right, both, after, rfl⟩ := utf8?_append.mp whole
  obtain ⟨before, middle, ahead, inside, rfl⟩ := utf8?_append.mp both
  cases written.symm.trans inside
  rw [List.length_append, List.length_append] at short
  obtain rfl : before = [] := List.length_eq_zero_iff.mp (by omega)
  obtain rfl : right = [] := List.length_eq_zero_iff.mp (by omega)
  rw [utf8?_eq_some_nil.mp ahead, utf8?_eq_some_nil.mp after, List.nil_append,
    List.append_nil] at same
  exact ⟨rest, by rw [same, form]⟩

theorem deviceAtLimit_iff {tables : UnicodeData} {rawName stem extension : Str}
    (supported : supportedName? tables rawName = some (stem, extension)) :
    DeviceAtLimit tables rawName ↔
      ∃ bytes, isDeviceStem (namedStem tables stem) = true ∧
        utf8? (namedStem tables stem) = some bytes ∧ bytes.length = maxFilenameStemBytes := by
  constructor
  · rintro ⟨_, _, front, rest, bytes, same, form, written, full, back, device⟩
    cases supported.symm.trans same
    have kept := cutStem_eq_of_full form written full back
    have nonempty : cutStem tables stem ≠ [] := by
      rw [kept]
      rintro rfl
      cases (utf8?_nil.symm.trans written)
      exact absurd full (by decide)
    rw [namedStem, if_neg nonempty, kept]
    exact ⟨bytes, device, written, full⟩
  · rintro ⟨bytes, device, written, full⟩
    rw [namedStem] at device written
    split_ifs at device written with empty
    · rw [fallback_noDevice] at device
      cases device
    · obtain ⟨rest, form⟩ := cleanStem_of_full written full
      exact ⟨stem, extension, cutStem tables stem, rest, bytes, supported, form, written, full,
        stripSpaceDot_getLast? _, device⟩

/-- The result of the function is read back at its last dot. -/
theorem rpartition?_name {tables : UnicodeData} {rawName stem extension : Str}
    (supported : supportedName? tables rawName = some (stem, extension)) (front : Str) :
    rpartition? 0x2e (front ++ ofString "." ++ extension) = some (front, extension) ∧
      ofString "." ++ lower extension ∈ supportedExtensions := by
  rw [supportedName?] at supported
  cases split : rpartition? 0x2e
      (strip (((tables.normalize rawName).splitOnP isSlash).getLastD [])) with
  | none => simp only [split, reduceCtorEq] at supported
  | some parts =>
      simp only [split] at supported
      split_ifs at supported with listed
      cases supported
      have dot : ofString "." = [0x2e] := by decide
      rw [dot, List.append_assoc, List.singleton_append]
      exact ⟨rpartition?_append front (of_rpartition? split).2, listed⟩

/-- Upload names are safe unless a device name is found where the stem is cut at the limit. -/
theorem upload_name_safe_iff (tables : UnicodeData) (rawName : Str) :
    (∃ result, uploadDisplayName tables rawName = .ok result ∧
        ∀ name ∈ result, SafeName tables name) ↔
      ¬ DeviceAtLimit tables rawName := by
  rw [uploadDisplayName_eq]
  cases supported : supportedName? tables rawName with
  | none =>
      refine iff_of_true ⟨none, rfl, nofun⟩ fun ⟨_, _, _, _, _, same, _⟩ => ?_
      rw [supported] at same
      cases same
  | some parts =>
      obtain ⟨stem, extension⟩ := parts
      obtain ⟨split, listed⟩ := rpartition?_name supported (guardedStem tables stem)
      obtain ⟨tidy, noDevice⟩ := guardedStem_tidy tables stem
      rw [deviceAtLimit_iff supported, ← guardedStem_short_iff]
      simp only [Option.map_some]
      constructor
      · rintro ⟨_, same, safe⟩
        rw [Except.ok.injEq] at same
        obtain ⟨_, _, found, _, stemSafe⟩ := safe _ same.symm
        rw [split, Option.some.injEq, Prod.mk.injEq] at found
        rw [found.1]
        exact stemSafe.short
      · intro short
        refine ⟨_, rfl, fun name member => ?_⟩
        rw [← Option.mem_some_iff.mp member]
        exact ⟨_, _, split, listed, tidy, noDevice, short⟩

/-- This function is `unicodedata.category` on ASCII texts. -/
def asciiCategory (c : CodePoint) : Category :=
  if isSurrogate c || c.val < 0x20 || c.val = 0x7f then .other
  else if c.val = 0x20 then .separator
  else if isAsciiDigit c then .number
  else if isAsciiLetter c then .letter
  else .punctuation

theorem asciiCategory_surrogate (c : CodePoint) (lone : isSurrogate c = true) :
    asciiCategory c = .other := by
  simp [asciiCategory, lone]

theorem asciiCategory_printable (c : CodePoint) (low : 0x20 ≤ c.val) (high : c.val < 0x7f) :
    asciiCategory c ≠ .other := by
  have whole : isSurrogate c = false := by
    simp [isSurrogate]
    omega
  have graphic : ¬ (isSurrogate c || decide (c.val < 0x20) || decide (c.val = 0x7f)) = true := by
    simp [whole]
    omega
  rw [asciiCategory, if_neg graphic]
  split_ifs <;> decide

/-- These tables are those of `unicodedata` on ASCII texts. -/
def asciiData : UnicodeData where
  normalize := id
  category := asciiCategory
  surrogate_other := asciiCategory_surrogate
  printable := asciiCategory_printable

/-- The mark before the device name of `con.` and 146 letters makes a stem of 151 bytes. -/
theorem device_at_limit_overflows :
    ¬ ∃ result, uploadDisplayName asciiData
        ([0x63, 0x6f, 0x6e, 0x2e] ++ List.replicate 146 0x61 ++ [0x2e, 0x73, 0x72, 0x74]) =
          .ok result ∧ ∀ name ∈ result, SafeName asciiData name := by
  rintro ⟨result, same, safe⟩
  have value : uploadDisplayName asciiData
      ([0x63, 0x6f, 0x6e, 0x2e] ++ List.replicate 146 0x61 ++ [0x2e, 0x73, 0x72, 0x74]) =
        .ok (some ([0x5f, 0x63, 0x6f, 0x6e, 0x2e] ++ List.replicate 146 0x61 ++
          [0x2e, 0x73, 0x72, 0x74])) := by
    decide +kernel
  have stem : rpartition? 0x2e ([0x5f, 0x63, 0x6f, 0x6e, 0x2e] ++ List.replicate 146 0x61 ++
      [0x2e, 0x73, 0x72, 0x74]) =
        some ([0x5f, 0x63, 0x6f, 0x6e, 0x2e] ++ List.replicate 146 0x61, [0x73, 0x72, 0x74]) := by
    decide +kernel
  have long : (utf8? ([0x5f, 0x63, 0x6f, 0x6e, 0x2e] ++ List.replicate 146 0x61)).map List.length =
      some 151 := by
    decide +kernel
  rw [value, Except.ok.injEq] at same
  obtain ⟨_, _, split, _, stemSafe⟩ := safe _ same.symm
  obtain ⟨bytes, written, short⟩ := stemSafe.short
  rw [stem, Option.some.injEq, Prod.mk.injEq] at split
  rw [← split.1] at written
  rw [written, Option.map_some, Option.some.injEq] at long
  rw [long] at short
  exact absurd short (by decide)

end SubtitleTranslator.Jobs
