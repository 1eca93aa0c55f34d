import SubtitleTranslator.Construction.Writing
import SubtitleTranslator.Proof.StructureFidelity

namespace SubtitleTranslator.Engine
open Library Library.Text

theorem encodeUtf8_ok_iff (s : Str) : (∃ bytes, encodeUtf8 s = .ok bytes) ↔ SurrogateFree s := by
  rw [← utf8?_isSome_iff, Option.isSome_iff_exists, encodeUtf8]
  cases utf8? s <;> simp

theorem isSurrogate_of_high {c : CodePoint} (high : 0xf0000 ≤ c.val) : isSurrogate c = false := by
  simp only [isSurrogate, Bool.and_eq_false_iff, decide_eq_false_iff_not]
  omega

theorem isSurrogate_of_isPlaceholder {c : CodePoint} (mark : isPlaceholder c = true) :
    isSurrogate c = false := by
  simp only [isPlaceholder, Bool.and_eq_true, decide_eq_true_eq] at mark
  exact isSurrogate_of_high mark.1

/-- Surrogates are plain characters. -/
theorem surrogateFree_plain (s : Str) : SurrogateFree (plain s) ↔ SurrogateFree s := by
  apply surrogateFree_congr
  rw [plain, List.filter_filter]
  congr 1
  funext c
  cases lone : isSurrogate c with
  | false => rfl
  | true =>
      cases space : isSpace c with
      | true => simp [isSurrogate_of_isSpace space] at lone
      | false =>
          cases mark : isPlaceholder c with
          | true => simp [isSurrogate_of_isPlaceholder mark] at lone
          | false => simp [isPlain, space, mark]

/-- The wrap form of an output keeps its surrogates. -/
theorem ordinary_isSurrogate (count : Nat) : Ordinary count isSurrogate where
  apart := fun _ _ _ placed => isSurrogate_of_high (placeholder_spec placed).1
  outside := fun _ => isSurrogate_of_isPlaceholder
  seen := fun _ => isSurrogate_of_isSpace

theorem isSurrogate_of_isDecimal {c : CodePoint} (digit : isDecimal c = true) :
    isSurrogate c = false := by
  obtain ⟨first, inTable, range⟩ := exists_zero_of_isDecimal digit
  have apart : ∀ first ∈ decimalZeros, first + 10 ≤ 0xd800 ∨ 0xdfff < first := by decide
  have := apart first inTable
  simp only [isSurrogate, Bool.and_eq_false_iff, decide_eq_false_iff_not]
  omega

/-- A sentinel has no surrogates. -/
theorem surrogateFree_sentinel {before digits after : Str}
    (spelled : (Token.sentinel before digits after).WellSpelled) :
    SurrogateFree (Token.sentinel before digits after).text := by
  obtain ⟨spaces, _, decimals, spacesAfter⟩ := spelled
  intro c member
  simp only [Token.text, List.mem_cons, List.mem_append, List.not_mem_nil, or_false] at member
  rcases member with rfl | inBefore | inDigits | inAfter | rfl
  · decide
  · exact isSurrogate_of_isSpace (spaces c inBefore)
  · exact isSurrogate_of_isDecimal (decimals c inDigits)
  · exact isSurrogate_of_isSpace (spacesAfter c inAfter)
  · decide

/-- Deleting the sentinels deletes no surrogates. -/
theorem surrogateFree_removeSentinels (s : Str) :
    SurrogateFree (removeSentinels s) ↔ SurrogateFree s := by
  obtain ⟨tokens, spelled, rfl, read⟩ := exists_tokens s
  rw [removeSentinels_eq read]
  clear read
  induction tokens with
  | nil => rfl
  | cons token tokens ih =>
      rw [List.forall_mem_cons] at spelled
      rw [List.flatMap_cons, surrogateFree_append, ← ih spelled.2]
      cases token with
      | char c =>
          show SurrogateFree ([c] ++ _) ↔ _
          rw [surrogateFree_append]
          rfl
      | sentinel before digits after =>
          exact (and_iff_right (surrogateFree_sentinel spelled.1)).symm

/-- A restored text is free of surrogates when the text and its tags are. -/
theorem surrogateFree_fromWrapForm (s : Str) (tags : List Str) (vtt : Bool) :
    SurrogateFree (fromWrapForm s tags vtt) ↔
      SurrogateFree s ∧ ∀ k ∈ marks s, SurrogateFree (tags[k]?.getD []) := by
  have point (c : CodePoint) : SurrogateFree (restorePoint tags vtt c) ↔
      isSurrogate c = false ∧
        (isPlaceholder c = true → SurrogateFree (tags[placeholderNumber c]?.getD [])) := by
    unfold restorePoint
    cases mark : isPlaceholder c with
    | true => simp [isSurrogate_of_isPlaceholder mark]
    | false =>
        have alone : SurrogateFree [c] ↔ isSurrogate c = false := List.forall_mem_singleton
        have escaped : SurrogateFree (escapePoint c) ↔ isSurrogate c = false := by
          unfold escapePoint
          split_ifs with ampersand less greater
          · subst ampersand
            decide
          · subst less
            decide
          · subst greater
            decide
          · exact alone
        cases vtt with
        | true => simpa using escaped
        | false => simpa using alone
  rw [fromWrapForm, surrogateFree_flatMap]
  simp only [point, marks, List.mem_map, List.mem_filter]
  constructor
  · intro free
    refine ⟨fun c member => (free c member).1, ?_⟩
    rintro k ⟨c, ⟨member, mark⟩, rfl⟩
    exact (free c member).2 mark
  · exact fun free c member => ⟨free.1 c member, fun mark => free.2 _ ⟨c, ⟨member, mark⟩, rfl⟩⟩

/-- An item can be written: each of its tags has a placeholder, and neither the output nor a tag
that is restored has a lone surrogate. -/
structure ItemWritable (item : Segment × Str) : Prop where
  placeable : item.1.tags.length ≤ placeableCount
  text : SurrogateFree item.2
  tags : ∀ tag ∈ item.1.tags.take placeholderCount, SurrogateFree tag

/-- The wrap form of an item, with a dash or not and laid out in any way, restores to a text
without surrogates exactly when the item can be written. -/
theorem wrapForm_writable {item : Segment × Str} (masked : Masked item.1.text item.1.tags)
    (valid : ValidOutput item.1 item.2) (few : item.1.tags.length ≤ placeableCount) :
    ∃ s, toWrapForm item.2 item.1.tags = .ok s ∧
      ∀ (vtt : Bool) (laid : Str), marks laid = marks s →
        (SurrogateFree laid ↔ SurrogateFree s) →
        (SurrogateFree (fromWrapForm laid item.1.tags vtt) ↔ ItemWritable item) := by
  obtain ⟨numbers, mentioned⟩ := valid.wellMentioned masked few
  obtain ⟨s, wrapped, marked, kept⟩ := toWrapForm_placed few mentioned
  have text : SurrogateFree s ↔ SurrogateFree item.2 := by
    rw [← surrogateFree_removeSentinels item.2]
    exact surrogateFree_congr (kept isSurrogate (ordinary_isSurrogate _))
  refine ⟨s, wrapped, fun vtt laid sameMarks same => ?_⟩
  have restored : (∀ k ∈ marks laid, SurrogateFree (item.1.tags[k]?.getD [])) ↔
      ∀ tag ∈ item.1.tags.take placeholderCount, SurrogateFree tag := by
    simp only [sameMarks, marked, List.mem_filter, decide_eq_true_eq, mentioned.all.mem_iff,
      List.mem_range]
    constructor
    · intro free tag member
      obtain ⟨k, inTake, found⟩ := List.mem_iff_getElem.mp member
      rw [List.length_take, Nat.lt_min] at inTake
      have here := free k ⟨inTake.2, inTake.1⟩
      rw [List.getElem_take] at found
      rwa [List.getElem?_eq_getElem inTake.2, Option.getD_some, found] at here
    · rintro free k ⟨tag, small⟩
      rw [List.getElem?_eq_getElem tag, Option.getD_some]
      exact free _ (List.mem_take_iff_getElem.mpr ⟨k, by omega, rfl⟩)
  rw [surrogateFree_fromWrapForm, same, text, restored]
  exact ⟨fun ⟨free, tags⟩ => ⟨few, free, tags⟩, fun writable => ⟨writable.text, writable.tags⟩⟩

theorem surrogateFree_withDash (line : Str) (inside : Bool) :
    SurrogateFree (withDash line inside) ↔ SurrogateFree line := by
  rw [← surrogateFree_plain, (withDash_spec line inside).2, ← surrogateFree_plain line]
  show SurrogateFree ([0x2d] ++ plain line) ↔ _
  rw [surrogateFree_append]
  exact and_iff_right (by decide)

theorem fromWrapForm_flatten (body : List Str) (tags : List Str) (vtt : Bool) :
    (body.map fun line => fromWrapForm line tags vtt).flatten =
      fromWrapForm body.flatten tags vtt := by
  induction body with
  | nil => rfl
  | cons line body ih =>
      rw [List.map_cons, List.flatten_cons, List.flatten_cons, ih]
      exact List.flatMap_append.symm

/-- A line of a speaker pair can be written when its item can. -/
theorem speakerLine_writable_iff (vtt : Bool) {item : Segment × Str}
    (masked : Masked item.1.text item.1.tags) (valid : ValidOutput item.1 item.2) :
    (∃ line, speakerLine vtt item = .ok line ∧ SurrogateFree line) ↔ ItemWritable item := by
  by_cases few : item.1.tags.length ≤ placeableCount
  · obtain ⟨s, wrapped, restored⟩ := wrapForm_writable masked valid few
    have made : speakerLine vtt item = .ok (strip (fromWrapForm
        (if item.1.dashed then withDash (strip s) item.1.dashInside else strip s)
        item.1.tags vtt)) := by
      rw [speakerLine, wrapped]
      rfl
    have same := marks_of_visible (visible_strip s)
    have writable := restored vtt
      (if item.1.dashed then withDash (strip s) item.1.dashInside else strip s)
      (by split <;> simp only [(withDash_spec _ _).1, same])
      (by split <;> simp only [surrogateFree_withDash, surrogateFree_strip])
    rw [made, ← writable, ← surrogateFree_strip]
    constructor
    · rintro ⟨line, same, free⟩
      cases same
      exact free
    · exact fun free => ⟨_, rfl, free⟩
  · constructor
    · rintro ⟨line, made, _⟩
      obtain ⟨s, wrapped, _⟩ := Fallible.bind_ok.mp made
      exact absurd (length_le_of_toWrapForm wrapped) few
    · exact fun writable => absurd writable.placeable few

section Rebuild
variable (wide : CodePoint → Bool) (target : Language) (width : ℚ) (maxLines : Nat)

/-- The lines of a cue with one segment can be written when its item can. -/
theorem wrappedLines_writable_iff (vtt : Bool) {item : Segment × Str}
    (masked : Masked item.1.text item.1.tags) (valid : ValidOutput item.1 item.2) :
    (∃ lines, wrappedLines wide target width maxLines vtt item = .ok lines ∧
      ∀ line ∈ lines, SurrogateFree line) ↔ ItemWritable item := by
  by_cases few : item.1.tags.length ≤ placeableCount
  · obtain ⟨s, wrapped, restored⟩ := wrapForm_writable masked valid few
    have body := wrapText_visible wide target width maxLines (strip s)
    rw [visible_strip] at body
    obtain ⟨dashMarks, dashPlain⟩ :=
      dashBody_spec item.1 (wrapText_ne_nil wide target width maxLines (strip s))
    rw [marks_of_visible body] at dashMarks
    rw [plain_of_visible body] at dashPlain
    have made : wrappedLines wide target width maxLines vtt item =
        .ok ((dashBody item.1 (wrapText wide target width maxLines (strip s))).map
          fun line => fromWrapForm line item.1.tags vtt) := by
      rw [wrappedLines, wrapped]
      rfl
    have dash : SurrogateFree (if item.1.dashed then [0x2d] else []) := by
      split <;> decide
    have free : SurrogateFree (dashBody item.1 (wrapText wide target width maxLines (strip s))).flatten ↔
        SurrogateFree s := by
      rw [← surrogateFree_plain, dashPlain, surrogateFree_append, and_iff_right dash,
        surrogateFree_plain]
    have writable := restored vtt _ dashMarks free
    rw [← fromWrapForm_flatten, surrogateFree_flatten] at writable
    rw [made, ← writable]
    constructor
    · rintro ⟨lines, same, free⟩
      cases same
      exact free
    · exact fun free => ⟨_, rfl, free⟩
  · constructor
    · rintro ⟨line, made, _⟩
      obtain ⟨s, wrapped, _⟩ := Fallible.bind_ok.mp made
      exact absurd (length_le_of_toWrapForm wrapped) few
    · exact fun writable => absurd writable.placeable few

/-- The new lines of a cue can be written when its items can. -/
theorem rebuiltLines_writable_iff (vtt : Bool) {items : List (Segment × Str)}
    (masked : ∀ item ∈ items, Masked item.1.text item.1.tags)
    (valid : ∀ item ∈ items, ValidOutput item.1 item.2) :
    (∃ lines, rebuiltLines wide target width maxLines vtt items = .ok lines ∧
      ∀ line ∈ lines, SurrogateFree line) ↔ ∀ item ∈ items, ItemWritable item := by
  unfold rebuiltLines
  split
  · rename_i item
    rw [List.forall_mem_singleton] at masked valid ⊢
    exact wrappedLines_writable_iff wide target width maxLines vtt masked valid
  · rw [Fallible.exists_mapM_iff]
    exact forall₂_congr fun item member =>
      speakerLine_writable_iff vtt (masked item member) (valid item member)

/-- A cue can be written: its items when it is rewritten, and else its own lines. -/
structure CueWritable (cue : Cue) (items : List (Segment × Str)) : Prop where
  rewritten : isRewritten items = true → ∀ item ∈ items, ItemWritable item
  kept : isRewritten items = false → ∀ line ∈ cue.lines, SurrogateFree line

theorem rebuildCue_writable_iff (cue : Cue) {items : List (Segment × Str)}
    (masked : ∀ item ∈ items, Masked item.1.text item.1.tags)
    (valid : ∀ item ∈ items, ValidOutput item.1 item.2) :
    (∃ new, rebuildCue wide target width maxLines cue items = .ok new ∧
      ∀ line ∈ new.lines, SurrogateFree line) ↔ CueWritable cue items := by
  unfold rebuildCue
  cases rewritten : isRewritten items with
  | false =>
      rw [if_neg Bool.false_ne_true]
      constructor
      · rintro ⟨new, same, free⟩
        cases same
        exact ⟨fun other => (by rw [rewritten] at other; cases other), fun _ => free⟩
      · exact fun writable => ⟨cue, rfl, writable.kept rewritten⟩
  | true =>
      rw [if_pos rfl]
      have lines := rebuiltLines_writable_iff wide target width maxLines
        (cue.dialect = .vtt) masked valid
      constructor
      · rintro ⟨new, made, free⟩
        obtain ⟨body, built, same⟩ := Fallible.bind_ok.mp made
        cases same
        exact ⟨fun _ => lines.mp ⟨body, built, free⟩,
          fun other => (by rw [rewritten] at other; cases other)⟩
      · intro writable
        obtain ⟨body, built, free⟩ := lines.mpr (writable.rewritten rewritten)
        exact ⟨{ cue with lines := body }, Fallible.bind_ok.mpr ⟨body, built, rfl⟩, free⟩

/-- The rebuilt cues have no surrogates in their lines exactly when each cue can be written. -/
theorem rebuildCues_writable_iff {unescape : Str → Str} {cues : List Cue} {segs : List Segment}
    {out : List Str} (segmented : segmentCues unescape cues = .ok segs)
    (valid : List.Forall₂ ValidOutput segs out) :
    (∃ result, rebuildCues wide target width maxLines cues segs out = .ok result ∧
      ∀ new ∈ result, ∀ line ∈ new.lines, SurrogateFree line) ↔
      ∀ i cue, cues[i]? = some cue → CueWritable cue (itemsOf segs out i) := by
  have masked := segmentCues_masked segmented
  rw [rebuildCues, if_pos valid.length_eq, Fallible.exists_mapM_iff]
  have each (indexed : Cue × Nat) : (∃ new, rebuildCue wide target width maxLines indexed.1
      (itemsOf segs out indexed.2) = .ok new ∧ ∀ line ∈ new.lines, SurrogateFree line) ↔
      CueWritable indexed.1 (itemsOf segs out indexed.2) := by
    apply rebuildCue_writable_iff
    · intro item member
      exact masked _ (List.of_mem_zip (List.mem_of_mem_filter member)).1
    · intro item member
      exact (List.forall₂_iff_zip.mp valid).2 (List.mem_of_mem_filter member)
  constructor
  · intro all i cue found
    exact (each (cue, i)).mp (all (cue, i) (List.mk_mem_zipIdx_iff_getElem?.mpr found))
  · rintro all ⟨cue, i⟩ member
    exact (each (cue, i)).mpr (all i cue (List.mk_mem_zipIdx_iff_getElem?.mp member))

end Rebuild

end SubtitleTranslator.Engine
