import SubtitleTranslator.Proof.Masking
import SubtitleTranslator.Proof.ReplyErrors

namespace SubtitleTranslator.Engine
open Library Library.Text

/-- What `unmask_tags` writes for a part of the masked text. -/
def unmaskText (tags : List Str) : CodePoint ⊕ Str → Str
  | .inl c => [c]
  | .inr digits => tags[decimalValue digits]?.getD []

/-- A masked text is restored part by part when `int` converts the numbers of its sentinels. -/
theorem unmaskTags_eq {s restored : Str} {tags : List Str} :
    unmaskTags s tags = .ok restored ↔
      ReadableSentinels s ∧ restored = (sentinelRe.scan s).flatMap (unmaskText tags) := by
  have each (part : CodePoint ⊕ Str) (text : Str) : unmaskPart tags part = .ok text ↔
      (∀ digits ∈ part.getRight?, Convertible digits) ∧ text = unmaskText tags part := by
    cases part with
    | inl c =>
        constructor
        · intro same
          cases same
          exact ⟨by simp, rfl⟩
        · rintro ⟨_, rfl⟩
          rfl
    | inr digits =>
        simp only [Sum.getRight?, Option.mem_def, Option.some.injEq, forall_eq']
        rw [unmaskPart, unmaskText, int, int?, Convertible]
        by_cases short : digits.length ≤ maxStrDigits
        · rw [if_pos short]
          simp only [short, true_and]
          constructor
          · intro same
            cases same
            rfl
          · rintro rfl
            rfl
        · rw [if_neg short]
          refine iff_of_false (fun same => ?_) fun both => short both.1
          cases same
  have all : (∀ part ∈ sentinelRe.scan s, ∀ digits ∈ part.getRight?, Convertible digits) ↔
      ReadableSentinels s := by
    rw [ReadableSentinels, Pattern.findall]
    constructor
    · intro holds digits member
      obtain ⟨part, inScan, isRight⟩ := List.mem_filterMap.mp member
      exact holds part inScan digits isRight
    · intro holds part inScan digits isRight
      exact holds digits (List.mem_filterMap.mpr ⟨part, inScan, isRight⟩)
  rw [unmaskTags, Fallible.bind_ok, ← all]
  constructor
  · rintro ⟨texts, parts, same⟩
    cases same
    obtain ⟨readable, rfl⟩ := (Fallible.mapM_eq_map each).mp parts
    exact ⟨readable, List.flatMap_def.symm⟩
  · rintro ⟨readable, rfl⟩
    exact ⟨_, (Fallible.mapM_eq_map each).mpr ⟨readable, rfl⟩, by rw [List.flatMap_def]; rfl⟩

/-- Texts with the sentinels from `k` on between them. -/
def woven : Nat → Str → List Str → Str
  | _, first, [] => first
  | k, first, text :: texts => first ++ sentinel k ++ woven (k + 1) text texts

theorem woven_append (k : Nat) (front first : Str) (texts : List Str) :
    woven k (front ++ first) texts = front ++ woven k first texts := by
  cases texts with
  | nil => rfl
  | cons text texts => simp [woven]

theorem assemble_tag (k : Nat) {piece : MaskPiece} (tagged : piece.isTag = true)
    (pieces : List MaskPiece) :
    assemble k (piece :: pieces) =
      (sentinel k ++ (assemble (k + 1) pieces).1, piece.text :: (assemble (k + 1) pieces).2) := by
  rw [assemble, if_pos tagged]

theorem assemble_text (k : Nat) {piece : MaskPiece} (untagged : piece.isTag = false)
    (pieces : List MaskPiece) :
    assemble k (piece :: pieces) =
      (piece.text ++ (assemble k pieces).1, (assemble k pieces).2) := by
  rw [assemble, if_neg (by simp [untagged])]

/-- Assembled pieces are texts without reserved characters between the sentinels. -/
theorem assemble_woven (k : Nat) {pieces : List MaskPiece}
    (clean : ∀ piece ∈ pieces, CleanPiece piece) :
    ∃ first texts, (assemble k pieces).1 = woven k first texts ∧
      texts.length = (assemble k pieces).2.length ∧
      ∀ text ∈ first :: texts, ∀ c ∈ text, isReserved c = false := by
  induction pieces generalizing k with
  | nil => exact ⟨[], [], rfl, rfl, by simp⟩
  | cons piece pieces ih =>
      rw [List.forall_mem_cons] at clean
      cases tagged : piece.isTag with
      | true =>
          obtain ⟨first, texts, same, lengths, free⟩ := ih (k + 1) clean.2
          rw [assemble_tag k tagged]
          refine ⟨[], first :: texts, ?_, ?_, List.forall_mem_cons.mpr ⟨by simp, free⟩⟩
          · rw [same]
            rfl
          · rw [List.length_cons, List.length_cons, lengths]
      | false =>
          obtain ⟨first, texts, same, lengths, free⟩ := ih k clean.2
          rw [List.forall_mem_cons] at free
          rw [assemble_text k tagged]
          refine ⟨piece.text ++ first, texts, ?_, lengths, List.forall_mem_cons.mpr ⟨?_, free.2⟩⟩
          · rw [same, woven_append]
          · exact List.forall_mem_append.mpr ⟨clean.1 tagged, free.1⟩

/-- What the scan for sentinels reads of assembled pieces. -/
def readPieces : Nat → List MaskPiece → List (CodePoint ⊕ Str)
  | _, [] => []
  | k, piece :: pieces =>
      if piece.isTag then .inr (decimal k) :: readPieces (k + 1) pieces
      else piece.text.map .inl ++ readPieces k pieces

theorem scan_assemble (k : Nat) {pieces : List MaskPiece}
    (clean : ∀ piece ∈ pieces, CleanPiece piece) :
    sentinelRe.scan (assemble k pieces).1 = readPieces k pieces := by
  induction pieces generalizing k with
  | nil => rfl
  | cons piece pieces ih =>
      rw [List.forall_mem_cons] at clean
      rw [readPieces]
      cases tagged : piece.isTag with
      | true =>
          rw [assemble_tag k tagged, if_pos rfl, ← ih (k + 1) clean.2]
          have read := scan_tokens (List.forall_mem_singleton.mpr (clean_decimal k))
            (assemble (k + 1) pieces).1
          rw [List.flatMap_singleton, ← sentinel_eq_text] at read
          exact read
      | false =>
          rw [assemble_text k tagged, if_neg Bool.false_ne_true, ← ih k clean.2]
          have tokens : ∀ token ∈ piece.text.map Token.char, token.Clean := by
            intro token member
            obtain ⟨c, inside, rfl⟩ := List.mem_map.mp member
            exact clean_of_not_reserved (clean.1 tagged c inside)
          have read := scan_tokens tokens (assemble k pieces).1
          rw [List.flatMap_map, List.map_map] at read
          exact (congrArg sentinelRe.scan (congrArg (· ++ _) (List.flatMap_singleton' _).symm)).trans
            read

/-- The tags of a masked text are those of its pieces. -/
theorem assemble_tags (k : Nat) (pieces : List MaskPiece) :
    (assemble k pieces).2 = (pieces.filter MaskPiece.isTag).map MaskPiece.text := by
  induction pieces generalizing k with
  | nil => rfl
  | cons piece pieces ih =>
      cases tagged : piece.isTag with
      | true => rw [assemble_tag k tagged, List.filter_cons_of_pos tagged, List.map_cons, ih]
      | false => rw [assemble_text k tagged, List.filter_cons_of_neg (by simp [tagged]), ih]

theorem getRight_readPieces (k : Nat) (pieces : List MaskPiece) :
    (readPieces k pieces).filterMap Sum.getRight? =
      (List.range' k (pieces.countP MaskPiece.isTag)).map decimal := by
  induction pieces generalizing k with
  | nil => rfl
  | cons piece pieces ih =>
      rw [readPieces]
      cases tagged : piece.isTag with
      | true =>
          rw [if_pos rfl, List.countP_cons_of_pos tagged, List.range'_succ, List.map_cons, ← ih]
          rfl
      | false =>
          have texts : (piece.text.map Sum.inl).filterMap (Sum.getRight? (α := CodePoint) (β := Str)) =
              [] := by
            rw [List.filterMap_map]
            exact List.filterMap_eq_nil_iff.mpr fun c _ => rfl
          rw [if_neg Bool.false_ne_true, List.countP_cons_of_neg (by simp [tagged]),
            List.filterMap_append, texts, List.nil_append, ih]

/-- Restoring the pieces from `k` on gives their texts when the tags before them are `k` ones. -/
theorem unmask_readPieces (earlier : List Str) (pieces : List MaskPiece) :
    (readPieces earlier.length pieces).flatMap
        (unmaskText (earlier ++ (pieces.filter MaskPiece.isTag).map MaskPiece.text)) =
      pieces.flatMap MaskPiece.text := by
  induction pieces generalizing earlier with
  | nil => rfl
  | cons piece pieces ih =>
      rw [readPieces, List.flatMap_cons]
      cases tagged : piece.isTag with
      | true =>
          have rest := ih (earlier ++ [piece.text])
          rw [List.length_append, List.length_singleton, List.append_assoc] at rest
          rw [if_pos rfl, List.filter_cons_of_pos tagged, List.map_cons, List.flatMap_cons]
          refine congrArg₂ (· ++ ·) ?_ rest
          rw [unmaskText, decimalValue_decimal, List.getElem?_append_right (Nat.le_refl _),
            Nat.sub_self]
          rfl
      | false =>
          rw [if_neg Bool.false_ne_true, List.filter_cons_of_neg (by simp [tagged]),
            List.flatMap_append, ih earlier, List.flatMap_map]
          exact congrArg (· ++ _) (List.flatMap_singleton' piece.text)

/-- The texts and the tags of a text, in order. -/
def maskParts (s : Str) (ass : Bool) : List (Str ⊕ Str) :=
  Pattern.parts ((Pattern.captured (maskRe ass)).scan s)

/-- `int` converts the mode that an override block sets last. -/
def ReadableTag (tag : Str) : Prop :=
  tag.head? = some 0x7b → ∀ digits ∈ (drawingRe.findall tag).getLast?, Convertible digits

/-- `int` converts the drawing modes of a text. -/
def ReadableTags (s : Str) (ass : Bool) : Prop :=
  ∀ part ∈ maskParts s ass, ∀ tag ∈ part.getRight?, ReadableTag tag

/-- A drawing follows an override block whose last mode is positive. -/
def drawingMode (drawing : Bool) (tag : Str) : Bool :=
  if tag.head? = some 0x7b then
    ((drawingRe.findall tag).getLast?).elim drawing fun digits => 0 < decimalValue digits
  else drawing

theorem drawingAfter_eq {drawing next : Bool} {tag : Str} :
    drawingAfter drawing tag = .ok next ↔ ReadableTag tag ∧ next = drawingMode drawing tag := by
  rw [drawingAfter, ReadableTag, drawingMode]
  by_cases block : tag.head? = some 0x7b
  · simp only [block, if_true, forall_const]
    cases found : (drawingRe.findall tag).getLast? with
    | none =>
        constructor
        · intro same
          cases same
          exact ⟨by simp, rfl⟩
        · rintro ⟨_, rfl⟩
          rfl
    | some digits =>
        simp only [Option.mem_def, Option.some.injEq, forall_eq', Option.elim_some]
        rw [int, int?, Convertible]
        by_cases short : digits.length ≤ maxStrDigits
        · rw [if_pos short]
          simp only [short, true_and]
          constructor
          · intro same
            cases same
            rfl
          · rintro rfl
            rfl
        · rw [if_neg short]
          refine iff_of_false (fun same => ?_) fun both => short both.1
          cases same
  · simp only [block, if_false, false_imp_iff, true_and]
    constructor
    · intro same
      cases same
      rfl
    · rintro rfl
      rfl

/-- The step of `mask_tags` without the refusal of `int`. -/
def MaskState.advance (state : MaskState) : Str ⊕ Str → MaskState
  | .inl text => { state with pieces := state.add false text }
  | .inr tag => ⟨state.add true tag, drawingMode state.drawing tag⟩

theorem MaskState.step_eq (state : MaskState) (part : Str ⊕ Str) (next : MaskState) :
    state.step part = .ok next ↔
      (∀ tag ∈ part.getRight?, ReadableTag tag) ∧ next = state.advance part := by
  cases part with
  | inl text =>
      constructor
      · intro same
        cases same
        exact ⟨by simp, rfl⟩
      · rintro ⟨_, rfl⟩
        rfl
  | inr tag =>
      simp only [Sum.getRight?, Option.mem_def, Option.some.injEq, forall_eq']
      rw [MaskState.step, Fallible.bind_ok]
      constructor
      · rintro ⟨drawing, decided, same⟩
        cases same
        obtain ⟨readable, rfl⟩ := drawingAfter_eq.mp decided
        exact ⟨readable, rfl⟩
      · rintro ⟨readable, rfl⟩
        exact ⟨_, drawingAfter_eq.mpr ⟨readable, rfl⟩, rfl⟩

/-- The pieces of a text. -/
def maskPieces (s : Str) (ass : Bool) : List MaskPiece :=
  ((maskParts s ass).foldl MaskState.advance ⟨[], false⟩).pieces.reverse

/-- A text is masked exactly when its drawing modes are readable. -/
theorem maskTags_eq {s : Str} {ass : Bool} {result : Str × List Str} :
    maskTags s ass none = .ok result ↔
      ReadableTags s ass ∧ result = assemble 0 (maskPieces s ass) := by
  rw [maskTags, Fallible.bind_ok]
  constructor
  · rintro ⟨state, ran, same⟩
    cases same
    obtain ⟨readable, rfl⟩ := (Fallible.foldlM_eq_foldl MaskState.step_eq).mp ran
    exact ⟨readable, rfl⟩
  · rintro ⟨readable, rfl⟩
    exact ⟨_, (Fallible.foldlM_eq_foldl MaskState.step_eq).mpr ⟨readable, rfl⟩, rfl⟩

theorem drawingAfter_refused {drawing : Bool} {tag : Str} (unreadable : ¬ReadableTag tag) :
    drawingAfter drawing tag = .error .value := by
  rw [ReadableTag, Classical.not_imp] at unreadable
  obtain ⟨block, long⟩ := unreadable
  rw [drawingAfter, if_pos block]
  cases found : (drawingRe.findall tag).getLast? with
  | none => simp [found] at long
  | some digits =>
      rw [found] at long
      rcases int_cases digits with ⟨short, _⟩ | ⟨_, refused⟩
      · exact absurd (by simpa using short) long
      · simp only [refused, bind, Except.bind]

/-- The other texts raise ValueError. -/
theorem maskTags_refused {s : Str} {ass : Bool} (unreadable : ¬ReadableTags s ass) :
    maskTags s ass none = .error .value := by
  have each (state : MaskState) (part : Str ⊕ Str) :
      ((∀ tag ∈ part.getRight?, ReadableTag tag) ∧ ∃ next, state.step part = .ok next) ∨
        ((¬∀ tag ∈ part.getRight?, ReadableTag tag) ∧ state.step part = .error .value) := by
    by_cases readable : ∀ tag ∈ part.getRight?, ReadableTag tag
    · exact .inl ⟨readable, _, (MaskState.step_eq state part _).mpr ⟨readable, rfl⟩⟩
    · refine .inr ⟨readable, ?_⟩
      cases part with
      | inl text => simp at readable
      | inr tag =>
          have long : ¬ReadableTag tag := by simpa using readable
          rw [MaskState.step, drawingAfter_refused long]
          rfl
  rcases Fallible.foldlM_cases each ⟨[], false⟩ (maskParts s ass) with ⟨readable, _⟩ | ⟨_, stopped⟩
  · exact absurd readable unreadable
  · rw [maskTags]
    rw [maskParts] at stopped
    rw [stopped]
    rfl

/-- A drawing that goes on is the latest piece. -/
def MaskState.Opened (state : MaskState) : Prop :=
  state.drawing = true → ∃ last others, state.pieces = last :: others ∧ last.isTag = true

/-- The text of the pieces so far. -/
def MaskState.text (state : MaskState) : Str := state.pieces.reverse.flatMap MaskPiece.text

/-- The tags of the pieces so far. -/
def MaskState.tagCount (state : MaskState) : Nat := state.pieces.countP MaskPiece.isTag

/-- A text or a tag is a new piece, or grows the tag piece of an open drawing. -/
theorem MaskState.Opened.add {state : MaskState} (opened : state.Opened) (isTag : Bool)
    (text : Str) :
    (state.drawing = false ∧ state.add isTag text = ⟨isTag, text⟩ :: state.pieces) ∨
      (state.drawing = true ∧ ∃ last others, last.isTag = true ∧ state.pieces = last :: others ∧
        state.add isTag text = { last with text := last.text ++ text } :: others) := by
  cases drawing : state.drawing with
  | false => exact .inl ⟨rfl, by rw [MaskState.add, drawing]; rfl⟩
  | true =>
      obtain ⟨last, others, same, tagged⟩ := opened drawing
      refine .inr ⟨rfl, last, others, tagged, same, ?_⟩
      rw [MaskState.add, drawing, same]
      rfl

/-- Each part adds its text to the pieces, and a tag only outside an open drawing. -/
theorem MaskState.Opened.advance {state : MaskState} (opened : state.Opened) (part : Str ⊕ Str) :
    (state.advance part).Opened ∧ (state.advance part).text = state.text ++ Pattern.readText part ∧
      (state.advance part).tagCount =
        state.tagCount + if part.isRight && !state.drawing then 1 else 0 := by
  have added (isTag : Bool) (text : Str) :
      (state.add isTag text).reverse.flatMap MaskPiece.text = state.text ++ text ∧
        (state.add isTag text).countP MaskPiece.isTag =
          state.tagCount + if isTag && !state.drawing then 1 else 0 := by
    rcases opened.add isTag text with ⟨closed, same⟩ | ⟨open_, last, others, tagged, pieces, same⟩
    · rw [same, closed]
      constructor
      · simp [MaskState.text]
      · rw [List.countP_cons, Bool.not_false, Bool.and_true, MaskState.tagCount]
    · rw [same, open_]
      constructor
      · simp [MaskState.text, pieces]
      · rw [MaskState.tagCount, pieces, List.countP_cons_of_pos tagged, List.countP_cons_of_pos]
        · simp
        · exact tagged
  cases part with
  | inl text =>
      refine ⟨fun drawing => ?_, (added false text).1, (added false text).2⟩
      rcases opened.add false text with ⟨closed, _⟩ | ⟨_, last, others, tagged, _, same⟩
      · rw [show state.drawing = true from drawing] at closed
        cases closed
      · exact ⟨_, others, same, tagged⟩
  | inr tag =>
      refine ⟨fun _ => ?_, (added true tag).1, (added true tag).2⟩
      rcases opened.add true tag with ⟨_, same⟩ | ⟨_, last, others, tagged, _, same⟩
      · exact ⟨_, state.pieces, same, rfl⟩
      · exact ⟨_, others, same, tagged⟩

/-- The tags of a text outside open drawings; a drawing counts as the tag that opens it. -/
def tagCount : Bool → List (Str ⊕ Str) → Nat
  | _, [] => 0
  | drawing, .inl _ :: parts => tagCount drawing parts
  | drawing, .inr tag :: parts =>
      (if drawing then 0 else 1) + tagCount (drawingMode drawing tag) parts

/-- The pieces hold the whole text, and one tag for each that is counted. -/
theorem foldl_advance {state : MaskState} (opened : state.Opened) (parts : List (Str ⊕ Str)) :
    (parts.foldl MaskState.advance state).text = state.text ++ parts.flatMap Pattern.readText ∧
      (parts.foldl MaskState.advance state).tagCount =
        state.tagCount + tagCount state.drawing parts := by
  induction parts generalizing state with
  | nil => exact ⟨(List.append_nil _).symm, rfl⟩
  | cons part parts ih =>
      obtain ⟨next, text, count⟩ := opened.advance part
      obtain ⟨texts, counts⟩ := ih next
      rw [List.foldl_cons, List.flatMap_cons, texts, counts, text, count, List.append_assoc]
      refine ⟨rfl, ?_⟩
      cases part with
      | inl text => rfl
      | inr tag =>
          rw [tagCount, MaskState.advance]
          cases state.drawing <;> simp [Nat.add_assoc]

/-- A property of the pieces that a drawing keeps while it grows holds of all pieces. -/
theorem foldl_advance_pieces {holds : MaskPiece → Prop}
    (grows : ∀ last text, last.isTag = true → holds last →
      holds { last with text := last.text ++ text })
    {state : MaskState} (opened : state.Opened) (all : ∀ piece ∈ state.pieces, holds piece)
    {parts : List (Str ⊕ Str)} (fresh : ∀ part ∈ parts, holds ⟨part.isRight, Pattern.readText part⟩) :
    ∀ piece ∈ (parts.foldl MaskState.advance state).pieces, holds piece := by
  induction parts generalizing state with
  | nil => exact all
  | cons part parts ih =>
      rw [List.forall_mem_cons] at fresh
      refine ih (opened.advance part).1 ?_ fresh.2
      have added (isTag : Bool) (text : Str) (first : holds ⟨isTag, text⟩) :
          ∀ piece ∈ state.add isTag text, holds piece := by
        rcases opened.add isTag text with ⟨_, same⟩ | ⟨_, last, others, tagged, pieces, same⟩
        · rw [same]
          exact List.forall_mem_cons.mpr ⟨first, all⟩
        · rw [pieces, List.forall_mem_cons] at all
          rw [same]
          exact List.forall_mem_cons.mpr ⟨grows last text tagged all.1, all.2⟩
      cases part with
      | inl text => exact added false text fresh.1
      | inr tag => exact added true tag fresh.1

theorem opened_start : (⟨[], false⟩ : MaskState).Opened := fun drawing => by cases drawing

/-- The pieces of a text are the text. -/
theorem maskPieces_text (s : Str) (ass : Bool) :
    (maskPieces s ass).flatMap MaskPiece.text = s := by
  have whole := (foldl_advance opened_start (maskParts s ass)).1
  rw [maskParts, Pattern.parts_scan_captured (maskRe_ends ass).1] at whole
  exact whole

theorem maskPieces_count (s : Str) (ass : Bool) :
    (maskPieces s ass).countP MaskPiece.isTag = tagCount false (maskParts s ass) := by
  have count := (foldl_advance opened_start (maskParts s ass)).2
  rw [maskPieces, List.countP_reverse]
  exact count.trans (Nat.zero_add _)

/-- Text pieces are free of reserved characters. -/
theorem maskPieces_clean (s : Str) (ass : Bool) : ∀ piece ∈ maskPieces s ass, CleanPiece piece := by
  intro piece member
  refine foldl_advance_pieces (fun last text tagged _ untagged => ?_) opened_start
    (List.forall_mem_nil _) (fun part inParts untagged => ?_) piece (List.mem_reverse.mp member)
  · rw [show last.isTag = false from untagged] at tagged
    cases tagged
  · cases part with
    | inl text =>
        exact ((of_mem_parts_scan (maskRe_ends ass) (maskRe_masksReserved ass) inParts).1 text
          rfl).2
    | inr tag => cases untagged

/-- The number of sentinels that `int` converts. -/
def FewTags (s : Str) (ass : Bool) : Prop := tagCount false (maskParts s ass) ≤ 10 ^ maxStrDigits

theorem convertible_decimal (k : Nat) : Convertible (decimal k) ↔ k < 10 ^ maxStrDigits := by
  rw [Convertible, decimal_length_le_iff]

/-- The masked text has the numbers of its tags in order. -/
theorem findall_assemble (s : Str) (ass : Bool) :
    sentinelRe.findall (assemble 0 (maskPieces s ass)).1 =
      (List.range (tagCount false (maskParts s ass))).map decimal := by
  rw [Pattern.findall, scan_assemble 0 (maskPieces_clean s ass), getRight_readPieces,
    maskPieces_count, List.range_eq_range']

theorem readable_assemble (s : Str) (ass : Bool) :
    ReadableSentinels (assemble 0 (maskPieces s ass)).1 ↔ FewTags s ass := by
  rw [ReadableSentinels, findall_assemble, FewTags]
  simp only [List.forall_mem_map, List.mem_range, convertible_decimal]
  constructor
  · intro all
    by_contra many
    exact absurd (all (10 ^ maxStrDigits) (by omega)) (Nat.lt_irrefl _)
  · intro few k small
    omega

/-- The masked text is the source again when its tags are restored. -/
theorem unmask_assemble (s : Str) (ass : Bool) :
    (sentinelRe.scan (assemble 0 (maskPieces s ass)).1).flatMap
      (unmaskText (assemble 0 (maskPieces s ass)).2) = s := by
  rw [scan_assemble 0 (maskPieces_clean s ass), assemble_tags]
  exact (unmask_readPieces [] (maskPieces s ass)).trans (maskPieces_text s ass)

/-- No bracket is left of a masked text without its sentinels. -/
theorem removeSentinels_assemble (s : Str) (ass : Bool) :
    ∀ c ∈ removeSentinels (assemble 0 (maskPieces s ass)).1, isReserved c = false := by
  have texts (k : Nat) (pieces : List MaskPiece) (clean : ∀ piece ∈ pieces, CleanPiece piece) :
      ∀ c ∈ (readPieces k pieces).flatMap (Sum.elim (fun c => [c]) fun _ => []),
        isReserved c = false := by
    induction pieces generalizing k with
    | nil => simp [readPieces]
    | cons piece pieces ih =>
        rw [List.forall_mem_cons] at clean
        rw [readPieces]
        cases tagged : piece.isTag with
        | true => exact ih (k + 1) clean.2
        | false =>
            rw [if_neg Bool.false_ne_true, List.flatMap_append, List.flatMap_map]
            refine List.forall_mem_append.mpr ⟨fun c member => ?_, ih k clean.2⟩
            obtain ⟨d, inText, same⟩ := List.mem_flatMap.mp member
            rw [List.mem_singleton.mp same]
            exact clean.1 tagged d inText
  rw [removeSentinels, Pattern.sub, scan_assemble 0 (maskPieces_clean s ass)]
  exact texts 0 _ (maskPieces_clean s ass)

/-- Masking can be undone: the masked text is texts without reserved characters between the
sentinels of its tags in order, it matches itself, and restoring its tags gives the source. -/
def MaskInverts (s : Str) (ass : Bool) : Prop :=
  ∃ masked tags, maskTags s ass none = .ok (masked, tags) ∧ unmaskTags masked tags = .ok s ∧
    (∃ first texts, masked = woven 0 first texts ∧ texts.length = tags.length ∧
      ∀ text ∈ first :: texts, ∀ c ∈ text, isReserved c = false) ∧
    sentinelRe.findall masked = (List.range tags.length).map decimal ∧
    placeholdersMatch masked masked = .ok true

/-- A text with readable sentinels and no stray bracket matches itself. -/
theorem placeholdersMatch_self {s : Str} (readable : ReadableSentinels s)
    (free : ∀ c ∈ removeSentinels s, isReserved c = false) : placeholdersMatch s s = .ok true := by
  rcases sentinelNumbers_cases s with ⟨_, numbers, found⟩ | ⟨unreadable, _⟩
  · have brackets (c : CodePoint) (member : c ∈ removeSentinels s) :
        isOpening c = false ∧ isClosing c = false := clean_of_not_reserved (free c member)
    have opening : (removeSentinels s).any isOpening = false :=
      List.any_eq_false.mpr fun c member => by simp [(brackets c member).1]
    have closing : (removeSentinels s).any isClosing = false :=
      List.any_eq_false.mpr fun c member => by simp [(brackets c member).2]
    rw [placeholdersMatch, found]
    simp only [bind, Except.bind, List.isPerm_iff.mpr (List.Perm.refl numbers), if_true, opening,
      closing]
    rfl
  · exact absurd readable unreadable

/-- Masking can be undone exactly when the drawing modes and the numbers of the tags are readable. -/
theorem masking_inverts_iff (s : Str) (ass : Bool) :
    MaskInverts s ass ↔ ReadableTags s ass ∧ FewTags s ass := by
  constructor
  · rintro ⟨masked, tags, masks, unmasks, _⟩
    obtain ⟨readable, same⟩ := maskTags_eq.mp masks
    obtain ⟨rfl, rfl⟩ := Prod.ext_iff.mp same
    exact ⟨readable, (readable_assemble s ass).mp (unmaskTags_eq.mp unmasks).1⟩
  · rintro ⟨readable, few⟩
    have sentinels := (readable_assemble s ass).mpr few
    obtain ⟨first, texts, same, lengths, free⟩ := assemble_woven 0 (maskPieces_clean s ass)
    refine ⟨_, _, maskTags_eq.mpr ⟨readable, rfl⟩,
      unmaskTags_eq.mpr ⟨sentinels, (unmask_assemble s ass).symm⟩, ⟨first, texts, same, lengths, free⟩,
      ?_, placeholdersMatch_self sentinels (removeSentinels_assemble s ass)⟩
    rw [findall_assemble, ← maskPieces_count, assemble_tags, List.length_map,
      List.countP_eq_length_filter]

/-- An override block is masked as a whole. -/
theorem match_override {body : Str} (inside : ∀ c ∈ body, (c != 0x7d) = true) (ass : Bool) :
    (maskRe ass).match? (0x7b :: (body ++ [0x7d])) = some ((), []) := by
  have element : elementRe.match? (0x7b :: (body ++ [0x7d])) = none := by
    rw [elementRe, Pattern.match?_one_bind, if_neg (by decide)]
  have karaoke : karaokeRe.match? (0x7b :: (body ++ [0x7d])) = none := by
    rw [karaokeRe, Pattern.match?_one_bind, if_neg (by decide)]
  have block : overrideRe.match? (0x7b :: (body ++ [0x7d])) = some ((), []) := by
    rw [overrideRe, Pattern.match?_one_bind, if_pos (by decide)]
    refine Pattern.match?_many_bind_run inside ?_ ?_
    · intro c front
      cases front
      decide
    · rw [Pattern.match?_one_bind, if_pos (by decide)]
      rfl
  rw [maskRe, tagAlt, Pattern.match?_either, Pattern.match?_either, Pattern.match?_either, element,
    karaoke, block]
  rfl

/-- A block that sets one drawing mode. -/
def drawingBlock (digits : Str) : Str := 0x7b :: (0x5c :: 0x70 :: digits ++ [0x7d])

theorem findall_drawingBlock {digits : Str} (nonempty : digits ≠ [])
    (decimals : ∀ c ∈ digits, isDecimal c = true) :
    drawingRe.findall (drawingBlock digits) = [digits] := by
  have matched : drawingRe.match? (0x5c :: (0x70 :: digits ++ [0x7d])) = some (digits, [0x7d]) := by
    rw [drawingRe, Pattern.match?_one_bind, if_pos (by decide), List.cons_append,
      Pattern.match?_one_bind, if_pos (by decide), ← bind_pure (Pattern.many1 isDecimal)]
    refine Pattern.match?_many1_bind_run nonempty decimals ?_ rfl
    intro c front
    cases front
    decide
  have before : drawingRe.match? (drawingBlock digits) = none := by
    rw [drawingBlock, drawingRe, Pattern.match?_one_bind, if_neg (by decide)]
  rw [Pattern.findall, drawingBlock, Pattern.scan_cons_of_none before]
  rw [List.cons_append, Pattern.scan_cons_of_some matched]
  have after : Pattern.scan drawingRe [0x7d] = [.inl 0x7d] :=
    Pattern.scan_cons_of_none (by rw [drawingRe, Pattern.match?_one_bind, if_neg (by decide)])
  rw [after]
  rfl

/-- A text with a long drawing mode is not masked. -/
theorem not_readableTags_drawingBlock {digits : Str}
    (decimals : ∀ c ∈ digits, isDecimal c = true) (long : ¬Convertible digits) (ass : Bool) :
    ¬ReadableTags (drawingBlock digits) ass := by
  have nonempty : digits ≠ [] := by
    rintro rfl
    exact long (Nat.zero_le _)
  have inside : ∀ c ∈ 0x5c :: 0x70 :: digits, (c != 0x7d) = true := by
    refine List.forall_mem_cons.mpr ⟨by decide, List.forall_mem_cons.mpr ⟨by decide, ?_⟩⟩
    intro c member
    rw [bne_iff_ne]
    rintro rfl
    exact absurd (decimals _ member) (by decide)
  have parts : maskParts (drawingBlock digits) ass = [.inr (drawingBlock digits)] := by
    have matched : (Pattern.captured (maskRe ass)).match? (drawingBlock digits) =
        some (drawingBlock digits, []) := by
      rw [Pattern.match?_captured, drawingBlock, match_override inside]
      simp
    rw [maskParts, drawingBlock]
    have scanned := @Pattern.scan_cons_of_some _ _ (Pattern.captured (maskRe ass)) 0x7b
      (0x5c :: 0x70 :: digits ++ [0x7d]) [] (drawingBlock digits)
      (by rw [List.append_nil]; exact matched)
    rw [List.append_nil] at scanned
    rw [scanned]
    rfl
  intro readable
  have tag := readable (.inr (drawingBlock digits)) (by rw [parts]; exact List.mem_singleton_self _)
    (drawingBlock digits) rfl rfl digits (by rw [findall_drawingBlock nonempty decimals]; rfl)
  exact long tag

/-- A drawing mode of 4301 digits ends the job. -/
theorem long_drawing_mode_is_not_masked :
    maskTags (drawingBlock longNumber) false none = .error .value ∧
      ¬∀ (s : Str) (ass : Bool), MaskInverts s ass := by
  have unreadable : ¬ReadableTags (drawingBlock longNumber) false :=
    not_readableTags_drawingBlock (fun c member => by
      rw [List.eq_of_mem_replicate member]
      decide) longNumber_long false
  refine ⟨maskTags_refused unreadable, fun claim => ?_⟩
  obtain ⟨masked, tags, masks, _⟩ := claim (drawingBlock longNumber) false
  exact unreadable (maskTags_eq.mp masks).1

end SubtitleTranslator.Engine
