import SubtitleTranslator.Proof.Sentinels

namespace SubtitleTranslator.Engine
open Library Library.Text

/-- A visible character is no whitespace. -/
def Visible (c : CodePoint) : Prop := isSpace c = false

theorem isSpace_of_isReserved {c : CodePoint} (reserved : isReserved c = true) : Visible c := by
  simp only [isReserved, isOpening, isClosing, isPlaceholder, Bool.or_eq_true, Bool.and_eq_true,
    decide_eq_true_eq, beq_iff_eq] at reserved
  rcases reserved with (rfl | rfl) | range
  · rfl
  · rfl
  · simp only [Visible, isSpace, Bool.or_eq_false_iff, Bool.and_eq_false_iff,
      decide_eq_false_iff_not, beq_eq_false_iff_ne]
    omega

/-- A class of one character has only that character. -/
theorem of_one {kind : CodePoint → Prop} {value : CodePoint} (holds : kind value) (c : CodePoint)
    (same : (c == value) = true) : kind c := by
  rw [beq_iff_eq] at same
  exact same ▸ holds

/-- A class of two characters has only these. -/
theorem of_one_or {kind : CodePoint → Prop} {first second : CodePoint} (holdsFirst : kind first)
    (holdsSecond : kind second) (c : CodePoint) (same : (c == first || c == second) = true) :
    kind c := by
  rw [Bool.or_eq_true, beq_iff_eq, beq_iff_eq] at same
  rcases same with rfl | rfl
  · exact holdsFirst
  · exact holdsSecond

theorem karaokeHours_suffixes :
    (do let _ ← .many1 isDecimal; .one (· == 0x3a) : Pattern CodePoint CodePoint).Suffixes :=
  (Pattern.suffixes_many1 _).bind fun _ => Pattern.suffixes_one _

section Kinds
variable {kind : CodePoint → Prop}

theorem elementRe_starts (first : kind 0x3c) : elementRe.Starts kind :=
  (Pattern.starts_one (of_one first)).bind fun _ =>
    (Pattern.suffixes_one _).optional.bind fun _ => (Pattern.suffixes_one _).bind fun _ =>
      (Pattern.suffixes_many _).bind fun _ => (Pattern.suffixes_one _).bind fun _ =>
        Pattern.suffixes_pure ()

theorem elementRe_ends (last : kind 0x3e) : elementRe.Ends kind :=
  Pattern.Ends.bind (Pattern.suffixes_one _) fun _ =>
    Pattern.Ends.bind (Pattern.suffixes_one _).optional fun _ =>
      Pattern.Ends.bind (Pattern.suffixes_one _) fun _ =>
        Pattern.Ends.bind (Pattern.suffixes_many _) fun _ =>
          Pattern.ends_one_pure (of_one last) ()

theorem karaokeRe_starts (first : kind 0x3c) : karaokeRe.Starts kind :=
  (Pattern.starts_one (of_one first)).bind fun _ =>
    karaokeHours_suffixes.optional.bind fun _ => (Pattern.suffixes_between _ 1 2).bind fun _ =>
      (Pattern.suffixes_one _).bind fun _ => (Pattern.suffixes_exactly _ 2).bind fun _ =>
        (Pattern.suffixes_one _).bind fun _ => (Pattern.suffixes_between _ 1 3).bind fun _ =>
          (Pattern.suffixes_one _).bind fun _ => Pattern.suffixes_pure ()

theorem karaokeRe_ends (last : kind 0x3e) : karaokeRe.Ends kind :=
  Pattern.Ends.bind (Pattern.suffixes_one _) fun _ =>
    Pattern.Ends.bind karaokeHours_suffixes.optional fun _ =>
      Pattern.Ends.bind (Pattern.suffixes_between _ 1 2) fun _ =>
        Pattern.Ends.bind (Pattern.suffixes_one _) fun _ =>
          Pattern.Ends.bind (Pattern.suffixes_exactly _ 2) fun _ =>
            Pattern.Ends.bind (Pattern.suffixes_one _) fun _ =>
              Pattern.Ends.bind (Pattern.suffixes_between _ 1 3) fun _ =>
                Pattern.ends_one_pure (of_one last) ()

theorem overrideRe_starts (first : kind 0x7b) : overrideRe.Starts kind :=
  (Pattern.starts_one (of_one first)).bind fun _ =>
    (Pattern.suffixes_many _).bind fun _ => (Pattern.suffixes_one _).bind fun _ =>
      Pattern.suffixes_pure ()

theorem overrideRe_ends (last : kind 0x7d) : overrideRe.Ends kind :=
  Pattern.Ends.bind (Pattern.suffixes_one _) fun _ =>
    Pattern.Ends.bind (Pattern.suffixes_many _) fun _ => Pattern.ends_one_pure (of_one last) ()

theorem escapeRe_starts (first : kind 0x5c) : escapeRe.Starts kind :=
  (Pattern.starts_one (of_one first)).bind fun _ =>
    (Pattern.suffixes_one _).bind fun _ => Pattern.suffixes_pure ()

theorem escapeRe_ends (hard : kind 0x68) (soft : kind 0x6e) : escapeRe.Ends kind :=
  Pattern.Ends.bind (Pattern.suffixes_one _) fun _ =>
    Pattern.ends_one_pure (of_one_or hard soft) ()

theorem reservedRe_starts (reserved : ∀ c, isReserved c = true → kind c) : reservedRe.Starts kind :=
  (Pattern.starts_one reserved).bind fun _ => Pattern.suffixes_pure ()

theorem reservedRe_ends (reserved : ∀ c, isReserved c = true → kind c) : reservedRe.Ends kind :=
  Pattern.ends_one_pure reserved ()

theorem tagAlt_ends (angle : kind 0x3e) (brace : kind 0x7d) : tagAlt.Ends kind :=
  (elementRe_ends angle).either ((karaokeRe_ends angle).either (overrideRe_ends brace))

/-- Whatever is masked starts with `<`, `{`, a backslash or a reserved character. -/
theorem maskRe_starts (angle : kind 0x3c) (brace : kind 0x7b) (backslash : kind 0x5c)
    (reserved : ∀ c, isReserved c = true → kind c) (ass : Bool) : (maskRe ass).Starts kind := by
  have tags : tagAlt.Starts kind :=
    (elementRe_starts angle).either ((karaokeRe_starts angle).either (overrideRe_starts brace))
  cases ass with
  | true => exact tags.either ((escapeRe_starts backslash).either (reservedRe_starts reserved))
  | false => exact tags.either (reservedRe_starts reserved)

end Kinds

/-- Whatever is masked starts and ends with a visible character. -/
theorem maskRe_ends (ass : Bool) : (maskRe ass).Starts Visible ∧ (maskRe ass).Ends Visible := by
  have reserved : reservedRe.Ends Visible := reservedRe_ends fun _ => isSpace_of_isReserved
  have tags : tagAlt.Ends Visible := tagAlt_ends (by rfl) (by rfl)
  refine ⟨maskRe_starts (by rfl) (by rfl) (by rfl) (fun _ => isSpace_of_isReserved) ass, ?_⟩
  cases ass with
  | true => exact tags.either ((escapeRe_ends (by rfl) (by rfl)).either reserved)
  | false => exact tags.either reserved

/-- A pattern that masks the reserved characters. -/
def MasksReserved (x : Pattern CodePoint Unit) : Prop :=
  ∀ c rest, isReserved c = true → x (c :: rest) ≠ []

theorem reservedRe_masksReserved : MasksReserved reservedRe := by
  intro c rest reserved missed
  have inside : ((), rest) ∈ reservedRe (c :: rest) :=
    Pattern.mem_bind.mpr ⟨(c, rest), Pattern.mem_one.mpr ⟨rfl, reserved⟩, Pattern.mem_pure.mpr rfl⟩
  rw [missed] at inside
  cases inside

theorem maskRe_masksReserved (ass : Bool) : MasksReserved (maskRe ass) := by
  intro c rest reserved missed
  refine reservedRe_masksReserved c rest reserved ?_
  have right := (List.append_eq_nil_iff.mp missed).2
  cases ass with
  | true => exact (List.append_eq_nil_iff.mp right).2
  | false => exact right

/-- The parts of a masking scan: texts without reserved characters, and solid matches. -/
theorem of_mem_parts_scan {x : Pattern CodePoint Unit}
    (ends : x.Starts Visible ∧ x.Ends Visible) (masks : MasksReserved x) {s : Str}
    {part : Str ⊕ Str} (member : part ∈ Pattern.parts (Pattern.captured x |>.scan s)) :
    (∀ text, part = .inl text → text ≠ [] ∧ ∀ c ∈ text, isReserved c = false) ∧
      ∀ tag, part = .inr tag → Solid tag := by
  have consumes := ends.1.captured.consumes
  constructor
  · rintro text rfl
    obtain ⟨nonempty, outside⟩ := Pattern.of_inl_mem_parts member
    refine ⟨nonempty, fun c inText => ?_⟩
    obtain ⟨rest, unmatched⟩ := Pattern.of_inl_mem_scan consumes (outside c inText)
    rw [Pattern.match?_captured, Option.map_eq_none_iff, Pattern.match?, List.head?_eq_none_iff]
      at unmatched
    by_contra reserved
    exact masks c rest (by simpa using reserved) unmatched
  · rintro tag rfl
    obtain ⟨text, left, matched⟩ :=
      Pattern.of_inr_mem_scan consumes (Pattern.of_inr_mem_parts member)
    obtain ⟨_, front, back⟩ := Pattern.captured_ends ends.1 ends.2 matched
    exact ⟨front, back⟩

/-- Text pieces have no reserved characters. -/
def CleanPiece (piece : MaskPiece) : Prop :=
  piece.isTag = false → ∀ c ∈ piece.text, isReserved c = false

/-- Tag pieces start and end with a visible character. -/
def SolidPiece (piece : MaskPiece) : Prop := piece.isTag = true → Solid piece.text

/-- The pieces are clean; only a drawing that goes on may end with whitespace. -/
structure MaskState.Fits (state : MaskState) : Prop where
  clean : ∀ piece ∈ state.pieces, CleanPiece piece
  finished : ∀ piece ∈ state.pieces.tail, SolidPiece piece
  latest : ∀ piece ∈ state.pieces.head?, state.drawing = false → SolidPiece piece
  drawn : state.drawing = true → ∃ piece ∈ state.pieces.head?, piece.isTag = true ∧
    ∃ c ∈ piece.text.head?, Visible c

/-- Every tag piece of the state is solid. -/
def MaskState.Solid (state : MaskState) : Prop := ∀ piece ∈ state.pieces, SolidPiece piece

theorem forall_mem_of_head_tail {α : Type} {property : α → Prop} {xs : List α}
    (head : ∀ x ∈ xs.head?, property x) (tail : ∀ x ∈ xs.tail, property x) :
    ∀ x ∈ xs, property x := by
  cases xs with
  | nil => exact nofun
  | cons x xs => exact List.forall_mem_cons.mpr ⟨head x rfl, tail⟩

theorem solid_append {front back : Str} (starts : ∃ c ∈ front.head?, Visible c)
    (ends : ∃ c ∈ back.getLast?, Visible c) : Solid (front ++ back) := by
  obtain ⟨first, isFirst, seenFirst⟩ := starts
  obtain ⟨last, isLast, seenLast⟩ := ends
  refine ⟨⟨first, ?_, seenFirst⟩, last, ?_, seenLast⟩
  · rw [List.head?_append, isFirst]
    rfl
  · rw [List.getLast?_append, isLast]
    rfl

/-- Adding a text or a tag outside a drawing starts a piece, and inside one it grows the drawing. -/
theorem MaskState.Fits.add {state : MaskState} (before : state.Fits) (isTag : Bool) {text : Str}
    (clean : isTag = false → ∀ c ∈ text, isReserved c = false)
    (solid : isTag = true → Library.Text.Solid text) :
    (∀ piece ∈ state.add isTag text, CleanPiece piece) ∧
      (∀ piece ∈ (state.add isTag text).tail, SolidPiece piece) ∧
      (∀ piece ∈ (state.add isTag text).head?,
        (∃ c ∈ text.getLast?, Visible c) → SolidPiece piece) ∧
      (∀ piece ∈ (state.add isTag text).head?, state.drawing = false → SolidPiece piece) ∧
      ((state.drawing = true ∨ isTag = true) → ∃ piece ∈ (state.add isTag text).head?,
        piece.isTag = true ∧ ∃ c ∈ piece.text.head?, Visible c) := by
  obtain ⟨pieces, drawing⟩ := state
  cases drawing with
  | false =>
      have all : ∀ piece ∈ pieces, SolidPiece piece := by
        cases pieces with
        | nil => exact nofun
        | cons last others =>
            exact List.forall_mem_cons.mpr ⟨before.latest last rfl rfl, before.finished⟩
      refine ⟨List.forall_mem_cons.mpr ⟨clean, before.clean⟩, all, ?_, ?_, ?_⟩
      · rintro piece ⟨⟩ _
        exact solid
      · rintro piece ⟨⟩ _
        exact solid
      · rintro (impossible | tagged)
        · cases impossible
        · exact ⟨_, rfl, tagged, (solid tagged).front⟩
  | true =>
      obtain ⟨last, isLast, tagged, front⟩ := before.drawn rfl
      cases pieces with
      | nil => cases isLast
      | cons piece others =>
          cases isLast
          refine ⟨List.forall_mem_cons.mpr ⟨?_, ?_⟩, before.finished, ?_, nofun, ?_⟩
          · intro untagged
            rw [tagged] at untagged
            cases untagged
          · exact fun other member => before.clean other (List.mem_cons_of_mem _ member)
          · rintro _ ⟨⟩ back _
            exact solid_append front back
          · intro _
            refine ⟨_, rfl, tagged, ?_⟩
            obtain ⟨c, isFirst, seen⟩ := front
            refine ⟨c, ?_, seen⟩
            rw [List.head?_append, isFirst]
            rfl

/-- A part of the scan keeps the state, and closes it when the part ends visibly. -/
theorem MaskState.Fits.step {state next : MaskState} (before : state.Fits) {part : Str ⊕ Str}
    (texts : ∀ text, part = .inl text → text ≠ [] ∧ ∀ c ∈ text, isReserved c = false)
    (tags : ∀ tag, part = .inr tag → Library.Text.Solid tag)
    (stepped : state.step part = .ok next) :
    next.Fits ∧ ((∃ c ∈ (Pattern.readText part).getLast?, Visible c) → next.Solid) := by
  cases part with
  | inl text =>
      cases stepped
      obtain ⟨clean, finished, closed, latest, drawn⟩ :=
        before.add false (fun _ => (texts text rfl).2) nofun
      refine ⟨⟨clean, finished, latest, fun drawing => drawn (.inl drawing)⟩, fun back => ?_⟩
      exact forall_mem_of_head_tail (fun piece isLast => closed piece isLast back) finished
  | inr tag =>
      obtain ⟨drawing, decided, same⟩ := Fallible.bind_ok.mp stepped
      cases same
      have solid := tags tag rfl
      obtain ⟨clean, finished, closed, latest, drawn⟩ :=
        before.add true nofun fun _ => solid
      refine ⟨⟨clean, finished, fun piece isLast _ => closed piece isLast solid.back,
        fun _ => drawn (.inr rfl)⟩, fun _ => ?_⟩
      exact forall_mem_of_head_tail (fun piece isLast => closed piece isLast solid.back) finished

/-- The fold over the parts of a text keeps its pieces clean and solid. -/
theorem foldlM_step_fits {ass : Bool} {s : Str} {state : MaskState}
    (ends : ∀ c ∈ s.getLast?, Visible c)
    (ran : (Pattern.parts (Pattern.captured (maskRe ass) |>.scan s)).foldlM MaskState.step
      ⟨[], false⟩ = .ok state) :
    state.Fits ∧ state.Solid := by
  have spec (part : Str ⊕ Str)
      (member : part ∈ Pattern.parts (Pattern.captured (maskRe ass) |>.scan s)) :=
    of_mem_parts_scan (maskRe_ends ass) (maskRe_masksReserved ass) member
  have whole := Pattern.parts_scan_captured (maskRe_ends ass).1 s
  have start : MaskState.Fits ⟨[], false⟩ := ⟨nofun, nofun, nofun, nofun⟩
  rcases List.eq_nil_or_concat' (Pattern.parts (Pattern.captured (maskRe ass) |>.scan s)) with
    none_ | ⟨front, part, same⟩
  · rw [none_] at ran
    cases ran
    exact ⟨start, nofun⟩
  · rw [same] at ran whole
    obtain ⟨middle, early, stepped⟩ := Fallible.foldlM_concat.mp ran
    have before : middle.Fits :=
      Fallible.foldlM_invariant MaskState.Fits
        (fun _ part _ fits member moved => by
          have inside := spec part (same ▸ List.mem_append_left _ member)
          exact (fits.step inside.1 inside.2 moved).1) start early
    have inside := spec part (same ▸ List.mem_append_right _ (List.mem_singleton_self _))
    obtain ⟨fits, closes⟩ := before.step inside.1 inside.2 stepped
    refine ⟨fits, closes ?_⟩
    have nonempty : Pattern.readText part ≠ [] := by
      cases part with
      | inl text => exact (inside.1 text rfl).1
      | inr tag =>
          obtain ⟨c, isFirst, _⟩ := (inside.2 tag rfl).front
          intro empty
          change tag = [] at empty
          subst empty
          cases isFirst
    rw [List.flatMap_append, List.flatMap_singleton] at whole
    have last := List.getLast?_eq_some_getLast nonempty
    refine ⟨_, last, ends _ ?_⟩
    rw [← whole, List.getLast?_append, last]
    rfl

/-- A decoded piece is split into clean and solid pieces. -/
theorem decodePiece_fits (unescape : Str → Str) {piece : MaskPiece} (clean : CleanPiece piece)
    (solid : SolidPiece piece) :
    ∀ other ∈ decodePiece unescape piece, CleanPiece other ∧ SolidPiece other := by
  intro other member
  unfold decodePiece at member
  split at member
  · rw [List.mem_singleton] at member
    exact member ▸ ⟨clean, solid⟩
  · obtain ⟨part, inParts, rfl⟩ := List.mem_map.mp member
    have seen (c : CodePoint) (reserved : isReserved c = true) : Visible c :=
      isSpace_of_isReserved reserved
    have inside := of_mem_parts_scan ⟨reservedRe_starts seen, reservedRe_ends seen⟩
      reservedRe_masksReserved inParts
    cases part with
    | inl text => exact ⟨fun _ => (inside.1 text rfl).2, nofun⟩
    | inr tag => exact ⟨nofun, fun _ => inside.2 tag rfl⟩

/-- A masked text is spelled by clean tokens whose sentinels number its solid tags. -/
structure Masked (text : Str) (tags : List Str) : Prop where
  spelled : ∃ tokens : List Token, (∀ token ∈ tokens, token.Clean) ∧
    tokens.flatMap Token.text = text ∧
    (tokens.map Token.read).filterMap Sum.getRight? = (List.range tags.length).map decimal
  solid : ∀ tag ∈ tags, Solid tag

theorem sentinel_eq_text (k : Nat) : sentinel k = (Token.sentinel [] (decimal k) []).text := by
  simp [sentinel, Token.text]

theorem clean_decimal (k : Nat) : (Token.sentinel [] (decimal k) []).Clean :=
  ⟨nofun, decimal_ne_nil k, fun _ => isDecimal_of_mem_decimal, nofun⟩

theorem clean_of_not_reserved {c : CodePoint} (free : isReserved c = false) :
    (Token.char c).Clean := by
  rw [isReserved, Bool.or_eq_false_iff, Bool.or_eq_false_iff] at free
  exact free.1

/-- Assembled pieces are spelled by clean tokens whose numbers count up. -/
theorem assemble_spec (k : Nat) {pieces : List MaskPiece}
    (clean : ∀ piece ∈ pieces, CleanPiece piece) (solid : ∀ piece ∈ pieces, SolidPiece piece) :
    (∃ tokens : List Token, (∀ token ∈ tokens, token.Clean) ∧
      tokens.flatMap Token.text = (assemble k pieces).1 ∧
      (tokens.map Token.read).filterMap Sum.getRight? =
        (List.range' k (assemble k pieces).2.length).map decimal) ∧
      ∀ tag ∈ (assemble k pieces).2, Solid tag := by
  induction pieces generalizing k with
  | nil => exact ⟨⟨[], nofun, rfl, rfl⟩, nofun⟩
  | cons piece pieces ih =>
      rw [List.forall_mem_cons] at clean solid
      rw [assemble]
      cases tagged : piece.isTag with
      | true =>
          obtain ⟨⟨tokens, allClean, texts, numbers⟩, tags⟩ := ih (k + 1) clean.2 solid.2
          rw [if_pos rfl]
          refine ⟨⟨.sentinel [] (decimal k) [] :: tokens,
            List.forall_mem_cons.mpr ⟨clean_decimal k, allClean⟩, ?_, ?_⟩,
            List.forall_mem_cons.mpr ⟨solid.1 tagged, tags⟩⟩
          · rw [List.flatMap_cons, texts, sentinel_eq_text]
          · rw [List.map_cons, List.length_cons, List.range'_succ, List.map_cons, ← numbers]
            rfl
      | false =>
          obtain ⟨⟨tokens, allClean, texts, numbers⟩, tags⟩ := ih k clean.2 solid.2
          rw [if_neg Bool.false_ne_true]
          refine ⟨⟨piece.text.map Token.char ++ tokens, ?_, ?_, ?_⟩, tags⟩
          · intro token member
            rcases List.mem_append.mp member with inText | later
            · obtain ⟨c, inPiece, rfl⟩ := List.mem_map.mp inText
              exact clean_of_not_reserved (clean.1 tagged c inPiece)
            · exact allClean token later
          · rw [List.flatMap_append, texts, List.flatMap_map]
            exact congrArg (· ++ _) (List.flatMap_singleton' piece.text)
          · rw [← numbers, List.map_append, List.filterMap_append, List.map_map]
            have none_ : (piece.text.map (Token.read ∘ Token.char)).filterMap Sum.getRight? = [] := by
              rw [List.filterMap_map]
              exact List.filterMap_eq_nil_iff.mpr fun c _ => rfl
            rw [none_, List.nil_append]

/-- A text that ends visibly is masked by its tags. -/
theorem maskTags_masked {s text : Str} {ass : Bool} {entities : Option (Str → Str)}
    {tags : List Str} (ends : ∀ c ∈ s.getLast?, Visible c)
    (masked : maskTags s ass entities = .ok (text, tags)) : Masked text tags := by
  obtain ⟨state, ran, same⟩ := Fallible.bind_ok.mp masked
  obtain ⟨fits, solid⟩ := foldlM_step_fits ends ran
  have assembled := Except.ok.inj same
  have pieces (piece : MaskPiece) (member : piece ∈ state.pieces.reverse) :
      CleanPiece piece ∧ SolidPiece piece := by
    rw [List.mem_reverse] at member
    exact ⟨fits.clean piece member, solid piece member⟩
  have spec : ∀ pieces : List MaskPiece, (∀ piece ∈ pieces, CleanPiece piece ∧ SolidPiece piece) →
      assemble 0 pieces = (text, tags) → Masked text tags := by
    intro pieces kept assembled
    obtain ⟨spelled, tagsSolid⟩ := assemble_spec 0 (fun piece member => (kept piece member).1)
      fun piece member => (kept piece member).2
    rw [assembled, ← List.range_eq_range'] at spelled
    rw [assembled] at tagsSolid
    exact ⟨spelled, tagsSolid⟩
  cases entities with
  | none => exact spec _ pieces assembled
  | some unescape =>
      refine spec _ (fun other member => ?_) assembled
      obtain ⟨piece, inState, inside⟩ := List.mem_flatMap.mp member
      obtain ⟨clean, isSolid⟩ := pieces piece inState
      exact decodePiece_fits unescape clean isSolid other inside

end SubtitleTranslator.Engine
