import SubtitleTranslator.Proof.WrapForm
import SubtitleTranslator.Proof.Wrapping

namespace SubtitleTranslator.Engine
open Library Library.Text

/-- A rebuilt line consists of restored tags and other characters. -/
inductive Piece where
  | tag (payload : Str)
  | char (c : CodePoint)

namespace Piece

def text : Piece → Str
  | tag payload => payload
  | char c => [c]

def tag? : Piece → Option Str
  | tag payload => some payload
  | char _ => none

def char? : Piece → Option CodePoint
  | tag _ => none
  | char c => some c

end Piece

/-- The tags of a line of pieces, in order. -/
def tagsOf (pieces : List Piece) : List Str := pieces.filterMap Piece.tag?

/-- The other characters of a line of pieces, without whitespace. -/
def textOf (pieces : List Piece) : Str := visible (pieces.filterMap Piece.char?)

/-- The tags of a segment in the order in which an output mentions their sentinels. -/
def mentionedTags (item : Segment × Str) : List Str :=
  match sentinelNumbers item.2 with
  | .ok numbers => numbers.filterMap (item.1.tags[·]?)
  | .error _ => []

/-- The text of one character in a dialect. -/
def spell (vtt : Bool) (c : CodePoint) : Str := if vtt then escapePoint c else [c]

/-- The dash of a segment and the plain characters of its output. -/
def ownText (vtt : Bool) (item : Segment × Str) : Str :=
  (if item.1.dashed then [0x2d] else []) ++ (plain (removeSentinels item.2)).flatMap (spell vtt)

/-- The pieces of a character of the wrap form. -/
def piecesOf (tags : List Str) (vtt : Bool) (c : CodePoint) : List Piece :=
  if isPlaceholder c then [.tag (tags[placeholderNumber c]?.getD [])]
  else (spell vtt c).map Piece.char

/-- Restoring a line is writing its pieces. -/
theorem fromWrapForm_pieces (s : Str) (tags : List Str) (vtt : Bool) :
    fromWrapForm s tags vtt = (s.flatMap (piecesOf tags vtt)).flatMap Piece.text := by
  rw [List.flatMap_assoc]
  apply List.flatMap_congr
  intro c _
  unfold restorePoint piecesOf
  split
  · exact (List.flatMap_singleton _ _).symm
  · rw [List.flatMap_map]
    exact (List.flatMap_singleton' _).symm

theorem tagsOf_append (first second : List Piece) :
    tagsOf (first ++ second) = tagsOf first ++ tagsOf second :=
  List.filterMap_append

theorem textOf_append (first second : List Piece) :
    textOf (first ++ second) = textOf first ++ textOf second := by
  rw [textOf, List.filterMap_append, visible_append, textOf, textOf]

/-- The tags of a restored line are those of its placeholders. -/
theorem tagsOf_pieces (s : Str) (tags : List Str) (vtt : Bool) :
    tagsOf (s.flatMap (piecesOf tags vtt)) = (marks s).map fun k => tags[k]?.getD [] := by
  induction s with
  | nil => rfl
  | cons c s ih =>
      rw [List.flatMap_cons, tagsOf_append, ih]
      unfold piecesOf marks
      cases mark : isPlaceholder c with
      | true =>
          rw [List.filter_cons_of_pos mark]
          rfl
      | false =>
          rw [List.filter_cons_of_neg (by simp [mark]), if_neg Bool.false_ne_true]
          have none_ : ((spell vtt c).map Piece.char).filterMap Piece.tag? = [] := by
            rw [List.filterMap_map]
            exact List.filterMap_eq_nil_iff.mpr fun _ _ => rfl
          rw [tagsOf, none_]
          rfl

theorem visible_spell_of_space (vtt : Bool) {c : CodePoint} (space : isSpace c = true) :
    visible (spell vtt c) = [] := by
  have plainSpell : spell vtt c = [c] := by
    unfold spell escapePoint
    split
    · split_ifs with amp less greater
      · subst amp
        cases space
      · subst less
        cases space
      · subst greater
        cases space
      · rfl
    · rfl
  rw [plainSpell]
  simp [visible, space]

theorem visible_spell_of_not_space (vtt : Bool) {c : CodePoint} (seen : isSpace c = false) :
    visible (spell vtt c) = spell vtt c := by
  unfold spell escapePoint
  split
  · split_ifs with amp less greater
    · decide
    · decide
    · decide
    · simp [visible, seen]
  · simp [visible, seen]

/-- The text of a restored line is that of its plain characters. -/
theorem textOf_pieces (s : Str) (tags : List Str) (vtt : Bool) :
    textOf (s.flatMap (piecesOf tags vtt)) = (plain s).flatMap (spell vtt) := by
  induction s with
  | nil => rfl
  | cons c s ih =>
      rw [List.flatMap_cons, textOf_append, ih]
      unfold piecesOf plain
      cases mark : isPlaceholder c with
      | true =>
          rw [List.filter_cons_of_neg (by simp [isPlain, mark])]
          rfl
      | false =>
          have chars : ((spell vtt c).map Piece.char).filterMap Piece.char? = spell vtt c := by
            rw [List.filterMap_map]
            exact List.filterMap_some
          rw [if_neg Bool.false_ne_true, textOf, chars]
          cases space : isSpace c with
          | true =>
              rw [List.filter_cons_of_neg (by simp [isPlain, space]),
                visible_spell_of_space vtt space, List.nil_append]
          | false =>
              rw [List.filter_cons_of_pos (by simp [isPlain, space, mark]), List.flatMap_cons,
                visible_spell_of_not_space vtt space]

/-- The lines of a cue restore exactly the tags and the text of its items. -/
def Faithful (vtt : Bool) (items : List (Segment × Str)) (lines : List Str) : Prop :=
  ∃ pieces : List (List Piece), lines = pieces.map (·.flatMap Piece.text) ∧
    tagsOf pieces.flatten = items.flatMap mentionedTags ∧
    textOf pieces.flatten = items.flatMap (ownText vtt) ∧
    ∀ item ∈ items, (mentionedTags item).Perm item.1.tags

/-- An item is the segment of a job with a valid output. -/
structure ItemFits (item : Segment × Str) : Prop where
  masked : Masked item.1.text item.1.tags
  few : item.1.tags.length ≤ placeholderCount
  valid : ValidOutput item.1 item.2

/-- Numbers below the number of tags name tags. -/
theorem map_getD_eq {tags : List Str} {numbers : List Nat}
    (small : ∀ k ∈ numbers, k < tags.length) :
    numbers.map (fun k => tags[k]?.getD []) = numbers.filterMap (tags[·]?) := by
  induction numbers with
  | nil => rfl
  | cons k numbers ih =>
      rw [List.forall_mem_cons] at small
      rw [List.map_cons, ih small.2, List.filterMap_cons, List.getElem?_eq_getElem small.1]
      rfl

/-- The wrap form of an item has the mentioned tags and the plain text of the output. -/
theorem ItemFits.wrapForm {item : Segment × Str} (fits : ItemFits item) :
    ∃ s, toWrapForm item.2 item.1.tags = .ok s ∧
      (marks s).map (fun k => item.1.tags[k]?.getD []) = mentionedTags item ∧
      plain s = plain (removeSentinels item.2) ∧
      (∀ k ∈ marks s, k < item.1.tags.length) ∧ (mentionedTags item).Perm item.1.tags := by
  obtain ⟨numbers, mentioned⟩ := fits.valid.wellMentioned fits.masked
    (fits.few.trans (by decide))
  obtain ⟨s, wrapped, marked, kept⟩ := toWrapForm_spec fits.few mentioned
  have small (k : Nat) (member : k ∈ numbers) : k < item.1.tags.length :=
    List.mem_range.mp (mentioned.all.mem_iff.mp member)
  have mentions : mentionedTags item = numbers.filterMap (item.1.tags[·]?) := by
    rw [mentionedTags, mentioned.read]
  refine ⟨s, wrapped, ?_, kept, ?_, ?_⟩
  · rw [marked, mentions, map_getD_eq small]
  · rw [marked]
    exact small
  · rw [mentions]
    refine (mentioned.all.filterMap _).trans ?_
    rw [← map_getD_eq fun k member => List.mem_range.mp member]
    apply List.Perm.of_eq
    apply List.ext_getElem
    · simp
    · intro k inMap inTags
      simp [List.getElem?_eq_getElem inTags]

theorem spell_dash (vtt : Bool) : spell vtt 0x2d = [0x2d] := by
  cases vtt <;> decide

/-- The dash of a body goes before its plain characters. -/
theorem dashBody_spec (seg : Segment) {body : List Str} (nonempty : body ≠ []) :
    marks (dashBody seg body).flatten = marks body.flatten ∧
      plain (dashBody seg body).flatten =
        (if seg.dashed then [0x2d] else []) ++ plain body.flatten := by
  cases body with
  | nil => exact absurd rfl nonempty
  | cons first body =>
      obtain ⟨marked, kept⟩ := withDash_spec first seg.dashInside
      rw [dashBody]
      split
      · rw [List.flatten_cons, List.flatten_cons, marks_append, marks_append, plain_append,
          plain_append, marked, kept]
        exact ⟨rfl, rfl⟩
      · exact ⟨rfl, rfl⟩

theorem ownText_eq (vtt : Bool) (item : Segment × Str) :
    ((if item.1.dashed then [0x2d] else []) ++ plain (removeSentinels item.2)).flatMap (spell vtt) =
      ownText vtt item := by
  rw [List.flatMap_append, ownText]
  split
  · rw [List.flatMap_singleton, spell_dash]
  · rfl

section Rebuild
variable (wide : CodePoint → Bool) (target : Language) (width : ℚ) (maxLines : Nat)

theorem wrapText_visible (s : Str) :
    visible (wrapText wide target width maxLines s).flatten = visible s := by
  unfold wrapText
  split
  · exact wrapCjk_visible wide s width maxLines
  · exact wrapLatin_visible wide s _ maxLines

theorem wrapText_ne_nil (s : Str) : wrapText wide target width maxLines s ≠ [] := by
  unfold wrapText
  split
  · exact wrapCjk_ne_nil wide s width maxLines
  · exact wrapLatin_ne_nil wide s _ maxLines

/-- A cue with one segment is rewritten faithfully. -/
theorem wrappedLines_faithful (vtt : Bool) {item : Segment × Str} (fits : ItemFits item) :
    ∃ lines, wrappedLines wide target width maxLines vtt item = .ok lines ∧
      Faithful vtt [item] lines := by
  obtain ⟨s, wrapped, mentioned, kept, _, perm⟩ := fits.wrapForm
  have body := wrapText_visible wide target width maxLines (strip s)
  rw [visible_strip] at body
  obtain ⟨dashMarks, dashPlain⟩ :=
    dashBody_spec item.1 (wrapText_ne_nil wide target width maxLines (strip s))
  rw [marks_of_visible body] at dashMarks
  rw [plain_of_visible body] at dashPlain
  generalize lines : dashBody item.1 (wrapText wide target width maxLines (strip s)) = dashed
    at dashMarks dashPlain
  have flat : (dashed.map fun line => line.flatMap (piecesOf item.1.tags vtt)).flatten =
      dashed.flatten.flatMap (piecesOf item.1.tags vtt) := by
    clear lines dashMarks dashPlain
    induction dashed with
    | nil => rfl
    | cons line dashed ih =>
        rw [List.map_cons, List.flatten_cons, List.flatten_cons, List.flatMap_append, ih]
  refine ⟨dashed.map fun line => fromWrapForm line item.1.tags vtt, ?_,
    dashed.map fun line => line.flatMap (piecesOf item.1.tags vtt), ?_, ?_, ?_, ?_⟩
  · rw [wrappedLines, wrapped, ← lines]
    rfl
  · rw [List.map_map]
    exact List.map_congr_left fun line _ => fromWrapForm_pieces line item.1.tags vtt
  · rw [flat, tagsOf_pieces, dashMarks, mentioned, List.flatMap_singleton]
  · rw [flat, textOf_pieces, dashPlain, kept, ownText_eq, List.flatMap_singleton]
  · rw [List.forall_mem_singleton]
    exact perm

/-- The text of a character of the wrap form is its own whitespace or solid. -/
theorem restorePoint_solid {tags : List Str} (solid : ∀ tag ∈ tags, Solid tag) (vtt : Bool)
    {c : CodePoint} (small : isPlaceholder c = true → placeholderNumber c < tags.length)
    (seen : isSpace c = false) : Solid (restorePoint tags vtt c) := by
  unfold restorePoint
  split
  · rename_i mark
    rw [List.getElem?_eq_getElem (small mark)]
    exact solid _ (List.getElem_mem _)
  · have alone : Solid [c] := ⟨⟨c, rfl, seen⟩, c, rfl, seen⟩
    split
    · unfold escapePoint
      split_ifs
      · exact ⟨⟨0x26, by decide, by decide⟩, 0x3b, by decide, by decide⟩
      · exact ⟨⟨0x26, by decide, by decide⟩, 0x3b, by decide, by decide⟩
      · exact ⟨⟨0x26, by decide, by decide⟩, 0x3b, by decide, by decide⟩
      · exact alone
    · exact alone

theorem restorePoint_of_space (tags : List Str) (vtt : Bool) {c : CodePoint}
    (space : isSpace c = true) : ∀ d ∈ restorePoint tags vtt c, isSpace d = true := by
  have unseen := visible_spell_of_space vtt space
  unfold restorePoint
  rw [isPlaceholder_of_isSpace space, if_neg Bool.false_ne_true]
  intro d member
  by_contra seen
  exact visible_ne_nil (s := spell vtt c) member (by simpa using seen) unseen

/-- Stripping a restored line strips its wrap form. -/
theorem strip_fromWrapForm {s : Str} {tags : List Str} (vtt : Bool)
    (solid : ∀ tag ∈ tags, Solid tag) (small : ∀ k ∈ marks s, k < tags.length) :
    strip (fromWrapForm s tags vtt) = fromWrapForm (strip s) tags vtt := by
  apply strip_flatMap
  · exact fun c _ space => restorePoint_of_space tags vtt space
  · intro c member seen
    refine restorePoint_solid solid vtt (fun mark => small _ ?_) seen
    exact List.mem_map_of_mem (List.mem_filter.mpr ⟨member, mark⟩)

/-- A line of a speaker pair is rewritten faithfully. -/
theorem speakerLine_faithful (vtt : Bool) {item : Segment × Str} (fits : ItemFits item) :
    ∃ line, speakerLine vtt item = .ok line ∧ ∃ pieces : List Piece,
      line = pieces.flatMap Piece.text ∧ tagsOf pieces = mentionedTags item ∧
        textOf pieces = ownText vtt item ∧ (mentionedTags item).Perm item.1.tags := by
  obtain ⟨s, wrapped, mentioned, kept, small, perm⟩ := fits.wrapForm
  obtain ⟨dashMarks, dashPlain⟩ := withDash_spec (strip s) item.1.dashInside
  generalize lines : (if item.1.dashed then withDash (strip s) item.1.dashInside else strip s) = line
  have lineMarks : marks line = marks s := by
    rw [← lines]
    split
    · rw [dashMarks, marks_of_visible (visible_strip s)]
    · exact marks_of_visible (visible_strip s)
  have linePlain : plain line = (if item.1.dashed then [0x2d] else []) ++ plain s := by
    rw [← lines]
    split
    · rw [dashPlain, plain_of_visible (visible_strip s)]
      rfl
    · exact plain_of_visible (visible_strip s)
  refine ⟨strip (fromWrapForm line item.1.tags vtt), ?_,
    (strip line).flatMap (piecesOf item.1.tags vtt), ?_, ?_, ?_, perm⟩
  · rw [speakerLine, wrapped, ← lines]
    rfl
  · rw [strip_fromWrapForm vtt fits.masked.solid (lineMarks ▸ small), fromWrapForm_pieces]
  · rw [tagsOf_pieces, marks_of_visible (visible_strip line), lineMarks, mentioned]
  · rw [textOf_pieces, plain_of_visible (visible_strip line), linePlain, kept, ownText_eq]

/-- The lines of a speaker pair are rewritten faithfully, one for each segment. -/
theorem speakerLines_faithful (vtt : Bool) {items : List (Segment × Str)}
    (fits : ∀ item ∈ items, ItemFits item) :
    ∃ lines, items.mapM (speakerLine vtt) = .ok lines ∧ Faithful vtt items lines := by
  induction items with
  | nil => exact ⟨[], rfl, [], rfl, rfl, rfl, List.forall_mem_nil _⟩
  | cons item items ih =>
      rw [List.forall_mem_cons] at fits
      obtain ⟨line, made, pieces, written, tags, text, perm⟩ := speakerLine_faithful vtt fits.1
      obtain ⟨lines, others, rest, writtenRest, tagsRest, textRest, perms⟩ := ih fits.2
      refine ⟨line :: lines, ?_, pieces :: rest, ?_, ?_, ?_, List.forall_mem_cons.mpr ⟨perm, perms⟩⟩
      · rw [List.mapM_cons, made, others]
        rfl
      · rw [List.map_cons, ← written, writtenRest]
      · rw [List.flatten_cons, tagsOf_append, tags, tagsRest, List.flatMap_cons]
      · rw [List.flatten_cons, textOf_append, text, textRest, List.flatMap_cons]

/-- A rebuilt cue keeps everything but its lines, and rewrites these faithfully or not at all. -/
structure Rebuilt (cue : Cue) (items : List (Segment × Str)) (new : Cue) : Prop where
  frame : new = { cue with lines := new.lines }
  rewritten : isRewritten items = true → Faithful (cue.dialect = .vtt) items new.lines
  untouched : isRewritten items = false → new = cue

theorem rebuiltLines_faithful (vtt : Bool) {items : List (Segment × Str)}
    (fits : ∀ item ∈ items, ItemFits item) :
    ∃ lines, rebuiltLines wide target width maxLines vtt items = .ok lines ∧
      Faithful vtt items lines := by
  unfold rebuiltLines
  split
  · rename_i item
    exact wrappedLines_faithful wide target width maxLines vtt (fits item List.mem_cons_self)
  · exact speakerLines_faithful vtt fits

theorem rebuildCue_rebuilt (cue : Cue) {items : List (Segment × Str)}
    (fits : ∀ item ∈ items, ItemFits item) :
    ∃ new, rebuildCue wide target width maxLines cue items = .ok new ∧ Rebuilt cue items new := by
  unfold rebuildCue
  split
  · rename_i rewritten
    obtain ⟨lines, made, faithful⟩ :=
      rebuiltLines_faithful wide target width maxLines (cue.dialect = .vtt) fits
    refine ⟨{ cue with lines := lines }, ?_, rfl, fun _ => faithful, fun untouched => ?_⟩
    · rw [made]
      rfl
    · rw [untouched] at rewritten
      cases rewritten
  · rename_i untouched
    exact ⟨cue, rfl, rfl, fun rewritten => absurd rewritten untouched, fun _ => rfl⟩

/-- The segments of a cue with their outputs. -/
def itemsOf (segs : List Segment) (out : List Str) (cueIndex : Nat) : List (Segment × Str) :=
  (segs.zip out).filter fun item => item.1.cueIndex = cueIndex

/-- Every cue that is rewritten restores each tag of its segments exactly once, in the order in
which the outputs mention their sentinels; its other characters are, without whitespace, the
dashes of the segments and the outputs' own characters; everything else stays. -/
theorem rebuild_fidelity {unescape : Str → Str} {cues : List Cue} {segs : List Segment}
    {out : List Str} (segmented : segmentCues unescape cues = .ok segs)
    (few : ∀ seg ∈ segs, seg.tags.length ≤ placeholderCount)
    (valid : List.Forall₂ ValidOutput segs out) :
    ∃ result, rebuildCues wide target width maxLines cues segs out = .ok result ∧
      result.length = cues.length ∧
      ∀ i cue new, cues[i]? = some cue → result[i]? = some new →
        Rebuilt cue (itemsOf segs out i) new := by
  have masked := segmentCues_masked segmented
  have fits (i : Nat) (item : Segment × Str) (member : item ∈ itemsOf segs out i) :
      ItemFits item := by
    have inZip := List.mem_of_mem_filter member
    have inSegs := (List.of_mem_zip inZip).1
    exact ⟨masked _ inSegs, few _ inSegs, (List.forall₂_iff_zip.mp valid).2 inZip⟩
  obtain ⟨result, rebuilt, all⟩ := Fallible.exists_mapM fun indexed (_ : indexed ∈ cues.zipIdx) =>
    rebuildCue_rebuilt wide target width maxLines indexed.1 (fits indexed.2)
  have length : result.length = cues.length := by
    rw [← all.length_eq, List.length_zipIdx]
  refine ⟨result, ?_, length, fun i cue new found stored => ?_⟩
  · rw [rebuildCues, if_pos valid.length_eq]
    exact rebuilt
  · obtain ⟨inCues, rfl⟩ := List.getElem?_eq_some_iff.mp found
    obtain ⟨inResult, rfl⟩ := List.getElem?_eq_some_iff.mp stored
    have here := all.get (by rwa [List.length_zipIdx]) inResult
    simpa using here

end Rebuild

/-- A cue with two speakers, of which the first has two tags. -/
def dialogue : List Cue :=
  [⟨1, [], [], [], [ofString "- <i>Hi</i> there", ofString "- Bye"], .plain⟩]

def dialogueSegs : List Segment :=
  [⟨0, ofString "⟦0⟧Hi⟦1⟧ there", [ofString "<i>", ofString "</i>"], true, false⟩,
    ⟨0, ofString "Bye", [], true, false⟩]

/-- The first output moves the tags, and the second is the source text. -/
def dialogueOut : List Str := [ofString "Toi ⟦1⟧, ⟦ 0⟧salut", ofString "Bye"]

theorem rebuild_fidelity_example :
    ∃ result, rebuildCues (fun _ => false) .fr 20 2 dialogue dialogueSegs dialogueOut = .ok result ∧
      result.length = 1 ∧
      ∀ i cue new, dialogue[i]? = some cue → result[i]? = some new →
        Rebuilt cue (itemsOf dialogueSegs dialogueOut i) new := by
  have segmented : segmentCues id dialogue = .ok dialogueSegs := by decide +kernel
  have few : ∀ seg ∈ dialogueSegs, seg.tags.length ≤ placeholderCount := by decide
  have first : validateLine 0 (ofString "⟦0⟧Hi⟦1⟧ there") (some (ofString "Toi ⟦1⟧, ⟦ 0⟧salut")) =
      .ok (ofString "Toi ⟦1⟧, ⟦ 0⟧salut") := by decide +kernel
  have valid : List.Forall₂ ValidOutput dialogueSegs dialogueOut :=
    .cons (.inr ⟨0, first⟩) (.cons (.inl rfl) .nil)
  exact rebuild_fidelity (fun _ => false) .fr 20 2 segmented few valid

end SubtitleTranslator.Engine
