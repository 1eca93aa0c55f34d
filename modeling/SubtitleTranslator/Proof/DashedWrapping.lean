import SubtitleTranslator.Proof.Documents
import SubtitleTranslator.Proof.LatinWrapping

namespace SubtitleTranslator.Engine
open Library Library.Text Packing

/-- A text without whitespace at its ends, and without two whitespace characters in a row. -/
structure SingleSpaced (s : Str) : Prop where
  front : ∀ c ∈ s.head?, isSpace c = false
  back : ∀ c ∈ s.getLast?, isSpace c = false
  chain : s.IsChain fun c d => isSpace c = true → isSpace d = false

theorem SingleSpaced.of_solid {word : Str} (solid : ∀ c ∈ word, isSpace c = false) :
    SingleSpaced word := by
  refine ⟨fun c front => solid c (List.mem_of_mem_head? front),
    fun c back => solid c (List.mem_of_mem_getLast? back), ?_⟩
  induction word with
  | nil => exact List.isChain_nil
  | cons c word ih =>
      rw [List.forall_mem_cons] at solid
      rw [List.isChain_cons]
      refine ⟨fun d _ space => ?_, ih solid.2⟩
      rw [solid.1] at space
      cases space

/-- Single spaced words with a space between them are single spaced. -/
theorem SingleSpaced.rowText {row : List Str}
    (single : ∀ word ∈ row, word ≠ [] ∧ SingleSpaced word) : SingleSpaced (rowText row) := by
  induction row with
  | nil => exact ⟨nofun, nofun, List.isChain_nil⟩
  | cons word row ih =>
      rw [List.forall_mem_cons] at single
      obtain ⟨⟨nonempty, alone⟩, others⟩ := single
      by_cases empty : row = []
      · rw [empty, rowText_singleton]
        exact alone
      · have tail := ih others
        have some_ := rowText_ne_nil empty fun other member => (others other member).1
        rw [← List.singleton_append, rowText_append (List.cons_ne_nil _ _) empty,
          rowText_singleton, List.append_assoc]
        refine ⟨fun c front => ?_, fun c back => ?_, ?_⟩
        · apply alone.front c
          rwa [List.head?_append_of_ne_nil _ nonempty] at front
        · apply tail.back c
          rwa [List.getLast?_append_of_ne_nil _ (by simp), List.getLast?_append_of_ne_nil _ some_]
            at back
        · rw [List.isChain_append, List.isChain_append]
          refine ⟨alone.chain, ⟨List.isChain_singleton _, tail.chain, ?_⟩, ?_⟩
          · exact fun _ _ d front _ => tail.front d front
          · intro c back d _ space
            rw [alone.back c back] at space
            cases space

/-- Stripping a front of a single spaced text drops at most its last character. -/
theorem SingleSpaced.strip_prefix {s t : Str} (single : SingleSpaced t) (front : s <+: t) :
    strip s = s ∨ ∃ c, s = strip s ++ [c] := by
  obtain ⟨rest, rfl⟩ := front
  have left : lstrip s = s := by
    cases s with
    | nil => rfl
    | cons c s => exact List.dropWhile_cons_of_neg (by simp [single.front c rfl])
  rw [strip, left, rstrip]
  rcases List.eq_nil_or_concat s with rfl | ⟨init, c, rfl⟩
  · exact .inl rfl
  · rw [List.concat_eq_append] at single ⊢
    cases space : isSpace c with
    | false => exact .inl (List.rdropWhile_concat_neg _ _ _ (by simp [space]))
    | true =>
        have kept : init.rdropWhile isSpace = init := by
          rw [List.rdropWhile_eq_self_iff]
          intro nonempty spaceToo
          have chain := (List.isChain_append.mp (List.isChain_append.mp single.chain).1).2.2
          have apart := chain _ (List.getLast?_eq_some_getLast nonempty) c rfl spaceToo
          rw [space] at apart
          cases apart
        exact .inr ⟨c, by rw [List.rdropWhile_concat_pos _ _ _ space, kept]⟩

/-- The glued words are single spaced. -/
theorem latinWords_single (wide : CodePoint → Bool) (s : Str) :
    ∀ word ∈ latinWords wide s, word ≠ [] ∧ SingleSpaced word := by
  intro word member
  refine ⟨latinWords_solid wide s word member, ?_⟩
  obtain ⟨groups, glued, flat, _⟩ := latinWords_groups wide s
  rw [glued] at member
  obtain ⟨group, inGroups, rfl⟩ := List.mem_map.mp member
  apply SingleSpaced.rowText
  intro inner inside
  have isWord : inner ∈ words s := flat ▸ List.mem_flatten.mpr ⟨group, inGroups, inside⟩
  exact ⟨(of_mem_words isWord).1, SingleSpaced.of_solid (of_mem_words isWord).2⟩

/-- A dash goes before the first character that is neither whitespace nor a placeholder, so what
follows such a character is kept. -/
theorem withDash_append {line : Str} (seen : ∃ c ∈ line, isPlain c = true) (more : Str)
    (inside : Bool) : withDash (line ++ more) inside = withDash line inside ++ more := by
  have rest : line.dropWhile isLead ≠ [] := by
    obtain ⟨c, member, plain⟩ := seen
    rw [Ne, List.dropWhile_eq_nil_iff]
    intro all
    have leads := all c member
    unfold isLead at leads
    unfold isPlain at plain
    cases space : isSpace c <;> cases mark : isPlaceholder c <;> simp_all
  have lead : (line ++ more).takeWhile isLead = line.takeWhile isLead := by
    rw [List.takeWhile_append, if_neg]
    intro whole
    apply rest
    have both := congrArg List.length (@List.takeWhile_append_dropWhile _ isLead line)
    rw [List.length_append, whole] at both
    exact List.length_eq_zero_iff.mp (by omega)
  have tail : (line ++ more).dropWhile isLead = line.dropWhile isLead ++ more := by
    rw [List.dropWhile_append, if_neg (by simpa using rest)]
  unfold withDash
  rw [lead, tail]
  dsimp only
  split_ifs
  · simp only [List.append_assoc]
  · simp only [List.append_assoc]

theorem withDash_nil (inside : Bool) : withDash [] inside = ofString "- " := by
  have stripped : strip [] = [] := rfl
  simp [withDash, stripped]

section Width
variable (wide : CodePoint → Bool)

/-- The words can be split in order into lines within the limit; the first one has a dash before
it that takes some cells. -/
def SplitsWithin (limit maxLines dash : Nat) (words : List Str) : Prop :=
  ∃ rows : List (List Str), rows.flatten = words ∧ (∀ row ∈ rows, row ≠ []) ∧
    rows.length ≤ maxLines ∧ (∀ row ∈ rows, cells wide (rowText row) ≤ limit) ∧
    ∀ row ∈ rows.head?, dash + cells wide (rowText row) ≤ limit

/-- A dash before a line that starts with the first words makes it too wide. -/
def DashOverflows (limit : Nat) (inside : Bool) (words : List Str) : Prop :=
  ∃ front back, words = front ++ back ∧ front ≠ [] ∧ cells wide (rowText front) ≤ limit ∧
    limit < cells wide (withDash (rowText front) inside)

theorem cells_dash (narrow : wide 0x20 = false) (hyphen : wide 0x2d = false) :
    cells wide (ofString "- ") = 2 := by
  have form : ofString "- " = [0x2d, 0x20] := by decide
  simp [form, cells, cellsOf, narrow, hyphen, show isPlaceholder 0x20 = false by decide,
    show isPlaceholder 0x2d = false by decide]

/-- The two cells of a dash are at least those that its line loses. -/
theorem cells_le_withDash (narrow : wide 0x20 = false) (hyphen : wide 0x2d = false) {line : Str}
    (single : SingleSpaced line) (inside : Bool) :
    cells wide line ≤ cells wide (withDash line inside) := by
  have dash := cells_dash wide narrow hyphen
  have whole : cells wide line =
      cells wide (line.takeWhile isLead) + cells wide (line.dropWhile isLead) := by
    rw [← cells_append, List.takeWhile_append_dropWhile]
  unfold withDash
  dsimp only
  split_ifs
  · have lost := single.strip_prefix (List.takeWhile_prefix isLead)
    rw [cells_append, cells_append, dash, whole]
    rcases lost with same | ⟨c, same⟩
    · rw [same]
      omega
    · have last := cells_singleton_le wide c
      have parts := congrArg (cells wide) same
      rw [cells_append] at parts
      omega
  · rw [cells_append]
    omega

theorem dashBody_cons (seg : Segment) (first : Str) (body : List Str) :
    dashBody seg (first :: body) =
      (if seg.dashed = true then withDash first seg.dashInside else first) :: body := by
  rw [dashBody]
  split_ifs
  · rfl
  · rfl

/-- More words behind the dash do not make the line narrower. -/
theorem cells_withDash_mono {s : Str} {front more : List Str} (started : front ≠ [])
    (inside : Bool) (taken : ∃ back, latinWords wide s = front ++ more ++ back) :
    cells wide (withDash (rowText front) inside) ≤
      cells wide (withDash (rowText (front ++ more)) inside) := by
  by_cases none_ : more = []
  · rw [none_, List.append_nil]
  · obtain ⟨back, form⟩ := taken
    rcases latinWords_seen_or wide s with seen | ⟨_, single⟩
    · obtain ⟨word, member⟩ := List.exists_mem_of_ne_nil front started
      obtain ⟨c, inWord, plain⟩ := seen word (by simp [form, member])
      have frontSeen : ∃ c ∈ rowText front, isPlain c = true :=
        ⟨c, mem_join_of_mem _ member inWord, plain⟩
      rw [rowText_append started none_, List.append_assoc, withDash_append frontSeen, cells_append]
      exact Nat.le_add_right _ _
    · have := List.length_pos_iff.mpr started
      have := List.length_pos_iff.mpr none_
      rw [form, List.length_append, List.length_append] at single
      omega

/-- A text without glued words is one empty line. -/
theorem wrapLatin_of_none {s : Str} (none_ : latinWords wide s = []) (limit maxLines : Nat) :
    wrapLatin wide s limit maxLines = [[]] := by
  simp only [wrapLatin, none_]
  rfl

/-- The lines of a text after its dash is restored are within the limit when the words can be split
so and the dash makes no line of first words too wide. -/
theorem dashed_latin_within_iff (narrow : wide 0x20 = false) (hyphen : wide 0x2d = false)
    (seg : Segment) (s : Str) {limit maxLines : Nat} (room : 2 ≤ limit) (some_ : 1 ≤ maxLines) :
    (∀ line ∈ dashBody seg (wrapLatin wide s limit maxLines), cells wide line ≤ limit) ↔
      SplitsWithin wide limit maxLines 0 (latinWords wide s) ∧
        ¬(seg.dashed = true ∧ DashOverflows wide limit seg.dashInside (latinWords wide s)) := by
  by_cases none_ : latinWords wide s = []
  · rw [wrapLatin_of_none wide none_, none_]
    refine iff_of_true ?_ ⟨⟨[], rfl, List.forall_mem_nil _, by simp, List.forall_mem_nil _, nofun⟩,
      fun ⟨_, front, back, form, started, _⟩ => ?_⟩
    · have dashed : cells wide (withDash [] seg.dashInside) ≤ limit := by
        rw [withDash_nil, cells_dash wide narrow hyphen]
        exact room
      rw [dashBody_cons, List.forall_mem_singleton]
      split_ifs
      · exact dashed
      · exact Nat.zero_le _
    · exact started (List.append_eq_nil_iff.mp form.symm).1
  · obtain ⟨rows, lines, flat, nonempty, few, packed⟩ :=
      wrapLatin_rows wide narrow none_ limit maxLines
    rw [Nat.max_eq_right some_] at few packed
    have fewest {other : List (List Str)} (same : other.flatten = latinWords wide s)
        (short : other.length ≤ maxLines) (all : ∀ row ∈ other, cells wide (rowText row) ≤ limit) :
        rows = pack (cells wide) limit (latinWords wide s) := by
      refine packed ((pack_length_le same fun row member _ => ?_).trans short)
      rw [← cells_rowText wide narrow]
      exact all row member
    cases rows with
    | nil => exact absurd flat.symm none_
    | cons first others =>
        rw [lines, List.map_cons, dashBody_cons, List.forall_mem_cons, List.forall_mem_map]
        have started : first ≠ [] := nonempty first List.mem_cons_self
        constructor
        · rintro ⟨within, rest⟩
          have single : SingleSpaced (rowText first) := SingleSpaced.rowText fun word member =>
            latinWords_single wide s word (flat ▸ List.mem_append_left _ member)
          have firstWithin : cells wide (rowText first) ≤ limit := by
            split_ifs at within
            · exact (cells_le_withDash wide narrow hyphen single _).trans within
            · exact within
          have all : ∀ row ∈ first :: others, cells wide (rowText row) ≤ limit :=
            List.forall_mem_cons.mpr ⟨firstWithin, rest⟩
          refine ⟨⟨first :: others, flat, nonempty, few, all, fun row front => ?_⟩, ?_⟩
          · cases front
            rwa [Nat.zero_add]
          · rintro ⟨dashed, front, back, form, some_, fits, overflows⟩
            rw [if_pos dashed] at within
            rw [cells_rowText wide narrow] at fits
            obtain ⟨more, tail, greedy⟩ := pack_first some_ fits back
            rw [← form, ← fewest flat few all, List.cons.injEq] at greedy
            have taken : ∃ back, latinWords wide s = front ++ more ++ back :=
              ⟨others.flatten, by rw [← flat, List.flatten_cons, greedy.1]⟩
            have wider := cells_withDash_mono wide some_ seg.dashInside taken
            rw [← greedy.1] at wider
            omega
        · rintro ⟨⟨other, same, _, short, all, _⟩, safe⟩
          have within := pack_within same fun row member => by
            rw [← cells_rowText wide narrow]
            exact all row member
          rw [← fewest same short all, List.forall_mem_cons] at within
          simp only [← cells_rowText wide narrow] at within
          refine ⟨?_, within.2⟩
          split_ifs with dashed
          · by_contra overflows
            exact safe ⟨dashed, first, others.flatten, flat.symm, started, within.1,
              Nat.lt_of_not_le overflows⟩
          · exact within.1

/-- The lines of a cue with one segment before its tags are restored; a tag is one placeholder, which
has no width. -/
def shownLines (target : Language) (width : ℚ) (maxLines : Nat) (seg : Segment) (t : Str) :
    List Str :=
  dashBody seg (wrapText wide target width maxLines (strip t))

/-- A cue with one segment that `wrap_latin` wraps respects the width, whenever its words can, if
and only if its glued words can and no front of them fits without the dash and overflows with it. -/
theorem dashed_cue_within_iff (narrow : wide 0x20 = false) (hyphen : wide 0x2d = false)
    (target : Language) {width : ℚ} (least : 4 ≤ width) {maxLines : Nat} (some_ : 1 ≤ maxLines)
    {cues result : List Cue} {segs : List Segment} {out : List Str}
    (rebuilt : rebuildCues wide target width maxLines cues segs out = .ok result)
    {i : Nat} {cue new : Cue} (found : cues[i]? = some cue) (stored : result[i]? = some new)
    {item : Segment × Str} (alone : itemsOf segs out i = [item])
    (rewritten : isRewritten [item] = true) :
    ∃ t, toWrapForm item.2 item.1.tags = .ok t ∧
      new.lines = (shownLines wide target width maxLines item.1 t).map
        (fromWrapForm · item.1.tags (cue.dialect = .vtt)) ∧
      (¬(target.cjk = true ∧ (strip t).any isCjk = true) →
        let limit := ⌊width * 2⌋.toNat
        let dash := if item.1.dashed then 2 else 0
        ((SplitsWithin wide limit maxLines dash (words (strip t)) →
            ∀ line ∈ shownLines wide target width maxLines item.1 t, cells wide line ≤ limit) ↔
          (SplitsWithin wide limit maxLines dash (words (strip t)) →
            SplitsWithin wide limit maxLines 0 (latinWords wide (strip t)) ∧
              ¬(item.1.dashed = true ∧
                DashOverflows wide limit item.1.dashInside (latinWords wide (strip t)))))) := by
  obtain ⟨_, each⟩ := rebuildCues_eq wide target width maxLines rebuilt
  have here := each i cue new found stored
  rw [alone] at here
  rcases rebuildCue_eq wide target width maxLines here with
    ⟨untouched, _⟩ | ⟨_, body, rfl, made⟩
  · rw [rewritten] at untouched
    cases untouched
  · obtain ⟨t, form, same⟩ := Fallible.bind_ok.mp made
    cases same
    refine ⟨t, form, rfl, fun latin => ?_⟩
    have room : 2 ≤ ⌊width * 2⌋.toNat := by
      have floor : (2 : ℤ) ≤ ⌊width * 2⌋ := by
        rw [Int.le_floor]
        push_cast
        linarith
      omega
    dsimp only
    rw [shownLines, wrapText, if_neg latin]
    exact imp_congr_right fun _ =>
      dashed_latin_within_iff wide narrow hyphen item.1 (strip t) room some_

end Width

/-- A cue of one speaker, its segment, and a translation that fits in two lines of eight cells. -/
def speakerCue : Cue := ⟨1, [], [], [], [ofString "- Hi you"], .plain⟩

def speakerSeg : Segment := ⟨0, ofString "Hi you", [], true, false⟩

def speakerOut : Str := ofString "aaaa bbb cc"

def speakerNew : Cue := { speakerCue with lines := [ofString "- aaaa bbb", ofString "cc"] }

theorem speaker_rebuilt :
    rebuildCues isCjk .fr 4 2 [speakerCue] [speakerSeg] [speakerOut] = .ok [speakerNew] := by
  decide +kernel

/-- The split `aaaa` and `bbb cc` has room for the dash, and the lines of the cue have not. -/
theorem speaker_dash_overflows :
    rebuildCues isCjk .fr 4 2 [speakerCue] [speakerSeg] [speakerOut] = .ok [speakerNew] ∧
      speakerNew.lines = shownLines isCjk .fr 4 2 speakerSeg speakerOut ∧
      ¬(SplitsWithin isCjk ⌊(4 : ℚ) * 2⌋.toNat 2 2 (words speakerOut) →
        ∀ line ∈ speakerNew.lines, cells isCjk line ≤ ⌊(4 : ℚ) * 2⌋.toNat) := by
  refine ⟨speaker_rebuilt, by decide +kernel, fun within => ?_⟩
  have limit : ⌊(4 : ℚ) * 2⌋.toNat = 8 := by decide +kernel
  have split : SplitsWithin isCjk 8 2 2 (words speakerOut) :=
    ⟨[[ofString "aaaa"], [ofString "bbb", ofString "cc"]], by decide +kernel, by decide,
      by decide, by decide +kernel, by decide +kernel⟩
  have wide : ofString "- aaaa bbb" ∈ speakerNew.lines := List.mem_cons_self
  rw [limit] at within
  exact absurd (within split _ wide) (by decide +kernel)

theorem dashed_cue_within_iff_example :
    ∃ t, toWrapForm speakerOut speakerSeg.tags = .ok t ∧
      speakerNew.lines = (shownLines isCjk .fr 4 2 speakerSeg t).map
        (fromWrapForm · speakerSeg.tags (speakerCue.dialect = .vtt)) ∧
      (¬(Language.fr.cjk = true ∧ (strip t).any isCjk = true) →
        let limit := ⌊(4 : ℚ) * 2⌋.toNat
        let dash := if speakerSeg.dashed then 2 else 0
        ((SplitsWithin isCjk limit 2 dash (words (strip t)) →
            ∀ line ∈ shownLines isCjk .fr 4 2 speakerSeg t, cells isCjk line ≤ limit) ↔
          (SplitsWithin isCjk limit 2 dash (words (strip t)) →
            SplitsWithin isCjk limit 2 0 (latinWords isCjk (strip t)) ∧
              ¬(speakerSeg.dashed = true ∧
                DashOverflows isCjk limit speakerSeg.dashInside (latinWords isCjk (strip t)))))) := by
  have alone : itemsOf [speakerSeg] [speakerOut] 0 = [(speakerSeg, speakerOut)] := by
    decide +kernel
  have rewritten : isRewritten [(speakerSeg, speakerOut)] = true := by decide +kernel
  have found : [speakerCue][0]? = some speakerCue := rfl
  have stored : [speakerNew][0]? = some speakerNew := rfl
  exact dashed_cue_within_iff isCjk (by decide) (by decide) .fr (by norm_num) (by decide)
    speaker_rebuilt found stored alone rewritten

end SubtitleTranslator.Engine
