import SubtitleTranslator.Library.Lines
import SubtitleTranslator.Library.Packing
import SubtitleTranslator.Proof.WrapForm
import SubtitleTranslator.Proof.Wrapping

namespace SubtitleTranslator.Engine
open Library Library.Text Packing

/-- The text of a row of words. -/
def rowText (row : List Str) : Str := join [0x20] row

theorem rowText_singleton (word : Str) : rowText [word] = word := join_singleton _ _

theorem rowText_append {front back : List Str} (nonempty : front ≠ []) (more : back ≠ []) :
    rowText (front ++ back) = rowText front ++ [0x20] ++ rowText back :=
  join_append _ nonempty more

theorem rowText_ne_nil {row : List Str} (nonempty : row ≠ []) (solid : ∀ word ∈ row, word ≠ []) :
    rowText row ≠ [] := by
  cases row with
  | nil => exact absurd rfl nonempty
  | cons word row =>
      obtain ⟨c, member⟩ := List.exists_mem_of_ne_nil _ (solid word List.mem_cons_self)
      exact List.ne_nil_of_mem (mem_join_of_mem _ List.mem_cons_self member)

/-- Adding a word to a row adds it to the text of the row. -/
theorem spaced_rowText {row : List Str} (solid : ∀ word ∈ row, word ≠ []) (word : Str) :
    spaced (rowText row) word = rowText (row ++ [word]) := by
  unfold spaced
  by_cases empty : row = []
  · subst empty
    rw [if_neg (by simp [rowText, join_nil]), List.nil_append, rowText_singleton]
  · rw [if_pos (rowText_ne_nil empty solid), rowText_append empty (List.cons_ne_nil _ _),
      rowText_singleton]

section Width
variable (wide : CodePoint → Bool)

/-- Only placeholders have no width. -/
theorem cells_eq_zero_iff (s : Str) : cells wide s = 0 ↔ ∀ c ∈ s, isPlaceholder c = true := by
  rw [cells, List.sum_eq_zero_iff]
  simp only [List.forall_mem_map]
  refine forall₂_congr fun c _ => ?_
  unfold cellsOf
  split_ifs with mark <;> simp [mark]

/-- The width of a text of words is that of the row, a space being as wide as a gap. -/
theorem cells_rowText (narrow : wide 0x20 = false) (row : List Str) :
    cells wide (rowText row) = span (cells wide) row := by
  have gap : cells wide [0x20] = 1 := by
    simp [cells, cellsOf, narrow, show isPlaceholder 0x20 = false by decide]
  induction row with
  | nil => rfl
  | cons word row ih =>
      by_cases empty : row = []
      · rw [empty, rowText_singleton, span_singleton]
      · rw [← List.singleton_append, rowText_append (List.cons_ne_nil _ _) empty,
          rowText_singleton, cells_append, cells_append, gap, ih, List.singleton_append,
          span_cons _ _ empty]

/-- The loop of `_latin_words` has glued the words before it into the groups and the pending one. -/
structure Glued (read : List Str) (state : WordState) (groups : List (List Str))
    (tail : List Str) : Prop where
  read : groups.flatten ++ tail = read
  words : state.words = groups.map rowText
  pending : state.pending = rowText tail
  seen : ∀ group ∈ groups, ∃ word ∈ group, cells wide word ≠ 0
  unseen : ∀ word ∈ tail, cells wide word = 0

theorem Glued.step {read : List Str} {state : WordState} {groups : List (List Str)}
    {tail : List Str} (glued : Glued wide read state groups tail)
    (solid : ∀ word ∈ tail, word ≠ []) (word : Str) :
    ∃ groups tail, Glued wide (read ++ [word]) (state.step wide word) groups tail := by
  unfold WordState.step
  rw [glued.pending, spaced_rowText solid]
  split_ifs with markup
  · refine ⟨groups, tail ++ [word], ?_, glued.words, rfl, glued.seen, ?_⟩
    · rw [← glued.read, List.append_assoc]
    · rw [List.forall_mem_append, List.forall_mem_singleton]
      exact ⟨glued.unseen, markup⟩
  · refine ⟨groups ++ [tail ++ [word]], [], ?_, ?_, rfl, ?_, List.forall_mem_nil _⟩
    · rw [← glued.read]
      simp
    · rw [glued.words, List.map_append, List.map_singleton]
    · rw [List.forall_mem_append, List.forall_mem_singleton]
      exact ⟨glued.seen, word, by simp, markup⟩

theorem Glued.foldl {front : List Str} {state : WordState} {groups : List (List Str)}
    {tail : List Str} (glued : Glued wide front state groups tail) (words : List Str)
    (solid : ∀ word ∈ front ++ words, word ≠ []) :
    ∃ groups tail, Glued wide (front ++ words) (words.foldl (WordState.step wide) state)
      groups tail := by
  induction words generalizing front state groups tail with
  | nil => exact ⟨groups, tail, by rwa [List.append_nil]⟩
  | cons word words ih =>
      have inTail : ∀ word ∈ tail, word ≠ [] := fun other member =>
        solid other (List.mem_append_left _ (glued.read ▸ List.mem_append_right _ member))
      obtain ⟨nextGroups, nextTail, next⟩ := glued.step wide inTail word
      rw [List.append_cons] at solid ⊢
      exact ih next solid

/-- The words of `_latin_words` are groups of the words of the text, none of them markup alone
unless the text is. -/
theorem latinWords_groups (s : Str) :
    ∃ groups : List (List Str), latinWords wide s = groups.map rowText ∧ groups.flatten = words s ∧
      (∀ group ∈ groups, group ≠ []) ∧
      ((∀ group ∈ groups, ∃ word ∈ group, cells wide word ≠ 0) ∨
        (∀ word ∈ words s, cells wide word = 0) ∧ groups.length = 1) := by
  have solid : ∀ word ∈ words s, word ≠ [] := fun word member => (of_mem_words member).1
  have start : Glued wide [] ⟨[], []⟩ [] [] :=
    ⟨rfl, rfl, rfl, List.forall_mem_nil _, List.forall_mem_nil _⟩
  obtain ⟨groups, tail, glued⟩ := start.foldl wide (words s) solid
  rw [List.nil_append] at glued
  have inTail : ∀ word ∈ tail, word ≠ [] := fun word member =>
    solid word (glued.read ▸ List.mem_append_right _ member)
  have nonempty : ∀ group ∈ groups, group ≠ [] := fun group member => by
    obtain ⟨word, inside, _⟩ := glued.seen group member
    exact List.ne_nil_of_mem inside
  simp only [latinWords, glued.words, glued.pending]
  by_cases none_ : tail = []
  · subst none_
    rw [if_pos (by simp [rowText, join_nil])]
    exact ⟨groups, rfl, by rw [← glued.read, List.append_nil], nonempty, .inl glued.seen⟩
  · rw [if_neg (rowText_ne_nil none_ inTail)]
    rcases List.eq_nil_or_concat groups with rfl | ⟨front, last, rfl⟩
    · refine ⟨[tail], rfl, by rw [← glued.read]; simp, by simpa using none_, .inr ⟨?_, rfl⟩⟩
      rw [← glued.read, List.flatten_nil, List.nil_append]
      exact glued.unseen
    · rw [List.concat_eq_append] at glued nonempty
      obtain ⟨seen, seenLast⟩ := List.forall_mem_append.mp glued.seen
      obtain ⟨word, inLast, visible⟩ := seenLast last (List.mem_singleton_self last)
      have some_ : last ≠ [] := List.ne_nil_of_mem inLast
      refine ⟨front ++ [last ++ tail], ?_, ?_, ?_, .inl ?_⟩
      · simp [rowText_append some_ none_]
      · rw [← glued.read]
        simp
      · rw [List.forall_mem_append, List.forall_mem_singleton] at nonempty ⊢
        exact ⟨nonempty.1, List.append_ne_nil_of_left_ne_nil nonempty.2 tail⟩
      · rw [List.forall_mem_append, List.forall_mem_singleton]
        exact ⟨seen, word, List.mem_append_left tail inLast, visible⟩

/-- The greedy pass places the words like items of their widths. -/
theorem foldl_wrapWord (narrow : wide 0x20 = false) (limit : Nat) {words : List Str}
    (solid : ∀ word ∈ words, word ≠ []) (rows : Rows Str)
    (started : ∀ word ∈ rows.current, word ≠ []) :
    words.foldl (wrapWord wide limit) ⟨rows.finished.map rowText, rowText rows.current⟩ =
      let last := words.foldl (place (cells wide) limit) rows
      ⟨last.finished.map rowText, rowText last.current⟩ := by
  induction words generalizing rows with
  | nil => rfl
  | cons word words ih =>
      rw [List.forall_mem_cons] at solid
      have isEmpty : rowText rows.current ≠ [] ↔ rows.current ≠ [] :=
        ⟨fun some_ empty => some_ (by rw [empty]; rfl), fun some_ => rowText_ne_nil some_ started⟩
      have step : wrapWord wide limit ⟨rows.finished.map rowText, rowText rows.current⟩ word =
          ⟨(place (cells wide) limit rows word).finished.map rowText,
            rowText (place (cells wide) limit rows word).current⟩ := by
        unfold wrapWord place
        simp only [isEmpty, cells_rowText wide narrow, spaced_rowText started]
        split_ifs
        · simp [rowText_singleton]
        · rfl
      rw [List.foldl_cons, List.foldl_cons, step]
      apply ih solid.2
      unfold place
      split_ifs
      · exact List.forall_mem_singleton.mpr solid.1
      · exact List.forall_mem_append.mpr ⟨started, List.forall_mem_singleton.mpr solid.1⟩

/-- The lines of the greedy pass are the packed rows. -/
theorem greedyLines_eq (narrow : wide 0x20 = false) (limit : Nat) {words : List Str}
    (solid : ∀ word ∈ words, word ≠ []) :
    greedyLines wide limit words = (pack (cells wide) limit words).map rowText := by
  have same := foldl_wrapWord wide narrow limit solid ⟨[], []⟩ (List.forall_mem_nil _)
  change words.foldl (wrapWord wide limit) ⟨[], []⟩ = _ at same
  have layout := @layout_pack _ (cells wide) limit words
  unfold greedyLines pack Rows.all
  rw [same]
  generalize words.foldl (place (cells wide) limit) ⟨[], []⟩ = last at layout
  have started : ∀ word ∈ last.current, word ≠ [] := fun word member =>
    solid word (layout.items ▸ List.mem_append_right _ member)
  dsimp only
  by_cases empty : last.current = []
  · rw [empty, if_neg (by simp [rowText, join_nil]), if_neg (by simp)]
  · rw [if_pos (rowText_ne_nil empty started), if_pos empty, List.map_append, List.map_singleton]

/-- Filling a line takes words from the front of those that are left. -/
theorem fillLine_rows (target : Nat) {row : List Str} (started : row ≠ []) (remaining : List Str) :
    ∃ taken, (fillLine wide target (rowText row) remaining).1 = rowText (row ++ taken) ∧
      remaining = taken ++ (fillLine wide target (rowText row) remaining).2 := by
  induction remaining generalizing row with
  | nil => exact ⟨[], by rw [List.append_nil]; rfl, rfl⟩
  | cons word remaining ih =>
      rw [fillLine]
      split
      · obtain ⟨taken, line, rest⟩ := @ih (row ++ [word]) (by simp)
        rw [rowText_append started (List.cons_ne_nil _ _), rowText_singleton] at line rest
        refine ⟨word :: taken, ?_, ?_⟩
        · rw [line, List.append_assoc, List.singleton_append]
        · rw [List.cons_append, ← rest]
      · exact ⟨[], by rw [List.append_nil], rfl⟩

/-- Balancing makes rows of the words, as many as there are slots at most. -/
theorem balanceLines_rows (words : List Str) (slots : Nat) :
    ∃ rows : List (List Str), balanceLines wide words slots = rows.map rowText ∧
      rows.flatten = words ∧ (∀ row ∈ rows, row ≠ []) ∧ rows.length ≤ max 1 slots := by
  fun_induction balanceLines wide words slots with
  | case1 slots => exact ⟨[], rfl, rfl, List.forall_mem_nil _, Nat.zero_le _⟩
  | case2 word remaining slots width line ih =>
      obtain ⟨taken, text, rest⟩ := fillLine_rows wide ((width + slots + 1) / (slots + 2))
        (List.cons_ne_nil word []) remaining
      rw [rowText_singleton] at text rest
      obtain ⟨rows, lines, flat, nonempty, few⟩ := ih
      refine ⟨(word :: taken) :: rows, ?_, ?_, ?_, ?_⟩
      · rw [List.map_cons, ← lines]
        exact congrArg (· :: _) text
      · rw [List.flatten_cons, flat, List.cons_append]
        exact congrArg (word :: ·) rest.symm
      · exact List.forall_mem_cons.mpr ⟨List.cons_ne_nil _ _, nonempty⟩
      · rw [List.length_cons]
        omega
  | case3 slots remaining some_ _ =>
      exact ⟨[remaining], rfl, List.flatten_singleton, List.forall_mem_singleton.mpr some_,
        Nat.le_max_left 1 slots⟩

theorem latinWords_solid (s : Str) : ∀ word ∈ latinWords wide s, word ≠ [] := by
  obtain ⟨groups, glued, flat, nonempty, _⟩ := latinWords_groups wide s
  rw [glued, List.forall_mem_map]
  intro group member
  refine rowText_ne_nil (nonempty group member) fun word inside => (@of_mem_words s word ?_).1
  rw [← flat]
  exact List.mem_flatten.mpr ⟨group, member, inside⟩

/-- A text that is not blank has a glued word. -/
theorem latinWords_ne_nil {s : Str} (seen : visible s ≠ []) : latinWords wide s ≠ [] := by
  obtain ⟨groups, glued, flat, _⟩ := latinWords_groups wide s
  intro none_
  rw [glued, List.map_eq_nil_iff] at none_
  rw [← words_flatten, ← flat, none_] at seen
  exact seen rfl

/-- `wrap_latin` returns the packed rows when they are few, and otherwise other rows. -/
theorem wrapLatin_rows (narrow : wide 0x20 = false) {s : Str} (some_ : latinWords wide s ≠ [])
    (limit maxLines : Nat) :
    ∃ rows : List (List Str), wrapLatin wide s limit maxLines = rows.map rowText ∧
      rows.flatten = latinWords wide s ∧ (∀ row ∈ rows, row ≠ []) ∧
      rows.length ≤ max 1 maxLines ∧
      ((pack (cells wide) limit (latinWords wide s)).length ≤ max 1 maxLines →
        rows = pack (cells wide) limit (latinWords wide s)) := by
  have flat := @pack_flatten _ (cells wide) limit (latinWords wide s)
  simp only [wrapLatin, greedyLines_eq wide narrow limit (latinWords_solid wide s),
    List.map_eq_nil_iff, List.length_map]
  rw [if_neg]
  · split_ifs with few
    · exact ⟨_, rfl, flat, fun row => nonempty_of_mem_pack, few, fun _ => rfl⟩
    · obtain ⟨rows, lines, same, nonempty, short⟩ :=
        balanceLines_rows wide (latinWords wide s) (max 1 maxLines)
      refine ⟨rows, lines, same, nonempty, ?_, fun few' => absurd few' few⟩
      omega
  · intro none_
    rw [none_] at flat
    exact some_ flat.symm

/-- A line of several words is within the limit. -/
def RowFits (limit : Nat) (row : List Str) : Prop :=
  2 ≤ row.length → cells wide (rowText row) ≤ limit

theorem rowFits_iff (narrow : wide 0x20 = false) (limit : Nat) (row : List Str) :
    RowFits wide limit row ↔ Fits (cells wide) limit row := by
  rw [RowFits, Fits, cells_rowText wide narrow]

/-- What `wrap_latin` promises of its lines. -/
structure LatinLines (s : Str) (limit maxLines : Nat) (lines : List Str) : Prop where
  lossless : join [0x20] lines = join [0x20] (words s)
  bounds : 1 ≤ lines.length ∧ lines.length ≤ max 1 maxLines
  nonempty : ∀ line ∈ lines, line ≠ []
  seen : (∃ c ∈ s, isPlain c = true) → ∀ line ∈ lines, ∃ c ∈ line, isPlain c = true
  /-- The limit is given up only when no split of the glued words keeps it. -/
  fits : (∃ rows : List (List Str), rows.flatten = latinWords wide s ∧
      rows.length ≤ max 1 maxLines ∧ ∀ row ∈ rows, RowFits wide limit row) →
    ∃ rows : List (List Str), lines = rows.map rowText ∧ rows.flatten = latinWords wide s ∧
      ∀ row ∈ rows, RowFits wide limit row

/-- A word is as wide as zero when it has no plain character. -/
theorem cells_ne_zero_iff {s word : Str} (member : word ∈ words s) :
    cells wide word ≠ 0 ↔ ∃ c ∈ word, isPlain c = true := by
  rw [Ne, cells_eq_zero_iff]
  push Not
  refine exists_congr fun c => and_congr_right fun inside => ?_
  simp [isPlain, (of_mem_words member).2 c inside]

/-- Each glued word has a plain character, unless the text is markup and has one glued word. -/
theorem latinWords_seen_or (s : Str) :
    (∀ word ∈ latinWords wide s, ∃ c ∈ word, isPlain c = true) ∨
      (∀ word ∈ words s, cells wide word = 0) ∧ (latinWords wide s).length = 1 := by
  obtain ⟨groups, glued, flat, _, someSeen⟩ := latinWords_groups wide s
  rw [glued, List.forall_mem_map, List.length_map]
  refine someSeen.imp_left fun seen group member => ?_
  obtain ⟨word, inside, some_⟩ := seen group member
  have isWord : word ∈ words s := flat ▸ List.mem_flatten.mpr ⟨group, member, inside⟩
  obtain ⟨c, inWord, plain⟩ := (cells_ne_zero_iff wide isWord).mp some_
  exact ⟨c, mem_join_of_mem _ inside inWord, plain⟩

/-- No glued word is markup alone when the text has more than markup. -/
theorem latinWords_seen {s : Str} (seen : ∃ c ∈ s, isPlain c = true) :
    ∀ word ∈ latinWords wide s, ∃ c ∈ word, isPlain c = true := by
  refine (latinWords_seen_or wide s).resolve_right fun ⟨markup, _⟩ => ?_
  obtain ⟨c, inText, plain⟩ := seen
  have inWords : c ∈ (words s).flatten := by
    rw [words_flatten]
    apply List.mem_filter.mpr
    rw [isPlain, Bool.and_eq_true] at plain
    exact ⟨inText, plain.1⟩
  obtain ⟨word, isWord, inWord⟩ := List.mem_flatten.mp inWords
  exact (cells_ne_zero_iff wide isWord).mpr ⟨c, inWord, plain⟩ (markup word isWord)

/-- `wrap_latin` is lossless and bounded, and it gives the limit up only when it must. -/
theorem wrap_latin_lossless_and_tight (narrow : wide 0x20 = false) {s : Str}
    (seen : visible s ≠ []) (limit maxLines : Nat) :
    LatinLines wide s limit maxLines (wrapLatin wide s limit maxLines) := by
  obtain ⟨groups, glued, flatGroups, someWord, _⟩ := latinWords_groups wide s
  obtain ⟨rows, lines, flat, nonempty, few, packed⟩ :=
    wrapLatin_rows wide narrow (latinWords_ne_nil wide seen) limit maxLines
  have some_ : rows ≠ [] := by
    rintro rfl
    exact latinWords_ne_nil wide seen flat.symm
  have inLatin {row : List Str} (member : row ∈ rows) {word : Str} (inside : word ∈ row) :
      word ∈ latinWords wide s :=
    flat ▸ List.mem_flatten.mpr ⟨row, member, inside⟩
  rw [lines]
  refine ⟨?_, ?_, ?_, ?_, ?_⟩
  · calc join [0x20] (rows.map rowText) = join [0x20] rows.flatten :=
          (join_flatten _ nonempty).symm
      _ = join [0x20] (groups.map rowText) := by rw [flat, glued]
      _ = join [0x20] groups.flatten := (join_flatten _ someWord).symm
      _ = join [0x20] (words s) := by rw [flatGroups]
  · rw [List.length_map]
    exact ⟨List.length_pos_iff.mpr some_, few⟩
  · rw [List.forall_mem_map]
    exact fun row member => rowText_ne_nil (nonempty row member)
      fun word inside => latinWords_solid wide s word (inLatin member inside)
  · rw [List.forall_mem_map]
    intro someSeen row member
    obtain ⟨word, inside⟩ := List.exists_mem_of_ne_nil row (nonempty row member)
    obtain ⟨c, inWord, plain⟩ := latinWords_seen wide someSeen word (inLatin member inside)
    exact ⟨c, mem_join_of_mem _ inside inWord, plain⟩
  · rintro ⟨other, same, short, fits⟩
    have fewest := pack_length_le same fun row member =>
      (rowFits_iff wide narrow limit row).mp (fits row member)
    rw [packed (fewest.trans short)]
    refine ⟨_, rfl, pack_flatten limit _, fun row member => ?_⟩
    exact (rowFits_iff wide narrow limit row).mpr (fits_of_mem_pack member)

end Width

/-- The texts `aa bb` and `c` are split in two lines. -/
theorem wrap_latin_lossless_and_tight_example :
    LatinLines isCjk [0x61, 0x61, 0x20, 0x62, 0x62, 0x20, 0x63] 5 2
      (wrapLatin isCjk [0x61, 0x61, 0x20, 0x62, 0x62, 0x20, 0x63] 5 2) :=
  wrap_latin_lossless_and_tight isCjk (by decide) (by decide) 5 2

end SubtitleTranslator.Engine
