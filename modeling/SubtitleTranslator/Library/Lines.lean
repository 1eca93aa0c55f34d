import SubtitleTranslator.Library.Text

namespace Library.Text

/-- This function is `part in s`. -/
def occurs (part s : Str) : Bool := s.tails.any fun tail => part.isPrefixOf tail

/-- This function is `s.split(separator)` for a separator of two characters. -/
def splitPair (first second : CodePoint) : Str → List Str
  | [] => [[]]
  | [c] => [[c]]
  | c :: d :: rest =>
      if c = first ∧ d = second then [] :: splitPair first second rest
      else (splitPair first second (d :: rest)).modifyHead (c :: ·)

/-- This function is `s.split(separator, most)`. -/
def splitMax (separator : CodePoint) : Nat → Str → List Str
  | 0, s => [s]
  | _ + 1, [] => [[]]
  | most + 1, c :: rest =>
      if c = separator then [] :: splitMax separator most rest
      else (splitMax separator (most + 1) rest).modifyHead (c :: ·)

/-- This function is `s.rpartition(separator)`; it fails when there is no separator. -/
def rpartition? (separator : CodePoint) : Str → Option (Str × Str)
  | [] => none
  | c :: rest =>
      match rpartition? separator rest with
      | some (front, back) => some (c :: front, back)
      | none => if c = separator then some ([], rest) else none

/-- The two line ends that a written file has. -/
inductive Newline where
  | lf
  | crLf
  deriving DecidableEq

def Newline.text : Newline → Str
  | .lf => [0xa]
  | .crLf => [0xd, 0xa]

/-- The lines of a text whose line ends are LF, CR LF or CR. -/
def lines (s : Str) : List Str := (normalizeNewlines s).splitOn 0xa

theorem join_nil (separator : Str) : join separator [] = [] := rfl

/-- A join has a separator after each part but the last. -/
theorem join_cons (separator part : Str) {rest : List Str} (nonempty : rest ≠ []) :
    join separator (part :: rest) = part ++ separator ++ join separator rest := by
  cases rest with
  | nil => exact absurd rfl nonempty
  | cons next rest => exact join_cons_cons separator part next rest

theorem join_concat (separator : Str) {parts : List Str} (nonempty : parts ≠ []) (last : Str) :
    join separator (parts ++ [last]) = join separator parts ++ separator ++ last := by
  induction parts with
  | nil => exact absurd rfl nonempty
  | cons part rest ih =>
      cases rest with
      | nil =>
          rw [List.singleton_append, join_cons_cons, join_singleton, join_singleton]
      | cons next rest =>
          rw [List.cons_append, join_cons separator part (by simp), ih (List.cons_ne_nil _ _),
            join_cons_cons]
          simp only [List.append_assoc]

theorem join_append (separator : Str) {front back : List Str} (nonempty : front ≠ [])
    (more : back ≠ []) :
    join separator (front ++ back) = join separator front ++ separator ++ join separator back := by
  induction front with
  | nil => exact absurd rfl nonempty
  | cons part rest ih =>
      cases rest with
      | nil => rw [List.singleton_append, join_cons separator part more, join_singleton]
      | cons next rest =>
          rw [List.cons_append, join_cons separator part (by simp), ih (List.cons_ne_nil _ _),
            join_cons_cons]
          simp only [List.append_assoc]

/-- A join holds its parts. -/
theorem mem_join_of_mem (separator : Str) {parts : List Str} {part : Str} (inside : part ∈ parts)
    {c : CodePoint} (member : c ∈ part) : c ∈ join separator parts := by
  induction parts with
  | nil => cases inside
  | cons first rest ih =>
      cases rest with
      | nil =>
          rw [List.mem_singleton] at inside
          subst inside
          rwa [join_singleton]
      | cons next rest =>
          rw [join_cons_cons, List.mem_append, List.mem_append]
          rcases List.mem_cons.mp inside with rfl | later
          · exact .inl (.inl member)
          · exact .inr (ih later)

/-- Joining blocks of parts is joining their joins. -/
theorem join_flatten (separator : Str) {blocks : List (List Str)}
    (nonempty : ∀ block ∈ blocks, block ≠ []) :
    join separator blocks.flatten = join separator (blocks.map (join separator)) := by
  induction blocks with
  | nil => rfl
  | cons block blocks ih =>
      rw [List.forall_mem_cons] at nonempty
      cases blocks with
      | nil => simp [join_singleton]
      | cons next blocks =>
          have tail : (next :: blocks).flatten ≠ [] := by
            rw [List.flatten_cons]
            exact List.append_ne_nil_of_left_ne_nil (nonempty.2 next List.mem_cons_self) _
          rw [List.flatten_cons, join_append separator nonempty.1 tail, ih nonempty.2]
          exact (join_cons_cons separator _ _ _).symm

theorem join_modifyHead (separator : Str) (c : CodePoint) {parts : List Str}
    (nonempty : parts ≠ []) :
    join separator (parts.modifyHead (c :: ·)) = c :: join separator parts := by
  cases parts with
  | nil => exact absurd rfl nonempty
  | cons part rest =>
      cases rest with
      | nil => simp [join_singleton]
      | cons next rest => simp [join_cons_cons]

theorem splitPair_ne_nil (first second : CodePoint) (s : Str) : splitPair first second s ≠ [] := by
  fun_induction splitPair first second s with
  | case1 => simp
  | case2 => simp
  | case3 => simp
  | case4 c d rest _ ih => simpa using ih

/-- Joining what a separator splits gives the text back. -/
theorem join_splitPair (first second : CodePoint) (s : Str) :
    join [first, second] (splitPair first second s) = s := by
  fun_induction splitPair first second s with
  | case1 => rfl
  | case2 c => exact join_singleton _ _
  | case3 c d rest pair ih =>
      rw [join_cons _ _ (splitPair_ne_nil first second rest), ih, pair.1, pair.2]
      rfl
  | case4 c d rest _ ih =>
      rw [join_modifyHead _ _ (splitPair_ne_nil first second _), ih]

theorem splitMax_ne_nil (separator : CodePoint) (most : Nat) (s : Str) :
    splitMax separator most s ≠ [] := by
  fun_induction splitMax separator most s with
  | case1 => simp
  | case2 => simp
  | case3 => simp
  | case4 most c rest _ ih => simpa using ih

theorem join_splitMax (separator : CodePoint) (most : Nat) (s : Str) :
    join [separator] (splitMax separator most s) = s := by
  fun_induction splitMax separator most s with
  | case1 s => exact join_singleton _ _
  | case2 => rfl
  | case3 most rest ih =>
      rw [join_cons _ _ (splitMax_ne_nil separator most rest), ih]
      rfl
  | case4 most c rest _ ih =>
      rw [join_modifyHead _ _ (splitMax_ne_nil separator _ rest), ih]

/-- A split makes as many cuts as it may. -/
theorem splitMax_length (separator : CodePoint) (most : Nat) (s : Str) :
    (splitMax separator most s).length = min most (s.count separator) + 1 := by
  fun_induction splitMax separator most s with
  | case1 s => simp
  | case2 => simp
  | case3 most rest ih =>
      rw [List.length_cons, ih, List.count_cons_self]
      omega
  | case4 most c rest other ih =>
      rw [List.length_modifyHead, ih, List.count_cons_of_ne other]

/-- Only the last part of a split may have the separator. -/
theorem not_mem_of_mem_splitMax {separator : CodePoint} {most : Nat} {s part : Str}
    (member : part ∈ (splitMax separator most s).dropLast) : separator ∉ part := by
  fun_induction splitMax separator most s generalizing part with
  | case1 s => simp at member
  | case2 => simp at member
  | case3 most rest ih =>
      rw [List.dropLast_cons_of_ne_nil (splitMax_ne_nil separator most rest)] at member
      rcases List.mem_cons.mp member with rfl | later
      · exact List.not_mem_nil
      · exact ih later
  | case4 most c rest other ih =>
      cases parts : splitMax separator (most + 1) rest with
      | nil => exact absurd parts (splitMax_ne_nil separator _ rest)
      | cons head tail =>
          rw [parts] at member ih
          cases tail with
          | nil => simp at member
          | cons next tail =>
              rw [List.modifyHead_cons, List.dropLast_cons_cons] at member
              rw [List.dropLast_cons_cons] at ih
              rcases List.mem_cons.mp member with rfl | later
              · have outside := ih List.mem_cons_self
                simp [Ne.symm other, outside]
              · exact ih (List.mem_cons_of_mem _ later)

theorem splitMax_append {separator : CodePoint} {part : Str} (outside : separator ∉ part)
    (most : Nat) (rest : Str) :
    splitMax separator (most + 1) (part ++ separator :: rest) =
      part :: splitMax separator most rest := by
  induction part with
  | nil => simp [splitMax]
  | cons c part ih =>
      rw [List.mem_cons, not_or] at outside
      rw [List.cons_append, splitMax, if_neg (Ne.symm outside.1), ih outside.2]
      rfl

/-- A split reads joined parts back when only the last one has the separator. -/
theorem splitMax_join {separator : CodePoint} {parts : List Str} (nonempty : parts ≠ [])
    (outside : ∀ part ∈ parts.dropLast, separator ∉ part) :
    splitMax separator (parts.length - 1) (join [separator] parts) = parts := by
  induction parts with
  | nil => exact absurd rfl nonempty
  | cons part rest ih =>
      cases rest with
      | nil => simp [join_singleton, splitMax]
      | cons next rest =>
          rw [List.dropLast_cons_cons, List.forall_mem_cons] at outside
          have tail := ih (List.cons_ne_nil _ _) outside.2
          rw [join_cons_cons, List.append_assoc]
          show splitMax separator (rest.length + 1) (part ++ separator :: _) = _
          rw [splitMax_append outside.1]
          exact congrArg (part :: ·) tail

/-- Joined parts have a separator between each two of them. -/
theorem count_join (separator : CodePoint) (parts : List Str) :
    parts.length - 1 ≤ (join [separator] parts).count separator := by
  induction parts with
  | nil => exact Nat.zero_le _
  | cons part rest ih =>
      cases rest with
      | nil => exact Nat.zero_le _
      | cons next rest =>
          rw [join_cons_cons, List.count_append, List.count_append, List.count_singleton_self]
          simp only [List.length_cons] at ih ⊢
          omega

/-- Joined parts determine one of them from the others. -/
theorem join_set_injective (separator : Str) {parts : List Str} {i : Nat} (inside : i < parts.length)
    {first second : Str}
    (same : join separator (parts.set i first) = join separator (parts.set i second)) :
    first = second := by
  induction parts generalizing i with
  | nil => cases inside
  | cons part rest ih =>
      cases i with
      | zero =>
          cases rest with
          | nil => simpa [join_singleton] using same
          | cons next rest =>
              rw [List.set_cons_zero, List.set_cons_zero, join_cons_cons, join_cons_cons,
                List.append_assoc, List.append_assoc] at same
              exact List.append_cancel_right same
      | succ i =>
          rw [List.length_cons, Nat.add_lt_add_iff_right] at inside
          have nonempty (value : Str) : rest.set i value ≠ [] := by
            rw [ne_eq, List.set_eq_nil_iff]
            rintro rfl
            cases inside
          rw [List.set_cons_succ, List.set_cons_succ, join_cons _ _ (nonempty first),
            join_cons _ _ (nonempty second)] at same
          exact ih inside (List.append_cancel_left same)

/-- Two texts are replaced apart when no CR LF lies between them. -/
theorem replaceCrLf_append {s t : Str} (apart : s.getLast? ≠ some 0xd ∨ t.head? ≠ some 0xa) :
    replaceCrLf (s ++ t) = replaceCrLf s ++ replaceCrLf t := by
  fun_induction replaceCrLf s with
  | case1 => rfl
  | case2 c =>
      cases t with
      | nil => rfl
      | cons d t =>
          have unpaired : ¬(c = 0xd ∧ d = 0xa) := by
            rintro ⟨rfl, rfl⟩
            simp at apart
          rw [List.singleton_append, replaceCrLf, if_neg unpaired]
          rfl
  | case3 c d rest pair ih =>
      have later : rest.getLast? ≠ some 0xd ∨ t.head? ≠ some 0xa := by
        cases rest with
        | nil => exact .inl nofun
        | cons e rest => simpa using apart
      rw [List.cons_append, List.cons_append, replaceCrLf, if_pos pair, ih later]
      rfl
  | case4 c d rest unpaired ih =>
      have later : (d :: rest).getLast? ≠ some 0xd ∨ t.head? ≠ some 0xa := by simpa using apart
      rw [List.cons_append, List.cons_append, replaceCrLf, if_neg unpaired]
      rw [← List.cons_append, ih later]
      rfl

theorem normalizeNewlines_append {s t : Str}
    (apart : s.getLast? ≠ some 0xd ∨ t.head? ≠ some 0xa) :
    normalizeNewlines (s ++ t) = normalizeNewlines s ++ normalizeNewlines t := by
  rw [normalizeNewlines, replaceCrLf_append apart, List.map_append]
  rfl

theorem not_mem_normalizeNewlines (s : Str) : 0xd ∉ normalizeNewlines s := by
  intro member
  obtain ⟨c, _, same⟩ := List.mem_map.mp member
  split at same
  · cases same
  · contradiction

/-- A text without CR is already normal. -/
theorem normalizeNewlines_eq_self {s : Str} (absent : 0xd ∉ s) : normalizeNewlines s = s := by
  rw [normalizeNewlines, replaceCrLf_eq_self absent]
  conv_rhs => rw [← List.map_id s]
  apply List.map_congr_left
  intro c member
  have other : c ≠ 0xd := by
    rintro rfl
    exact absent member
  rw [if_neg other]
  rfl

/-- A normal text is its own normal form. -/
theorem normalizeNewlines_idempotent (s : Str) :
    normalizeNewlines (normalizeNewlines s) = normalizeNewlines s :=
  normalizeNewlines_eq_self (not_mem_normalizeNewlines s)

theorem normalizeNewlines_cons_of_ne {c : CodePoint} (other : c ≠ 0xd) (s : Str) :
    normalizeNewlines (c :: s) = c :: normalizeNewlines s := by
  have single : normalizeNewlines [c] = [c] := normalizeNewlines_eq_self (by simp [Ne.symm other])
  rw [← List.singleton_append, normalizeNewlines_append, single]
  · rfl
  · exact .inl (by simp [other])

theorem normalizeNewlines_text (newline : Newline) : normalizeNewlines newline.text = [0xa] := by
  cases newline <;> decide

theorem lines_ne_nil (s : Str) : lines s ≠ [] := List.splitOn_ne_nil _ _

/-- A part of a split has characters of the text, and no separator. -/
theorem of_mem_splitOn {separator : CodePoint} {s part : Str} (member : part ∈ s.splitOn separator) :
    separator ∉ part ∧ ∀ c ∈ part, c ∈ s := by
  induction s generalizing part with
  | nil =>
      rw [List.splitOn_nil, List.mem_singleton] at member
      subst member
      exact ⟨List.not_mem_nil, List.forall_mem_nil _⟩
  | cons c s ih =>
      rw [List.splitOn_cons_eq_if_modifyHead] at member
      split at member
      · rcases List.mem_cons.mp member with rfl | later
        · exact ⟨List.not_mem_nil, List.forall_mem_nil _⟩
        · exact ⟨(ih later).1, fun d inPart => List.mem_cons_of_mem _ ((ih later).2 d inPart)⟩
      · rename_i other
        cases parts : s.splitOn separator with
        | nil => exact absurd parts (List.splitOn_ne_nil _ _)
        | cons head tail =>
            rw [parts] at member ih
            rcases List.mem_cons.mp member with rfl | later
            · obtain ⟨outside, inside⟩ := ih List.mem_cons_self
              constructor
              · have first : separator ≠ c := fun same => other (by simp [same])
                simp [first, outside]
              · exact List.forall_mem_cons.mpr ⟨List.mem_cons_self,
                  fun d inPart => List.mem_cons_of_mem _ (inside d inPart)⟩
            · obtain ⟨outside, inside⟩ := ih (List.mem_cons_of_mem _ later)
              exact ⟨outside, fun d inPart => List.mem_cons_of_mem _ (inside d inPart)⟩

/-- A line has no line end. -/
theorem of_mem_lines {s line : Str} (member : line ∈ lines s) : 0xa ∉ line ∧ 0xd ∉ line := by
  obtain ⟨outside, inside⟩ := of_mem_splitOn member
  exact ⟨outside, fun inLine => not_mem_normalizeNewlines s (inside _ inLine)⟩

/-- A text without line ends is one line. -/
theorem lines_eq_singleton {s : Str} (oneLine : 0xa ∉ s ∧ 0xd ∉ s) : lines s = [s] := by
  rw [lines, normalizeNewlines_eq_self oneLine.2, List.splitOn_eq_singleton oneLine.1]

/-- A front without line ends belongs to the first line. -/
theorem lines_front {front : Str} (oneLine : 0xa ∉ front ∧ 0xd ∉ front) (s : Str) :
    lines (front ++ s) = (lines s).modifyHead (front ++ ·) := by
  have apart : front.getLast? ≠ some 0xd := fun back => oneLine.2 (List.mem_of_getLast? back)
  rw [lines, normalizeNewlines_append (.inl apart), normalizeNewlines_eq_self oneLine.2, lines]
  have outside := oneLine.1
  clear oneLine apart
  induction front with
  | nil => exact (congrFun List.modifyHead_id _).symm
  | cons c front ih =>
      rw [List.mem_cons, not_or] at outside
      rw [List.cons_append, List.splitOn_cons_eq_if_modifyHead, if_neg (by simp [Ne.symm outside.1]),
        ih outside.2, List.modifyHead_modifyHead]
      rfl

/-- The lines of two texts with a line end between them. -/
theorem lines_append (newline : Newline) {s : Str}
    (apart : newline = .crLf ∨ s.getLast? ≠ some 0xd) (t : Str) :
    lines (s ++ newline.text ++ t) = lines s ++ lines t := by
  have first : normalizeNewlines (s ++ newline.text) = normalizeNewlines s ++ [0xa] := by
    rw [normalizeNewlines_append, normalizeNewlines_text]
    rcases apart with rfl | plain
    · exact .inr (by decide)
    · exact .inl plain
  have whole : normalizeNewlines (s ++ newline.text ++ t) =
      normalizeNewlines s ++ 0xa :: normalizeNewlines t := by
    rw [normalizeNewlines_append, first, List.append_assoc]
    · rfl
    · refine .inl ?_
      cases newline <;> simp [Newline.text]
  rw [lines, whole, List.splitOn_append_cons_self]
  rfl

/-- A group of lines is what a text contributes to the lines of a file: all its lines, or all but
an empty last one. -/
def Lays (s : Str) (group : List Str) : Prop :=
  ∃ first tail more, lines s = first :: tail ∧ more <+: tail ∧ group = first :: more

/-- A text without line ends lays itself. -/
theorem Lays.eq_singleton {s : Str} {group : List Str} (laid : Lays s group)
    (oneLine : 0xa ∉ s ∧ 0xd ∉ s) : group = [s] := by
  obtain ⟨first, tail, more, whole, front, rfl⟩ := laid
  rw [lines_eq_singleton oneLine] at whole
  cases whole
  rw [List.prefix_nil.mp front]

theorem lays_lines (s : Str) : Lays s (lines s) := by
  cases text : lines s with
  | nil => exact absurd text (lines_ne_nil s)
  | cons first tail => exact ⟨first, tail, tail, text, List.prefix_rfl, rfl⟩

/-- A text before a line end lays a group of lines, also when it ends with CR. -/
theorem exists_lays (newline : Newline) (s t : Str) :
    ∃ group, Lays s group ∧ lines (s ++ newline.text ++ t) = group ++ lines t := by
  by_cases apart : newline = .crLf ∨ s.getLast? ≠ some 0xd
  · exact ⟨lines s, lays_lines s, lines_append newline apart t⟩
  · rw [not_or, not_not] at apart
    obtain ⟨other, back⟩ := apart
    obtain ⟨front, rfl⟩ := List.getLast?_eq_some_iff.mp back
    have isLf : newline = .lf := by
      cases newline with
      | lf => rfl
      | crLf => exact absurd rfl other
    subst isLf
    have whole : lines (front ++ [0xd]) = lines front ++ [[]] := by
      rw [lines, normalizeNewlines_append (.inr (by decide)),
        show normalizeNewlines [0xd] = 0xa :: [] from rfl, List.splitOn_append_cons_self]
      rfl
    refine ⟨lines front, ?_, ?_⟩
    · cases text : lines front with
      | nil => exact absurd text (lines_ne_nil front)
      | cons first tail =>
          exact ⟨first, tail ++ [[]], tail, by rw [whole, text]; rfl, List.prefix_append _ _, rfl⟩
    · rw [← lines_append .crLf (.inl rfl) t, List.append_assoc, List.append_assoc,
        List.append_assoc]
      rfl

/-- The lines of joined texts are laid group by group. -/
theorem exists_lays_join (newline : Newline) {texts : List Str} (nonempty : texts ≠ []) :
    ∃ groups, List.Forall₂ Lays texts groups ∧ lines (join newline.text texts) = groups.flatten := by
  induction texts with
  | nil => exact absurd rfl nonempty
  | cons s rest ih =>
      cases rest with
      | nil =>
          refine ⟨[lines s], .cons (lays_lines s) .nil, ?_⟩
          rw [join_singleton, List.flatten_singleton]
      | cons next rest =>
          obtain ⟨groups, laid, same⟩ := ih (List.cons_ne_nil _ _)
          obtain ⟨group, first, front⟩ := exists_lays newline s (join newline.text (next :: rest))
          refine ⟨group :: groups, .cons first laid, ?_⟩
          rw [join_cons_cons, front, same, List.flatten_cons]

/-- The lines of joined texts are theirs when no text ends with CR. -/
theorem lines_join (newline : Newline) {texts : List Str} (nonempty : texts ≠ [])
    (apart : ∀ s ∈ texts, s.getLast? ≠ some 0xd) :
    lines (join newline.text texts) = texts.flatMap lines := by
  induction texts with
  | nil => exact absurd rfl nonempty
  | cons s rest ih =>
      rw [List.forall_mem_cons] at apart
      cases rest with
      | nil => rw [join_singleton, List.flatMap_singleton]
      | cons next rest =>
          rw [join_cons_cons, lines_append newline (.inr apart.1), ih (List.cons_ne_nil _ _) apart.2,
            List.flatMap_cons (x := s)]

theorem lines_cons {c : CodePoint} (notFeed : c ≠ 0xa) (notReturn : c ≠ 0xd) (s : Str) :
    lines (c :: s) = (lines s).modifyHead (c :: ·) :=
  @lines_front [c] (by simp [Ne.symm notFeed, Ne.symm notReturn]) s

theorem lines_feed (s : Str) : lines (0xa :: s) = [] :: lines s :=
  @lines_append .lf [] (.inr (by simp)) s

theorem lines_return_feed (s : Str) : lines (0xd :: 0xa :: s) = [] :: lines s :=
  @lines_append .crLf [] (.inl rfl) s

theorem lines_return {s : Str} (other : s.head? ≠ some 0xa) : lines (0xd :: s) = [] :: lines s := by
  have whole : normalizeNewlines (0xd :: s) = 0xa :: normalizeNewlines s := by
    rw [← List.singleton_append, normalizeNewlines_append (.inr other)]
    rfl
  rw [lines, whole]
  show (([] : Str) ++ 0xa :: normalizeNewlines s).splitOn 0xa = _
  rw [List.splitOn_append_cons_self]
  rfl

/-- A text is built from other characters and the three line ends. -/
theorem lines_induction {motive : Str → Prop} (nil : motive [])
    (other : ∀ c s, c ≠ 0xa → c ≠ 0xd → motive s → motive (c :: s))
    (feed : ∀ s, motive s → motive (0xa :: s))
    (returnFeed : ∀ s, motive s → motive (0xd :: 0xa :: s))
    (return_ : ∀ s, s.head? ≠ some 0xa → motive s → motive (0xd :: s)) (s : Str) : motive s := by
  induction length : s.length using Nat.strong_induction_on generalizing s with
  | _ n ih =>
      subst length
      cases s with
      | nil => exact nil
      | cons c s =>
          have tail : motive s := ih s.length (by simp) s rfl
          by_cases isFeed : c = 0xa
          · exact isFeed ▸ feed s tail
          · by_cases isReturn : c = 0xd
            · subst isReturn
              cases s with
              | nil => exact return_ [] (by simp) tail
              | cons d s =>
                  by_cases pair : d = 0xa
                  · subst pair
                    exact returnFeed s (ih s.length (by simp) s rfl)
                  · exact return_ (d :: s) (by simpa using pair) tail
            · exact other c s isFeed isReturn tail

/-- A replacement that keeps the line ends and makes none acts on each line. -/
theorem lines_flatMap {f : CodePoint → Str} (feed : f 0xa = [0xa]) (return_ : f 0xd = [0xd])
    (others : ∀ c, c ≠ 0xa → c ≠ 0xd → f c ≠ [] ∧ 0xa ∉ f c ∧ 0xd ∉ f c) (s : Str) :
    lines (s.flatMap f) = (lines s).map (·.flatMap f) := by
  induction s using lines_induction with
  | nil => rfl
  | other c s notFeed notReturn ih =>
      obtain ⟨_, oneLine⟩ := others c notFeed notReturn
      rw [List.flatMap_cons, lines_front oneLine, ih, lines_cons notFeed notReturn]
      cases lines s <;> rfl
  | feed s ih =>
      rw [List.flatMap_cons, feed, lines_feed, List.map_cons, ← ih]
      exact lines_feed _
  | returnFeed s ih =>
      rw [List.flatMap_cons, List.flatMap_cons, feed, return_, lines_return_feed, List.map_cons, ← ih]
      exact lines_return_feed _
  | return_ s front ih =>
      have apart : (s.flatMap f).head? ≠ some 0xa := by
        cases s with
        | nil => simp
        | cons c s =>
            by_cases isReturn : c = 0xd
            · rw [List.flatMap_cons, isReturn, return_]
              simp
            · obtain ⟨nonempty, oneLine, _⟩ := others c (by simpa using front) isReturn
              rw [List.flatMap_cons, List.head?_append_of_ne_nil _ nonempty]
              exact fun first => oneLine (List.mem_of_mem_head? first)
      rw [List.flatMap_cons, return_, lines_return front, List.map_cons, ← ih]
      exact lines_return apart

theorem rpartition?_eq_none {separator : CodePoint} {s : Str} :
    rpartition? separator s = none ↔ separator ∉ s := by
  fun_induction rpartition? separator s with
  | case1 => simp
  | case2 c rest front back found ih => simp_all
  | case3 rest absent ih => simp
  | case4 c rest absent other ih =>
      rw [List.mem_cons, not_or]
      exact iff_of_true rfl ⟨fun same => other same.symm, ih.mp absent⟩

/-- A separator that no other follows splits a text. -/
theorem rpartition?_append {separator : CodePoint} (front : Str) {back : Str}
    (absent : separator ∉ back) :
    rpartition? separator (front ++ separator :: back) = some (front, back) := by
  induction front with
  | nil =>
      rw [List.nil_append, rpartition?, rpartition?_eq_none.mpr absent]
      exact if_pos rfl
  | cons c front ih => rw [List.cons_append, rpartition?, ih]

/-- The last separator of a text splits it, and no other follows. -/
theorem of_rpartition? {separator : CodePoint} {s front back : Str}
    (split : rpartition? separator s = some (front, back)) :
    s = front ++ separator :: back ∧ separator ∉ back := by
  induction s generalizing front with
  | nil => cases split
  | cons c rest ih =>
      rw [rpartition?] at split
      cases found : rpartition? separator rest with
      | some parts =>
          rw [found] at split
          cases split
          obtain ⟨form, absent⟩ := ih found
          exact ⟨by rw [form, List.cons_append], absent⟩
      | none =>
          rw [found] at split
          change (if c = separator then some ([], rest) else none) = _ at split
          split_ifs at split with same
          cases split
          exact ⟨by rw [same, List.nil_append], rpartition?_eq_none.mp found⟩

end Library.Text
