import SubtitleTranslator.Construction.Rebuild
import SubtitleTranslator.Proof.Segments

namespace SubtitleTranslator.Engine
open Library Library.Text

/-- The numbers of the placeholders of a text, in order. -/
def marks (s : Str) : List Nat := (s.filter isPlaceholder).map placeholderNumber

/-- The characters that are neither whitespace nor placeholders. -/
def isPlain (c : CodePoint) : Bool := !isSpace c && !isPlaceholder c

def plain (s : Str) : Str := s.filter isPlain

theorem isSpace_of_isPlaceholder {c : CodePoint} (mark : isPlaceholder c = true) :
    isSpace c = false := by
  apply isSpace_of_isReserved
  simp [isReserved, mark]

theorem isPlaceholder_of_isSpace {c : CodePoint} (space : isSpace c = true) :
    isPlaceholder c = false := by
  by_contra mark
  rw [Bool.not_eq_false] at mark
  rw [isSpace_of_isPlaceholder mark] at space
  cases space

theorem marks_append (s t : Str) : marks (s ++ t) = marks s ++ marks t := by
  simp [marks]

theorem plain_append (s t : Str) : plain (s ++ t) = plain s ++ plain t := by
  simp [plain]

/-- Placeholders are visible. -/
theorem marks_visible (s : Str) : marks (visible s) = marks s := by
  rw [marks, filter_visible (fun _ => isPlaceholder_of_isSpace), marks]

theorem plain_visible (s : Str) : plain (visible s) = plain s :=
  filter_visible (fun c space => by simp [isPlain, space]) s

theorem marks_of_visible {s t : Str} (same : visible s = visible t) : marks s = marks t := by
  rw [← marks_visible s, same, marks_visible]

theorem plain_of_visible {s t : Str} (same : visible s = visible t) : plain s = plain t := by
  rw [← plain_visible s, same, plain_visible]

theorem plain_lead (s : Str) : plain (s.takeWhile isLead) = [] := by
  apply List.filter_eq_nil_iff.mpr
  intro c member
  have leads := List.mem_takeWhile_imp member
  unfold isLead at leads
  cases space : isSpace c <;> cases mark : isPlaceholder c <;> simp_all [isPlain]

/-- A dash is put before the plain characters and keeps the placeholders. -/
theorem withDash_spec (line : Str) (inside : Bool) :
    marks (withDash line inside) = marks line ∧ plain (withDash line inside) = 0x2d :: plain line := by
  have dashMarks : marks (ofString "- ") = [] := by decide
  have dashPlain : plain (ofString "- ") = [0x2d] := by decide
  simp only [withDash]
  split
  · have front := visible_strip (line.takeWhile isLead)
    have split : line.takeWhile isLead ++ line.dropWhile isLead = line :=
      List.takeWhile_append_dropWhile
    constructor
    · rw [marks_append, marks_append, dashMarks, marks_of_visible front, List.append_nil,
        ← marks_append, split]
    · rw [plain_append, plain_append, dashPlain, plain_of_visible front, plain_lead,
        List.nil_append, ← split, plain_append, plain_lead, split]
      rfl
  · constructor
    · rw [marks_append, dashMarks, List.nil_append]
    · rw [plain_append, dashPlain]
      rfl

/-- `chr` has characters for the placeholders of that many tags. -/
def placeableCount : Nat := 131072

theorem placeholder_ok_iff {k : Nat} : (∃ c, placeholder k = .ok c) ↔ k < placeableCount := by
  have bound : k < placeableCount ↔ 0xf0000 + k < 0x110000 := by
    rw [placeableCount]
    omega
  rw [bound, placeholder]
  split
  · rename_i inside
    exact ⟨fun _ => inside, fun _ => ⟨_, rfl⟩⟩
  · rename_i outside
    exact ⟨fun ⟨_, placed⟩ => (by cases placed), fun inside => absurd inside outside⟩

/-- The placeholder of a number is in the range when the number is small. -/
theorem placeholder_spec {k : Nat} {c : CodePoint} (placed : placeholder k = .ok c) :
    0xf0000 ≤ c.val ∧ isPlaceholder c = decide (k < placeholderCount) ∧
      placeholderNumber c = k := by
  unfold placeholder at placed
  split at placed
  · cases placed
    refine ⟨Nat.le_add_right _ _, ?_, Nat.add_sub_cancel_left _ _⟩
    rw [isPlaceholder, placeholderCount, Bool.eq_iff_iff]
    simp only [Bool.and_eq_true, decide_eq_true_eq]
    omega
  · cases placed

/-- A kind of character that no placeholder of a tag is. -/
def Unplaced (count : Nat) (kind : CodePoint → Bool) : Prop :=
  ∀ k < count, ∀ c, placeholder k = .ok c → kind c = false

/-- The substitution puts one placeholder for each sentinel and keeps the other characters. -/
theorem substitutePlaceholders_spec {count : Nat} {read : List (CodePoint ⊕ Str)}
    {numbers seen : List Nat} (few : count ≤ placeableCount)
    (unmarked : ∀ c, .inl c ∈ read → isPlaceholder c = false)
    (numbered : (read.filterMap Sum.getRight?).mapM int = .ok numbers)
    (small : ∀ k ∈ numbers, k < count) (distinct : numbers.Nodup)
    (fresh : ∀ k ∈ numbers, k ∉ seen) :
    ∃ s, substitutePlaceholders count read seen = .ok (s, numbers.reverse ++ seen) ∧
      marks s = numbers.filter (· < placeholderCount) ∧
      ∀ kind, Unplaced count kind → s.filter kind = (read.filterMap Sum.getLeft?).filter kind := by
  induction read generalizing numbers seen with
  | nil =>
      cases numbered
      exact ⟨[], rfl, rfl, fun _ _ => rfl⟩
  | cons part read ih =>
      have later : ∀ c, .inl c ∈ read → isPlaceholder c = false :=
        fun c member => unmarked c (List.mem_cons_of_mem _ member)
      cases part with
      | inl c =>
          obtain ⟨s, substituted, marked, kept⟩ := ih later numbered small distinct fresh
          have unmarkedHead := unmarked c List.mem_cons_self
          refine ⟨c :: s, ?_, ?_, fun kind apart => ?_⟩
          · rw [substitutePlaceholders, substituted]
            rfl
          · rw [← marked]
            simp [marks, unmarkedHead]
          · show (c :: s).filter kind = (c :: _).filter kind
            rw [List.filter_cons, List.filter_cons, kept kind apart]
      | inr digits =>
          change (digits :: read.filterMap Sum.getRight?).mapM int = .ok numbers at numbered
          rw [List.mapM_cons, Fallible.bind_ok] at numbered
          obtain ⟨k, number, others⟩ := numbered
          obtain ⟨rest, tail, same⟩ := Fallible.bind_ok.mp others
          cases same
          rw [List.nodup_cons] at distinct
          rw [List.forall_mem_cons] at small fresh
          obtain ⟨mark, placed⟩ := placeholder_ok_iff.mpr (small.1.trans_le few)
          obtain ⟨_, isMark, marksNumber⟩ := placeholder_spec placed
          obtain ⟨s, substituted, marked, kept⟩ := @ih rest (k :: seen) later tail small.2
            distinct.2 (by
              intro other member
              rw [List.mem_cons, not_or]
              refine ⟨?_, fresh.2 other member⟩
              rintro rfl
              exact distinct.1 member)
          refine ⟨mark :: s, ?_, ?_, fun kind apart => ?_⟩
          · rw [substitutePlaceholders, number]
            show (if k < count ∧ k ∉ seen then _ else _) = _
            rw [if_pos ⟨small.1, fresh.1⟩, placed]
            show (substitutePlaceholders count read (k :: seen) >>= _) = _
            rw [substituted, List.reverse_cons, List.append_assoc]
            rfl
          · rw [List.filter_cons, ← marked, marks, List.filter_cons, isMark]
            split
            · rw [List.map_cons, marksNumber]
              rfl
            · rfl
          · rw [List.filter_cons_of_neg (by simp [apart k small.1 mark placed])]
            exact kept kind apart

/-- A substitution that succeeds has characters for all its numbers. -/
theorem substitutePlaceholders_placed {count : Nat} {read : List (CodePoint ⊕ Str)} {s : Str}
    {seen after : List Nat} (before : ∀ k ∈ seen, k < placeableCount)
    (substituted : substitutePlaceholders count read seen = .ok (s, after)) :
    ∀ k ∈ after, k < placeableCount := by
  induction read generalizing seen s after with
  | nil =>
      cases substituted
      exact before
  | cons part read ih =>
      cases part with
      | inl c =>
          rw [substitutePlaceholders] at substituted
          obtain ⟨⟨rest, later⟩, continued, same⟩ := Fallible.bind_ok.mp substituted
          cases same
          exact ih before continued
      | inr digits =>
          rw [substitutePlaceholders] at substituted
          obtain ⟨k, _, decided⟩ := Fallible.bind_ok.mp substituted
          split at decided
          · obtain ⟨mark, placed, decided⟩ := Fallible.bind_ok.mp decided
            obtain ⟨⟨rest, later⟩, continued, same⟩ := Fallible.bind_ok.mp decided
            cases same
            exact ih (List.forall_mem_cons.mpr ⟨placeholder_ok_iff.mp ⟨mark, placed⟩, before⟩)
              continued
          · exact ih before decided

/-- A wrap form has a character for each tag. -/
theorem length_le_of_toWrapForm {t s : Str} {tags : List Str}
    (wrapped : toWrapForm t tags = .ok s) : tags.length ≤ placeableCount := by
  obtain ⟨⟨_, seen⟩, substituted, continued⟩ := Fallible.bind_ok.mp wrapped
  obtain ⟨lost, places, _⟩ := Fallible.bind_ok.mp continued
  have early := substitutePlaceholders_placed (List.forall_mem_nil _) substituted
  have each (k : Nat) (tag : k < tags.length) : k < placeableCount := by
    by_cases inSeen : k ∈ seen
    · exact early k inSeen
    · have inLost : k ∈ (List.range tags.length).filter (· ∉ seen) :=
        List.mem_filter.mpr ⟨List.mem_range.mpr tag, by simpa using inSeen⟩
      obtain ⟨mark, _, placed⟩ :=
        Fallible.exists_of_forall₂ (Fallible.mapM_ok.mp places) inLost
      exact placeholder_ok_iff.mp ⟨mark, placed⟩
  by_contra many
  exact lt_irrefl _ (each placeableCount (by omega))

/-- An output that passed the validation against its segment, or the segment's own text. -/
def ValidOutput (seg : Segment) (t : Str) : Prop :=
  t = seg.text ∨ ∃ position, validateLine position seg.text (some t) = .ok t

/-- The sentinels of an output number all tags once, and no other bracket remains. -/
structure WellMentioned (count : Nat) (t : Str) (numbers : List Nat) : Prop where
  read : sentinelNumbers t = .ok numbers
  all : numbers.Perm (List.range count)
  opening : (removeSentinels t).any isOpening = false
  closing : (removeSentinels t).any isClosing = false

theorem int_decimal_small {k : Nat} (small : k < placeableCount) : int (decimal k) = .ok k := by
  have bound : k < 10 ^ maxStrDigits :=
    calc
      k < 10 ^ 6 := small.trans (by decide)
      _ ≤ 10 ^ maxStrDigits := Nat.pow_le_pow_right (by decide) (by decide)
  rw [int, int?_decimal, if_pos bound]

/-- The own text of a segment mentions its tags in order. -/
theorem Masked.wellMentioned {text : Str} {tags : List Str} (masked : Masked text tags)
    (few : tags.length ≤ placeableCount) :
    WellMentioned tags.length text (List.range tags.length) := by
  obtain ⟨tokens, clean, spelled, _⟩ := masked.spelled
  have read := scan_tokens clean []
  rw [List.append_nil, Pattern.scan_nil, List.append_nil, spelled] at read
  have free (c : CodePoint) (member : c ∈ removeSentinels text) : (Token.char c).Clean := by
    rw [removeSentinels_eq read.symm, List.mem_filterMap] at member
    obtain ⟨part, inRead, isChar⟩ := member
    obtain ⟨token, inTokens, rfl⟩ := List.mem_map.mp inRead
    cases token with
    | sentinel before digits after => cases isChar
    | char other =>
        cases isChar
        exact clean _ inTokens
  refine ⟨?_, List.Perm.refl _, ?_, ?_⟩
  · rw [sentinelNumbers, masked.numbers, Fallible.mapM_ok, List.forall₂_map_left_iff,
      List.forall₂_same]
    exact fun k member => int_decimal_small ((List.mem_range.mp member).trans_le few)
  · rw [List.any_eq_false]
    exact fun c member => by simp [(free c member).1]
  · rw [List.any_eq_false]
    exact fun c member => by simp [(free c member).2]

/-- A valid output mentions all tags of its segment once. -/
theorem ValidOutput.wellMentioned {seg : Segment} {t : Str} (masked : Masked seg.text seg.tags)
    (few : seg.tags.length ≤ placeableCount) (valid : ValidOutput seg t) :
    ∃ numbers, WellMentioned seg.tags.length t numbers := by
  have own := masked.wellMentioned few
  rcases valid with rfl | ⟨position, valid⟩
  · exact ⟨_, own⟩
  · rw [validateLine] at valid
    split at valid
    · cases valid
    · obtain ⟨matching, matched, decided⟩ := Fallible.bind_ok.mp valid
      cases matching with
      | false => cases decided
      | true =>
          obtain ⟨expected, readSource, continued⟩ := Fallible.bind_ok.mp matched
          obtain ⟨got, readOutput, continued⟩ := Fallible.bind_ok.mp continued
          rw [own.read] at readSource
          cases readSource
          split at continued
          · rename_i perm
            have clean := Except.ok.inj continued
            rw [Bool.and_eq_true, Bool.not_eq_true', Bool.not_eq_true'] at clean
            exact ⟨got, readOutput, (List.isPerm_iff.mp perm).symm, clean.1, clean.2⟩
          · cases continued

/-- A token without placeholder characters. -/
def Token.unmarked : Token → Bool
  | .char c => !isPlaceholder c
  | .sentinel _ _ _ => true

theorem isPlaceholder_of_lt {c : CodePoint} (low : c.val < 0xf0000) : isPlaceholder c = false := by
  simp only [isPlaceholder, Bool.and_eq_false_iff, decide_eq_false_iff_not]
  omega

/-- Deleting the placeholders deletes whole tokens. -/
theorem filter_tokens {tokens : List Token} (clean : ∀ token ∈ tokens, token.Clean) :
    (tokens.flatMap Token.text).filter (fun c => !isPlaceholder c) =
      (tokens.filter Token.unmarked).flatMap Token.text := by
  induction tokens with
  | nil => rfl
  | cons token tokens ih =>
      rw [List.forall_mem_cons] at clean
      rw [List.flatMap_cons, List.filter_append, ih clean.2]
      cases token with
      | char c => cases mark : isPlaceholder c <;> simp [Token.unmarked, Token.text, mark]
      | sentinel before digits after =>
          obtain ⟨spaces, _, decimals, spacesAfter⟩ := clean.1
          rw [List.filter_cons_of_pos rfl, List.flatMap_cons, List.filter_eq_self.mpr]
          intro c member
          have outside : isPlaceholder c = false := by
            simp only [Token.text, List.mem_cons, List.mem_append, List.not_mem_nil, or_false]
              at member
            rcases member with rfl | inBefore | inDigits | inAfter | rfl
            · decide
            · exact isPlaceholder_of_isSpace (spaces c inBefore)
            · have := val_lt_of_isDecimal (decimals c inDigits)
              exact isPlaceholder_of_lt (by omega)
            · exact isPlaceholder_of_isSpace (spacesAfter c inAfter)
            · decide
          simp [outside]

/-- Tokens without placeholder characters have the same sentinels. -/
theorem unmarked_numbers (tokens : List Token) :
    ((tokens.filter Token.unmarked).map Token.read).filterMap Sum.getRight? =
      (tokens.map Token.read).filterMap Sum.getRight? := by
  induction tokens with
  | nil => rfl
  | cons token tokens ih =>
      cases token with
      | sentinel before digits after => exact congrArg (digits :: ·) ih
      | char c =>
          cases mark : isPlaceholder c with
          | true =>
              rw [List.filter_cons_of_neg (by simp [Token.unmarked, mark])]
              exact ih
          | false =>
              rw [List.filter_cons_of_pos (by simp [Token.unmarked, mark])]
              exact ih

/-- Tokens without placeholder characters have the same characters of a kind that these are not. -/
theorem unmarked_filter {kind : CodePoint → Bool}
    (outside : ∀ c, isPlaceholder c = true → kind c = false) (tokens : List Token) :
    (((tokens.filter Token.unmarked).map Token.read).filterMap Sum.getLeft?).filter kind =
      ((tokens.map Token.read).filterMap Sum.getLeft?).filter kind := by
  induction tokens with
  | nil => rfl
  | cons token tokens ih =>
      cases token with
      | sentinel before digits after => exact ih
      | char c =>
          cases mark : isPlaceholder c with
          | true =>
              rw [List.filter_cons_of_neg (by simp [Token.unmarked, mark]), ih]
              exact (List.filter_cons_of_neg (by simp [outside c mark])).symm
          | false =>
              rw [List.filter_cons_of_pos (by simp [Token.unmarked, mark])]
              show (c :: _).filter kind = (c :: _).filter kind
              rw [List.filter_cons, List.filter_cons, ih]

theorem not_bracket_of_high {c : CodePoint} (high : 0xf0000 ≤ c.val) :
    isOpening c = false ∧ isClosing c = false := by
  constructor
  · rw [isOpening, beq_eq_false_iff_ne]
    rintro rfl
    revert high
    decide
  · rw [isClosing, beq_eq_false_iff_ne]
    rintro rfl
    revert high
    decide

/-- The kinds of characters that the wrap form of an output keeps. -/
structure Ordinary (count : Nat) (kind : CodePoint → Bool) : Prop where
  apart : Unplaced count kind
  outside : ∀ c, isPlaceholder c = true → kind c = false
  seen : ∀ c, isSpace c = true → kind c = false

/-- The wrap form of a well mentioned output has its placeholders in the order of the sentinels
and the other characters of the output. -/
theorem toWrapForm_placed {t : Str} {tags : List Str} {numbers : List Nat}
    (few : tags.length ≤ placeableCount) (mentioned : WellMentioned tags.length t numbers) :
    ∃ s, toWrapForm t tags = .ok s ∧ marks s = numbers.filter (· < placeholderCount) ∧
      ∀ kind, Ordinary tags.length kind → s.filter kind = (removeSentinels t).filter kind := by
  obtain ⟨tokens, clean, spelled, read⟩ :=
    exists_clean_tokens mentioned.opening mentioned.closing
  have keptClean : ∀ token ∈ tokens.filter Token.unmarked, token.Clean :=
    fun token member => clean token (List.mem_of_mem_filter member)
  have scanned : sentinelRe.scan (t.filter fun c => !isPlaceholder c) =
      (tokens.filter Token.unmarked).map Token.read := by
    have whole := scan_tokens keptClean []
    rw [List.append_nil, Pattern.scan_nil, List.append_nil, ← filter_tokens clean, spelled] at whole
    exact whole
  have numbered : (((tokens.filter Token.unmarked).map Token.read).filterMap
      Sum.getRight?).mapM int = .ok numbers := by
    rw [unmarked_numbers, read]
    exact mentioned.read
  have unmarked (c : CodePoint) (member : .inl c ∈ (tokens.filter Token.unmarked).map Token.read) :
      isPlaceholder c = false := by
    obtain ⟨token, inKept, isChar⟩ := List.mem_map.mp member
    cases token with
    | sentinel before digits after => cases isChar
    | char other =>
        cases isChar
        simpa [Token.unmarked] using (List.mem_filter.mp inKept).2
  have small (k : Nat) (member : k ∈ numbers) : k < tags.length :=
    List.mem_range.mp (mentioned.all.mem_iff.mp member)
  obtain ⟨s, substituted, marked, kept⟩ := substitutePlaceholders_spec few unmarked numbered small
    (mentioned.all.nodup_iff.mpr List.nodup_range) (fun _ _ => List.not_mem_nil)
  have inside : (((tokens.filter Token.unmarked).map Token.read).filterMap Sum.getLeft?).Sublist
      (removeSentinels t) := by
    rw [removeSentinels_eq read]
    exact (List.filter_sublist.map _).filterMap _
  have absent (kind : CodePoint → Bool) (apart : Unplaced tags.length kind)
      (missing : (removeSentinels t).any kind = false) (c : CodePoint) (member : c ∈ s) :
      kind c = false := by
    by_contra found
    rw [Bool.not_eq_false] at found
    have inKind := List.mem_filter.mpr ⟨member, found⟩
    rw [kept kind apart] at inKind
    exact List.any_eq_false.mp missing c (inside.subset (List.mem_of_mem_filter inKind)) found
  have noBracket : s.filter (fun c => !isOpening c && !isClosing c) = s := by
    apply List.filter_eq_self.mpr
    intro c member
    have opening := absent isOpening
      (fun k _ mark placed => (not_bracket_of_high (placeholder_spec placed).1).1)
      mentioned.opening c member
    have closing := absent isClosing
      (fun k _ mark placed => (not_bracket_of_high (placeholder_spec placed).1).2)
      mentioned.closing c member
    simp [opening, closing]
  have noneLost : (List.range tags.length).filter (· ∉ numbers.reverse ++ []) = [] := by
    apply List.filter_eq_nil_iff.mpr
    intro k member
    simpa using mentioned.all.mem_iff.mpr member
  refine ⟨strip s, ?_, ?_, fun kind ordinary => ?_⟩
  · rw [toWrapForm, scanned, substituted]
    show (((List.range tags.length).filter (· ∉ numbers.reverse ++ [])).mapM placeholder >>= _) = _
    rw [noneLost, noBracket]
    show Except.ok (strip s ++ []) = _
    rw [List.append_nil]
  · rw [marks_of_visible (visible_strip s), marked]
  · rw [filter_strip ordinary.seen, kept kind ordinary.apart, unmarked_filter ordinary.outside,
      removeSentinels_eq read]

/-- With few tags the placeholders are in the order of all sentinels, and plain characters stay
plain. -/
theorem toWrapForm_spec {t : Str} {tags : List Str} {numbers : List Nat}
    (few : tags.length ≤ placeholderCount) (mentioned : WellMentioned tags.length t numbers) :
    ∃ s, toWrapForm t tags = .ok s ∧ marks s = numbers ∧ plain s = plain (removeSentinels t) := by
  obtain ⟨s, wrapped, marked, kept⟩ := toWrapForm_placed (few.trans (by decide)) mentioned
  refine ⟨s, wrapped, ?_, kept isPlain ⟨fun k tag c placed => ?_, ?_, ?_⟩⟩
  · rw [marked, List.filter_eq_self.mpr]
    intro k member
    exact decide_eq_true ((List.mem_range.mp (mentioned.all.mem_iff.mp member)).trans_le few)
  · rw [isPlain, (placeholder_spec placed).2.1, decide_eq_true (tag.trans_le few)]
    simp
  · exact fun c mark => by simp [isPlain, mark]
  · exact fun c space => by simp [isPlain, space]

end SubtitleTranslator.Engine
