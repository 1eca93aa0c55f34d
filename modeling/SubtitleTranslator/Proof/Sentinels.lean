import SubtitleTranslator.Construction.Markup
import SubtitleTranslator.Library.Fallible

namespace SubtitleTranslator.Engine
open Library Library.Text

/-- A text is read as single characters and sentinels. -/
inductive Token where
  | char (c : CodePoint)
  | sentinel (before digits after : Str)

namespace Token

def text : Token → Str
  | char c => [c]
  | sentinel before digits after => 0x27e6 :: (before ++ (digits ++ (after ++ [0x27e7])))

/-- What the scan with `SENTINEL_RE` reads. -/
def read : Token → CodePoint ⊕ Str
  | char c => .inl c
  | sentinel _ digits _ => .inr digits

/-- The spelling of a sentinel that `SENTINEL_RE` accepts. -/
def WellSpelled : Token → Prop
  | char _ => True
  | sentinel before digits after =>
      (∀ c ∈ before, isSpace c = true) ∧ digits ≠ [] ∧ (∀ c ∈ digits, isDecimal c = true) ∧
        ∀ c ∈ after, isSpace c = true

/-- A clean token has sentinel brackets only around a number. -/
def Clean : Token → Prop
  | char c => isOpening c = false ∧ isClosing c = false
  | sentinel before digits after => WellSpelled (sentinel before digits after)

end Token

/-- No whitespace is a decimal digit. -/
theorem isDecimal_of_isSpace {c : CodePoint} (space : isSpace c = true) : isDecimal c = false := by
  have few : c.val ∈ [0x9, 0xa, 0xb, 0xc, 0xd, 0x1c, 0x1d, 0x1e, 0x1f, 0x20, 0x85, 0xa0, 0x1680,
      0x2000, 0x2001, 0x2002, 0x2003, 0x2004, 0x2005, 0x2006, 0x2007, 0x2008, 0x2009, 0x200a,
      0x2028, 0x2029, 0x202f, 0x205f, 0x3000] := by
    simp only [isSpace, Bool.or_eq_true, Bool.and_eq_true, decide_eq_true_eq, beq_iff_eq] at space
    simp only [List.mem_cons, List.not_mem_nil, or_false]
    omega
  have none_ : ∀ value ∈ [0x9, 0xa, 0xb, 0xc, 0xd, 0x1c, 0x1d, 0x1e, 0x1f, 0x20, 0x85, 0xa0, 0x1680,
      0x2000, 0x2001, 0x2002, 0x2003, 0x2004, 0x2005, 0x2006, 0x2007, 0x2008, 0x2009, 0x200a,
      0x2028, 0x2029, 0x202f, 0x205f, 0x3000],
      decimalZeros.find? (fun first => first ≤ value && value < first + 10) = none := by
    decide
  rw [isDecimal, decimalValue?, none_ c.val few]
  rfl

/-- A digit is in the range of its zero. -/
theorem exists_zero_of_isDecimal {c : CodePoint} (digit : isDecimal c = true) :
    ∃ first ∈ decimalZeros, first ≤ c.val ∧ c.val < first + 10 := by
  rw [isDecimal, decimalValue?, Option.isSome_map] at digit
  obtain ⟨first, found⟩ := Option.isSome_iff_exists.mp digit
  have range := List.find?_some found
  simp only [Bool.and_eq_true, decide_eq_true_eq] at range
  exact ⟨first, List.mem_of_find?_eq_some found, range⟩

/-- A digit is below the private areas and is no sentinel bracket. -/
theorem val_lt_of_isDecimal {c : CodePoint} (digit : isDecimal c = true) : c.val < 0x20000 := by
  obtain ⟨first, inTable, range⟩ := exists_zero_of_isDecimal digit
  have bound : ∀ first ∈ decimalZeros, first < 0x1ffff - 10 := by decide
  have := bound first inTable
  omega

theorem isClosing_of_isDecimal {c : CodePoint} (digit : isDecimal c = true) :
    isClosing c = false := by
  by_contra closing
  rw [Bool.not_eq_false, isClosing, beq_iff_eq] at closing
  subst closing
  revert digit
  decide

/-- The pattern reads a well-spelled sentinel. -/
theorem match_sentinel {before digits after : Str}
    (spelled : (Token.sentinel before digits after).WellSpelled) (rest : Str) :
    sentinelRe.match? ((Token.sentinel before digits after).text ++ rest) = some (digits, rest) := by
  obtain ⟨spaces, nonempty, decimals, spacesAfter⟩ := spelled
  have text : (Token.sentinel before digits after).text ++ rest =
      0x27e6 :: (before ++ (digits ++ (after ++ (0x27e7 :: rest)))) := by
    simp [Token.text]
  rw [text, sentinelRe, Pattern.match?_one_bind, if_pos (by decide)]
  refine Pattern.match?_many_bind_run spaces ?_ ?_
  · intro c front
    cases digits with
    | nil => exact absurd rfl nonempty
    | cons digit more =>
        cases front
        by_contra space
        have := isDecimal_of_isSpace (by simpa using space)
        rw [decimals _ List.mem_cons_self] at this
        cases this
  refine Pattern.match?_many1_bind_run nonempty decimals ?_ ?_
  · intro c front
    cases after with
    | nil =>
        cases front
        decide
    | cons space more =>
        cases front
        exact isDecimal_of_isSpace (spacesAfter _ List.mem_cons_self)
  refine Pattern.match?_many_bind_run spacesAfter ?_ ?_
  · intro c front
    cases front
    decide
  rw [Pattern.match?_one_bind, if_pos (by decide), Pattern.match?_pure]

/-- A match of the pattern is a well-spelled sentinel. -/
theorem of_mem_sentinelRe {s : Str} {result : Str × Str} (member : result ∈ sentinelRe s) :
    ∃ before after, (Token.sentinel before result.1 after).WellSpelled ∧
      s = (Token.sentinel before result.1 after).text ++ result.2 := by
  obtain ⟨⟨first, s₁⟩, opening, h⟩ := Pattern.mem_bind.mp member
  obtain ⟨⟨before, s₂⟩, spaces, h⟩ := Pattern.mem_bind.mp h
  obtain ⟨⟨digits, s₃⟩, decimals, h⟩ := Pattern.mem_bind.mp h
  obtain ⟨⟨after, s₄⟩, spacesAfter, h⟩ := Pattern.mem_bind.mp h
  obtain ⟨⟨last, s₅⟩, closing, h⟩ := Pattern.mem_bind.mp h
  rw [Pattern.mem_pure] at h
  subst h
  obtain ⟨rfl, isFirst⟩ := Pattern.mem_one.mp opening
  obtain ⟨rfl, allBefore⟩ := Pattern.of_mem_many spaces
  obtain ⟨rfl, nonempty, allDigits⟩ := Pattern.of_mem_many1 decimals
  obtain ⟨rfl, allAfter⟩ := Pattern.of_mem_many spacesAfter
  obtain ⟨rfl, isLast⟩ := Pattern.mem_one.mp closing
  refine ⟨before, after, ⟨allBefore, nonempty, allDigits, allAfter⟩, ?_⟩
  have opens : first = 0x27e6 := by simpa [isOpening] using isFirst
  have closes : last = 0x27e7 := by simpa [isClosing] using isLast
  simp [Token.text, opens, closes]

theorem sentinelRe_consumes : sentinelRe.Consumes := by
  intro s result member
  obtain ⟨before, after, _, same⟩ := of_mem_sentinelRe member
  refine ⟨0x27e6, before ++ (result.1 ++ (after ++ [0x27e7])), ?_⟩
  rw [same]
  rfl

/-- No sentinel starts at another character. -/
theorem match?_sentinelRe_of_not_opening {c : CodePoint} (other : isOpening c = false)
    (rest : Str) : sentinelRe.match? (c :: rest) = none := by
  rw [sentinelRe, Pattern.match?_one_bind, if_neg (by simp [other])]

/-- The scan of clean tokens and a rest reads the tokens one by one. -/
theorem scan_tokens {tokens : List Token} (clean : ∀ token ∈ tokens, token.Clean) (rest : Str) :
    sentinelRe.scan (tokens.flatMap Token.text ++ rest) =
      tokens.map Token.read ++ sentinelRe.scan rest := by
  induction tokens with
  | nil => rfl
  | cons token tokens ih =>
      have tail := ih fun other member => clean other (List.mem_cons_of_mem _ member)
      have front := clean token List.mem_cons_self
      rw [List.flatMap_cons, List.append_assoc, List.map_cons, List.cons_append, ← tail]
      cases token with
      | char c => exact Pattern.scan_cons_of_none (match?_sentinelRe_of_not_opening front.1 _)
      | sentinel before digits after =>
          have matched := match_sentinel front (tokens.flatMap Token.text ++ rest)
          simp only [Token.text, List.cons_append] at matched ⊢
          exact Pattern.scan_cons_of_some matched

/-- Every text is spelled by the tokens that the scan reads. -/
theorem exists_tokens (s : Str) :
    ∃ tokens : List Token, (∀ token ∈ tokens, token.WellSpelled) ∧
      tokens.flatMap Token.text = s ∧ tokens.map Token.read = sentinelRe.scan s := by
  refine Pattern.scan_induction sentinelRe_consumes
    (motive := fun s read => ∃ tokens : List Token, (∀ token ∈ tokens, token.WellSpelled) ∧
      tokens.flatMap Token.text = s ∧ tokens.map Token.read = read) ?_ ?_ ?_ s
  · exact ⟨[], nofun, rfl, rfl⟩
  · rintro c rest _ ⟨tokens, spelled, texts, reads⟩
    refine ⟨.char c :: tokens, List.forall_mem_cons.mpr ⟨trivial, spelled⟩, ?_, ?_⟩
    · exact congrArg (c :: ·) texts
    · exact congrArg (.inl c :: ·) reads
  · rintro c taken left digits matched ⟨tokens, spelled, texts, reads⟩
    obtain ⟨before, after, wellSpelled, same⟩ := of_mem_sentinelRe (Pattern.match?_mem matched)
    refine ⟨.sentinel before digits after :: tokens,
      List.forall_mem_cons.mpr ⟨wellSpelled, spelled⟩, ?_, ?_⟩
    · rw [List.flatMap_cons, texts, same]
    · exact congrArg (.inr digits :: ·) reads

/-- What remains of tokens without their sentinels. -/
theorem removeSentinels_eq {tokens : List Token} {s : Str}
    (reads : tokens.map Token.read = sentinelRe.scan s) :
    removeSentinels s = (tokens.map Token.read).filterMap Sum.getLeft? := by
  rw [removeSentinels, Pattern.sub, ← reads]
  induction tokens.map Token.read with
  | nil => rfl
  | cons part rest ih =>
      cases part with
      | inl c => exact congrArg (c :: ·) ih
      | inr digits => exact ih

/-- A text without stray brackets is spelled by clean tokens. -/
theorem exists_clean_tokens {s : Str} (opening : (removeSentinels s).any isOpening = false)
    (closing : (removeSentinels s).any isClosing = false) :
    ∃ tokens : List Token, (∀ token ∈ tokens, token.Clean) ∧
      tokens.flatMap Token.text = s ∧ tokens.map Token.read = sentinelRe.scan s := by
  obtain ⟨tokens, spelled, texts, reads⟩ := exists_tokens s
  refine ⟨tokens, fun token member => ?_, texts, reads⟩
  cases token with
  | sentinel before digits after => exact spelled _ member
  | char c =>
      have inside : c ∈ removeSentinels s := by
        rw [removeSentinels_eq reads, List.mem_filterMap]
        exact ⟨.inl c, List.mem_map_of_mem member, rfl⟩
      rw [List.any_eq_false] at opening closing
      exact ⟨by simpa using opening c inside, by simpa using closing c inside⟩

end SubtitleTranslator.Engine
