import SubtitleTranslator.Construction.Numbered

namespace SubtitleTranslator.Engine
open Library Library.Text

/-- An entry text is one nonempty line without whitespace at its ends. -/
structure EntryText where
  text : Str
  nonempty : text ≠ []
  trimmed : strip text = text
  oneLine : text.any isLineBreak = false

theorem EntryText.noBreak (entry : EntryText) {c : CodePoint} (member : c ∈ entry.text) :
    isLineBreak c = false := by
  simpa using List.any_eq_false.mp entry.oneLine c member

/-- The protocol loses the front of a text that starts with a separator character. -/
def startsWithSeparator (text : Str) : Bool := text.head?.any isNumberSeparator

/-- This text is what the reader keeps of an entry. -/
def keptText (text : Str) : Str :=
  if startsWithSeparator text then strip text.tail else text

/-- The reader keeps a text exactly when no separator character starts it. -/
theorem keptText_eq_iff (entry : EntryText) :
    keptText entry.text = entry.text ↔ startsWithSeparator entry.text = false := by
  unfold keptText
  split
  · rename_i separated
    simp only [separated, Bool.true_eq_false, iff_false]
    intro same
    have shorter := strip_length_le entry.text.tail
    have positive := List.length_pos_of_ne_nil entry.nonempty
    rw [same, List.length_tail] at shorter
    omega
  · rename_i plain
    simpa using plain

/-- The longest digit run of an entry line is its number. -/
theorem numberedLine_run (number : Nat) (text : Str) :
    (numberedLine number text).takeWhile isDecimal = decimal number ∧
      (numberedLine number text).dropWhile isDecimal = 0x9 :: text := by
  have digits : ∀ c ∈ decimal number, isDecimal c = true := fun _ => isDecimal_of_mem_decimal
  have tab : isDecimal 0x9 = false := by decide
  rw [numberedLine, List.append_assoc]
  rw [List.takeWhile_append_of_pos digits, List.dropWhile_append_of_pos digits]
  simp [tab]

/-- Text without a line feed satisfies the end `(.*)$` of the entry pattern. -/
theorem match?_restOfLine {s : Str} (oneLine : ∀ c ∈ s, isLineBreak c = false) {γ : Type}
    (value : Str → γ) :
    ((do
      let text ← Pattern.many isNotNewline
      Pattern.dollar isNewline
      pure (value text)) : Pattern CodePoint γ).match? s = some (value s, []) := by
  have inside : ∀ c ∈ s, isNotNewline c = true := by
    intro c member
    have boundary := oneLine c member
    by_contra newline
    simp only [isNotNewline, bne_iff_ne, ne_eq, not_not] at newline
    subst newline
    exact absurd boundary (by decide)
  apply Pattern.match?_many_bind_longest
  rw [List.takeWhile_eq_self_iff.mpr inside, List.dropWhile_eq_nil_iff.mpr inside]
  rfl

/-- The entry pattern reads the number and the kept text up to outer whitespace. -/
theorem numberedRe_match (number : Nat) (entry : EntryText) :
    ∃ group, numberedRe.match? (numberedLine number entry.text) =
      some ((decimal number, group), []) ∧ strip group = keptText entry.text := by
  obtain ⟨runs, rest⟩ := numberedLine_run number entry.text
  obtain ⟨first, digits, shape⟩ := List.exists_cons_of_ne_nil (decimal_ne_nil number)
  have digit : isDecimal first = true :=
    isDecimal_of_mem_decimal (n := number) (by rw [shape]; exact List.mem_cons_self)
  obtain ⟨c, tail, form⟩ := List.exists_cons_of_ne_nil entry.nonempty
  have visible : isSpace c = false := strip_head? entry.trimmed c (by simp [form])
  have tailLine : ∀ d ∈ tail, isLineBreak d = false :=
    fun d member => entry.noBreak (by rw [form]; exact List.mem_cons_of_mem _ member)
  have afterSpace : ∀ d ∈ tail.dropWhile isSpace, isLineBreak d = false :=
    fun d member => tailLine d ((List.dropWhile_suffix isSpace).subset member)
  have line : numberedLine number entry.text = first :: (digits ++ [0x9] ++ entry.text) := by
    simp [numberedLine, shape]
  rw [line] at runs rest ⊢
  by_cases separator : isNumberSeparator c = true
  · refine ⟨lstrip tail, ?_, ?_⟩
    · apply Pattern.match?_many1_bind_longest digit
      rw [runs, rest, Pattern.match?_many_bind_cons (by decide), form,
        Pattern.match?_many_bind_stop (by simpa using visible), Pattern.match?_one_bind,
        if_pos separator, Pattern.match?_many_bind_longest (match?_restOfLine afterSpace
          fun text => (decimal number, text))]
      rfl
    · have twice : strip (lstrip tail) = strip tail := by
        simp only [strip, lstrip, List.dropWhile_idempotent]
      simp [keptText, startsWithSeparator, form, separator, twice]
  · refine ⟨entry.text, ?_, ?_⟩
    · apply Pattern.match?_many1_bind_longest digit
      rw [runs, rest, Pattern.match?_many_bind_cons (by decide), form,
        Pattern.match?_many_bind_stop (by simpa using visible), Pattern.match?_one_bind,
        if_neg separator, Option.none_or, Pattern.match?_one_bind, if_pos (by decide),
        Pattern.match?_many_bind_stop (by simpa using visible)]
      exact match?_restOfLine (by rw [← form]; exact fun _ => entry.noBreak) fun text =>
        (decimal number, text)
    · rw [keptText, if_neg (by simpa [startsWithSeparator, form] using separator)]
      exact entry.trimmed

theorem numberedLine_visible (number : Nat) (entry : EntryText) :
    strip (numberedLine number entry.text) = numberedLine number entry.text := by
  obtain ⟨first, digits, shape⟩ := List.exists_cons_of_ne_nil (decimal_ne_nil number)
  apply strip_eq_self
  · intro c front
    simp only [numberedLine, shape, List.cons_append, List.head?_cons, Option.mem_def,
      Option.some.injEq] at front
    exact isSpace_of_mem_decimal (n := number) (by rw [shape, front]; exact List.mem_cons_self)
  · intro c back
    rw [numberedLine, List.getLast?_append_of_ne_nil _ entry.nonempty] at back
    exact strip_getLast? entry.trimmed c back

theorem numberedLine_oneLine (number : Nat) (entry : EntryText) :
    ∀ c ∈ numberedLine number entry.text, isLineBreak c = false := by
  intro c member
  simp only [numberedLine, List.append_assoc, List.mem_append, List.mem_singleton] at member
  rcases member with digit | rfl | inText
  · exact isLineBreak_of_mem_decimal digit
  · decide
  · exact entry.noBreak inText

/-- A digit opens an entry line, so the line is neither blank nor a fence. -/
theorem numberedLine_not_skipped (number : Nat) (text : Str) :
    ¬(numberedLine number text = [] ∨
      (ofString "```").isPrefixOf (numberedLine number text) = true) := by
  obtain ⟨first, digits, shape⟩ := List.exists_cons_of_ne_nil (decimal_ne_nil number)
  have range := range_of_mem_decimal (n := number) (c := first)
    (by rw [shape]; exact List.mem_cons_self)
  rintro (empty | fence)
  · simp [numberedLine, shape] at empty
  · have grave : first = 0x60 := by
      simp only [numberedLine, shape, List.cons_append] at fence
      have opened : (0x60 :: [0x60, 0x60] : Str).isPrefixOf
        (first :: (digits ++ [0x9] ++ text)) = true := fence
      rw [List.isPrefixOf_cons_cons, Bool.and_eq_true, beq_iff_eq] at opened
      exact opened.1.symm
    subst grave
    exact absurd range.2 (by decide)

/-- One entry line sets its entry, or `int` refuses its number. -/
theorem readNumberedLine_entry {expected number : Nat} (inRange : 1 ≤ number ∧ number ≤ expected)
    (state : NumberedState) (entry : EntryText) :
    readNumberedLine expected state (numberedLine number entry.text) =
      if number < 10 ^ maxStrDigits then .ok (state.set number (keptText entry.text))
      else .error .value := by
  obtain ⟨group, matched, kept⟩ := numberedRe_match number entry
  simp only [readNumberedLine, numberedLine_visible, if_neg (numberedLine_not_skipped _ _),
    matched, int, int?_decimal]
  by_cases small : number < 10 ^ maxStrDigits
  · simp only [if_pos small, bind, Except.bind, if_pos inRange, kept]
  · simp only [if_neg small, bind, Except.bind]

section Reply
variable (entries : List EntryText)

/-- This line is the reply line of one entry. -/
def entryLine (k : Fin entries.length) : Str := numberedLine (k + 1) entries[k].text

/-- Each read line sets the kept text of its entry. -/
def setEntry (state : NumberedState) (k : Fin entries.length) : NumberedState :=
  state.set (k + 1) (keptText entries[k].text)

/-- The loop sets every entry in the written order when `int` accepts every number. -/
theorem foldlM_entryLine (order : List (Fin entries.length)) (state : NumberedState)
    (accepted : ∀ k ∈ order, k.val + 1 < 10 ^ maxStrDigits) :
    (order.map (entryLine entries)).foldlM (readNumberedLine entries.length) state =
      .ok (order.foldl (setEntry entries) state) := by
  induction order generalizing state with
  | nil => rfl
  | cons k rest ih =>
      have inRange : 1 ≤ k.val + 1 ∧ k.val + 1 ≤ entries.length := by omega
      rw [List.map_cons, List.foldlM_cons, entryLine, readNumberedLine_entry inRange,
        if_pos (accepted k List.mem_cons_self)]
      exact ih _ fun other member => accepted other (List.mem_cons_of_mem _ member)

/-- The loop raises ValueError at the first number that `int` refuses. -/
theorem foldlM_entryLine_refused (order : List (Fin entries.length)) (state : NumberedState)
    (refused : ∃ k ∈ order, ¬k.val + 1 < 10 ^ maxStrDigits) :
    (order.map (entryLine entries)).foldlM (readNumberedLine entries.length) state =
      .error .value := by
  induction order generalizing state with
  | nil => simp at refused
  | cons k rest ih =>
      have inRange : 1 ≤ k.val + 1 ∧ k.val + 1 ≤ entries.length := by omega
      rw [List.map_cons, List.foldlM_cons, entryLine, readNumberedLine_entry inRange]
      by_cases accepted : k.val + 1 < 10 ^ maxStrDigits
      · rw [if_pos accepted]
        obtain ⟨other, member, large⟩ := refused
        rcases List.mem_cons.mp member with rfl | later
        · exact absurd accepted large
        · exact ih _ ⟨other, later, large⟩
      · rw [if_neg accepted]
        rfl

/-- After the loop each written entry holds its kept text. -/
theorem lookup_foldl_setEntry (order : List (Fin entries.length)) (state : NumberedState)
    {k : Fin entries.length}
    (present : k ∈ order ∨ state.got.lookup (k.val + 1) = some (keptText entries[k].text)) :
    (order.foldl (setEntry entries) state).got.lookup (k.val + 1) =
      some (keptText entries[k].text) := by
  induction order generalizing state with
  | nil => simpa using present
  | cons other rest ih =>
      apply ih
      by_cases same : k = other
      · subst same
        exact .inr (by simp [setEntry, NumberedState.set])
      · have different : k.val + 1 ≠ other.val + 1 := fun equal => same (Fin.ext (by omega))
        rcases present with member | stored
        · exact .inl (List.mem_of_ne_of_mem same member)
        · exact .inr ((AList.lookup_insert_ne different).trans stored)

/-- A complete reply with readable numbers gives the kept texts in entry order. -/
theorem parseNumbered_kept {order : List (Fin entries.length)} {reply : Str}
    (complete : order.Perm (List.finRange entries.length))
    (written : splitlines reply = order.map (entryLine entries))
    (accepted : entries.length < 10 ^ maxStrDigits) :
    parseNumbered reply entries.length = .ok (entries.map fun entry => keptText entry.text) := by
  have all (k : Fin entries.length) : k ∈ order := complete.mem_iff.mpr (List.mem_finRange k)
  have stored (k : Fin entries.length) := lookup_foldl_setEntry entries order ⟨∅, none⟩ (.inl (all k))
  have missing : (expectedNumbers entries.length).filter
      (· ∉ (order.foldl (setEntry entries) ⟨∅, none⟩).got) = [] := by
    rw [List.filter_eq_nil_iff]
    intro number member
    obtain ⟨k, small, rfl⟩ := List.mem_map.mp member
    have found := stored ⟨k, List.mem_range.mp small⟩
    simp only [decide_not, Bool.not_eq_true, Bool.not_eq_false', decide_eq_true_eq]
    exact AList.lookup_isSome.mp (by rw [found]; rfl)
  rw [parseNumbered, written, foldlM_entryLine entries order _ fun k _ => by omega]
  simp only [bind, Except.bind, missing, ne_eq, not_true_eq_false, if_false]
  congr 1
  apply List.ext_getElem
  · simp [expectedNumbers]
  · intro i inside _
    simp only [expectedNumbers, List.length_map, List.length_range] at inside
    simpa [expectedNumbers] using congrArg (Option.getD · []) (stored ⟨i, inside⟩)

/-- The protocol returns the written texts exactly when `int` accepts every number and
no text starts with one of the separator characters. -/
theorem parseNumbered_roundTrip_iff (order : List (Fin entries.length)) (reply : Str)
    (complete : order.Perm (List.finRange entries.length))
    (written : splitlines reply = order.map (entryLine entries)) :
    parseNumbered reply entries.length = .ok (entries.map EntryText.text) ↔
      entries.length < 10 ^ maxStrDigits ∧
        ∀ entry ∈ entries, startsWithSeparator entry.text = false := by
  by_cases accepted : entries.length < 10 ^ maxStrDigits
  · rw [parseNumbered_kept entries complete written accepted]
    simp only [Except.ok.injEq, List.map_inj_left, keptText_eq_iff, accepted, true_and]
  · have positive : 0 < 10 ^ maxStrDigits := Nat.pow_pos (by decide)
    let last : Fin entries.length := ⟨entries.length - 1, by omega⟩
    have refused : ∃ k ∈ order, ¬k.val + 1 < 10 ^ maxStrDigits :=
      ⟨last, complete.mem_iff.mpr (List.mem_finRange last), by simp only [last]; omega⟩
    have failed : parseNumbered reply entries.length = .error .value := by
      rw [parseNumbered, written, foldlM_entryLine_refused entries order _ refused]
      rfl
    simp [failed, accepted]

end Reply

def greetingEntry : EntryText := ⟨ofString "Hola - adiós", by decide, by decide, by decide⟩

def minusEntry : EntryText := ⟨ofString "-5 °C", by decide, by decide, by decide⟩

/-- The protocol returns two plain texts that were written in the other order. -/
theorem parseNumbered_roundTrip_iff_example :
    parseNumbered (ofString "2\tHola - adiós\n1\tHola - adiós") 2 =
      .ok [ofString "Hola - adiós", ofString "Hola - adiós"] := by
  refine (parseNumbered_roundTrip_iff [greetingEntry, greetingEntry] [1, 0] _
    (by decide) (by decide)).mpr ⟨?_, by decide⟩
  exact Nat.lt_of_lt_of_le (by decide : 2 < 10 ^ 1) (Nat.pow_le_pow_right (by decide) (by decide))

/-- A single text that starts with a minus sign comes back without it. -/
theorem parseNumbered_drops_leading_separator :
    ¬∀ (entries : List EntryText) (order : List (Fin entries.length)) (reply : Str),
      entries ≠ [] → order.Perm (List.finRange entries.length) →
      splitlines reply = order.map (entryLine entries) →
      parseNumbered reply entries.length = .ok (entries.map EntryText.text) := by
  intro claim
  have same := claim [minusEntry] [0] (ofString "1\t-5 °C") (by simp) (by decide) (by decide)
  exact absurd same (by decide)

/-- The lines that a provider sends are entry lines in entry order. -/
theorem splitlines_numberedPrompt (entries : List EntryText) :
    splitlines (numberedPrompt (entries.map EntryText.text)) =
      (List.finRange entries.length).map (entryLine entries) := by
  have lines : (entries.map EntryText.text).mapIdx (fun i text => numberedLine (i + 1) text) =
      (List.finRange entries.length).map (entryLine entries) := by
    apply List.ext_getElem <;> simp [entryLine]
  rw [numberedPrompt, lines]
  apply splitlines_join
  intro line member
  obtain ⟨k, _, rfl⟩ := List.mem_map.mp member
  exact ⟨by simp [entryLine, numberedLine], numberedLine_oneLine _ _⟩

end SubtitleTranslator.Engine
