import SubtitleTranslator.Construction.Numbered
import SubtitleTranslator.Construction.Sentinel
import SubtitleTranslator.Library.Fallible

namespace SubtitleTranslator.Engine
open Library Library.Text

/-- An outcome is a value or an error that the driver retries. -/
def Retryable {Value : Type} (outcome : Except Failure Value) : Prop :=
  ∀ failure, outcome = .error failure → ∃ message, failure = .translation message

/-- The digits that `int` converts. -/
def Convertible (digits : Str) : Prop := digits.length ≤ maxStrDigits

theorem Retryable.ok {Value : Type} (value : Value) :
    Retryable (.ok value : Except Failure Value) := by
  intro failure failed
  cases failed

theorem Retryable.translation {Value : Type} (message : Str) :
    Retryable (.error (.translation message) : Except Failure Value) := by
  intro failure failed
  cases failed
  exact ⟨message, rfl⟩

theorem not_retryable_value {Value : Type} :
    ¬Retryable (.error .value : Except Failure Value) := by
  intro retryable
  obtain ⟨message, same⟩ := retryable .value rfl
  cases same

/-- `int` raises ValueError on the other digits. -/
theorem int_cases (digits : Str) :
    (Convertible digits ∧ ∃ number, int digits = .ok number) ∨
      (¬Convertible digits ∧ int digits = .error .value) := by
  rw [int, int?, Convertible]
  by_cases short : digits.length ≤ maxStrDigits
  · rw [if_pos short]
    exact .inl ⟨short, _, rfl⟩
  · rw [if_neg short]
    exact .inr ⟨short, rfl⟩

/-- No separator character is a digit or a line feed. -/
theorem isNumberSeparator_cases {c : CodePoint} (separator : isNumberSeparator c = true) :
    isDecimal c = false ∧ isNewline c = false := by
  simp only [isNumberSeparator, Bool.or_eq_true, beq_iff_eq] at separator
  rcases separator with (((((rfl | rfl) | rfl) | rfl) | rfl) | rfl) | rfl <;> decide

/-- An entry line has a separator character after its number. -/
theorem separator_of_mem_numberedRe {line : Str} {result : (Str × Str) × Str}
    (matched : result ∈ numberedRe line) : ∃ c ∈ line, isNumberSeparator c = true := by
  obtain ⟨⟨number, _⟩, inNumber, matched⟩ := Pattern.mem_bind.mp matched
  obtain ⟨⟨spaces, _⟩, inSpaces, matched⟩ := Pattern.mem_bind.mp matched
  obtain ⟨⟨c, _⟩, inSeparator, matched⟩ := Pattern.mem_bind.mp matched
  obtain ⟨afterNumber, _, _⟩ := Pattern.of_mem_many1 inNumber
  obtain ⟨afterSpaces, _⟩ := Pattern.of_mem_many inSpaces
  obtain ⟨afterSeparator, separator⟩ := Pattern.mem_one.mp inSeparator
  refine ⟨c, ?_, separator⟩
  rw [afterNumber, afterSpaces, afterSeparator]
  simp

/-- A bare number has only digits and at most a last line feed. -/
theorem class_of_mem_numberOnlyRe {line : Str} {result : Str × Str}
    (matched : result ∈ numberOnlyRe line) :
    ∀ c ∈ line, isDecimal c = true ∨ isNewline c = true := by
  obtain ⟨⟨number, left⟩, inNumber, matched⟩ := Pattern.mem_bind.mp matched
  obtain ⟨_, atEnd, _⟩ := Pattern.mem_bind.mp matched
  obtain ⟨split, _, digits⟩ := Pattern.of_mem_many1 inNumber
  obtain ⟨_, newlines⟩ := Pattern.of_mem_dollar atEnd
  intro c member
  rw [split, List.mem_append] at member
  exact member.imp (digits c) (newlines c)

/-- An entry line is no bare number. -/
theorem numberOnlyRe_of_numberedRe {line : Str} {result : (Str × Str) × Str}
    (matched : numberedRe.match? line = some result) : numberOnlyRe.match? line = none := by
  cases bare : numberOnlyRe.match? line with
  | none => rfl
  | some other =>
      obtain ⟨c, member, separator⟩ := separator_of_mem_numberedRe (Pattern.match?_mem matched)
      obtain ⟨notDigit, notNewline⟩ := isNumberSeparator_cases separator
      rcases class_of_mem_numberOnlyRe (Pattern.match?_mem bare) c member with digit | newline
      · rw [notDigit] at digit
        cases digit
      · rw [notNewline] at newline
        cases newline

/-- The number of a stripped line that is an entry or a bare number. -/
def leadingNumber (line : Str) : Option Str :=
  ((numberedRe.match? line).map fun found => found.1.1).or ((numberOnlyRe.match? line).map Prod.fst)

/-- A reply line is readable when it is blank, a fence, unnumbered, or has a short number. -/
def ReadableLine (raw : Str) : Prop :=
  strip raw ≠ [] → (ofString "```").isPrefixOf (strip raw) = false →
    ∀ number ∈ leadingNumber (strip raw), Convertible number

theorem readBareNumber_cases (expected : Nat) (state : NumberedState) (line : Str) :
    ((∀ found ∈ numberOnlyRe.match? line, Convertible found.1) ∧
        ∃ next, readBareNumber expected state line = .ok next) ∨
      ((¬∀ found ∈ numberOnlyRe.match? line, Convertible found.1) ∧
        readBareNumber expected state line = .error .value) := by
  rw [readBareNumber]
  cases numberOnlyRe.match? line with
  | none => exact .inl ⟨by simp, _, rfl⟩
  | some found =>
      obtain ⟨digits, left⟩ := found
      rcases int_cases digits with ⟨short, number, converted⟩ | ⟨long, refused⟩
      · refine .inl ⟨by simpa using short, ?_⟩
        simp only [converted, bind, Except.bind]
        split
        · exact ⟨_, rfl⟩
        · exact ⟨_, rfl⟩
      · refine .inr ⟨fun all => long (all _ rfl), ?_⟩
        simp only [refused, bind, Except.bind]

/-- One line of a reply is read exactly when it is readable. -/
theorem readNumberedLine_cases (expected : Nat) (state : NumberedState) (raw : Str) :
    (ReadableLine raw ∧ ∃ next, readNumberedLine expected state raw = .ok next) ∨
      (¬ReadableLine raw ∧ readNumberedLine expected state raw = .error .value) := by
  simp only [readNumberedLine, ReadableLine]
  by_cases skipped : strip raw = [] ∨ (ofString "```").isPrefixOf (strip raw) = true
  · rw [if_pos skipped]
    refine .inl ⟨fun visible plain => ?_, _, rfl⟩
    rcases skipped with blank | fence
    · exact absurd blank visible
    · rw [fence] at plain
      cases plain
  · rw [if_neg skipped]
    rw [not_or, Bool.not_eq_true] at skipped
    simp only [skipped.1, skipped.2, ne_eq, not_false_eq_true, forall_const]
    cases matched : numberedRe.match? (strip raw) with
    | none =>
        simp only [leadingNumber, matched, Option.map_none, Option.none_or, Option.mem_map,
          forall_exists_index, and_imp, forall_apply_eq_imp_iff₂]
        exact readBareNumber_cases expected state (strip raw)
    | some found =>
        obtain ⟨⟨digits, text⟩, left⟩ := found
        have bare := numberOnlyRe_of_numberedRe matched
        simp only [leadingNumber, matched, Option.map_some, Option.some_or, Option.mem_def,
          Option.some.injEq, forall_eq']
        rcases int_cases digits with ⟨short, number, converted⟩ | ⟨long, refused⟩
        · refine .inl ⟨short, ?_⟩
          simp only [converted, bind, Except.bind]
          split
          · exact ⟨_, rfl⟩
          · simp only [readBareNumber, bare]
            exact ⟨_, rfl⟩
        · refine .inr ⟨long, ?_⟩
          simp only [refused, bind, Except.bind]

/-- The reader of a reply raises ValueError exactly when some line is unreadable. -/
theorem parseNumbered_cases (out : Str) (expected : Nat) :
    ((∀ raw ∈ splitlines out, ReadableLine raw) ∧ Retryable (parseNumbered out expected)) ∨
      ((¬∀ raw ∈ splitlines out, ReadableLine raw) ∧
        parseNumbered out expected = .error .value) := by
  rw [parseNumbered]
  rcases Fallible.foldlM_cases (readNumberedLine_cases expected) ⟨∅, none⟩ (splitlines out) with
    ⟨readable, state, ran⟩ | ⟨unreadable, stopped⟩
  · refine .inl ⟨readable, ?_⟩
    rw [ran]
    simp only [bind, Except.bind]
    split
    · exact .translation _
    · exact .ok _
  · rw [stopped]
    exact .inr ⟨unreadable, rfl⟩

theorem parseNumbered_retryable_iff (out : Str) (expected : Nat) :
    Retryable (parseNumbered out expected) ↔ ∀ raw ∈ splitlines out, ReadableLine raw := by
  rcases parseNumbered_cases out expected with ⟨readable, retryable⟩ | ⟨unreadable, raised⟩
  · exact iff_of_true retryable readable
  · rw [raised]
    exact iff_of_false not_retryable_value unreadable

/-- The sentinel numbers of a text are those that `int` converts. -/
def ReadableSentinels (s : Str) : Prop := ∀ digits ∈ sentinelRe.findall s, Convertible digits

theorem sentinelNumbers_cases (s : Str) :
    (ReadableSentinels s ∧ ∃ numbers, sentinelNumbers s = .ok numbers) ∨
      (¬ReadableSentinels s ∧ sentinelNumbers s = .error .value) :=
  Fallible.mapM_cases int_cases (sentinelRe.findall s)

theorem placeholdersMatch_cases (source translated : Str) :
    (ReadableSentinels source ∧ ReadableSentinels translated ∧
        ∃ same, placeholdersMatch source translated = .ok same) ∨
      (¬(ReadableSentinels source ∧ ReadableSentinels translated) ∧
        placeholdersMatch source translated = .error .value) := by
  rw [placeholdersMatch]
  rcases sentinelNumbers_cases source with ⟨readable, expected, found⟩ | ⟨unreadable, refused⟩
  · rw [found]
    rcases sentinelNumbers_cases translated with ⟨others, got, found⟩ | ⟨unreadable, refused⟩
    · rw [found]
      refine .inl ⟨readable, others, ?_⟩
      simp only [bind, Except.bind]
      split
      · exact ⟨_, rfl⟩
      · exact ⟨_, rfl⟩
    · rw [refused]
      exact .inr ⟨fun both => unreadable both.2, rfl⟩
  · rw [refused]
    exact .inr ⟨fun both => unreadable both.1, rfl⟩

/-- A line has text when its source has. -/
def KeepsText (source translated : Str) : Prop := hasText source = true → hasText translated = true

/-- The checks accept a translation of a source line. -/
def AcceptedLine (source : Str) : Option Str → Prop
  | none => False
  | some translated => KeepsText source translated ∧ placeholdersMatch source translated = .ok true

/-- A line with text is compared only when its sentinel numbers are readable. -/
def ReadableOutput (source : Str) : Option Str → Prop
  | none => True
  | some translated =>
      KeepsText source translated → ReadableSentinels source ∧ ReadableSentinels translated

/-- The check of one line accepts it, asks for a retry, or meets an unreadable number. -/
theorem validateLine_cases (position : Nat) (source : Str) (translated : Option Str) :
    (ReadableOutput source translated ∧ AcceptedLine source translated ∧
        ∃ line, validateLine position source translated = .ok line) ∨
      (ReadableOutput source translated ∧ ¬AcceptedLine source translated ∧
        ∃ message, validateLine position source translated = .error (.translation message)) ∨
      (¬ReadableOutput source translated ∧
        validateLine position source translated = .error .value) := by
  cases translated with
  | none => exact .inr (.inl ⟨trivial, fun accepted => accepted, _, rfl⟩)
  | some translated =>
      simp only [validateLine, ReadableOutput, AcceptedLine]
      by_cases empty : hasText source = true ∧ ¬hasText translated = true
      · rw [if_pos empty]
        exact .inr (.inl ⟨fun kept => absurd (kept empty.1) empty.2,
          fun accepted => empty.2 (accepted.1 empty.1), _, rfl⟩)
      · rw [if_neg empty]
        have kept : KeepsText source translated := by
          intro text
          by_contra lost
          exact empty ⟨text, lost⟩
        simp only [kept, forall_const, true_and]
        rcases placeholdersMatch_cases source translated with
          ⟨readable, others, same, compared⟩ | ⟨unreadable, refused⟩
        · simp only [readable, others, compared, bind, Except.bind, true_and, Except.ok.injEq]
          cases same with
          | true => exact .inl ⟨rfl, _, rfl⟩
          | false => exact .inr (.inl ⟨Bool.false_ne_true, _, rfl⟩)
        · simp only [refused, bind, Except.bind]
          exact .inr (.inr ⟨unreadable, trivial⟩)

/-- The checks read the lines in order and stop at the first line that is not accepted. -/
theorem validateLines_retryable_iff (position : Nat) (texts : List Str)
    (output : List (Option Str)) :
    Retryable (validateLines position texts output) ↔
      ∀ earlier line later, texts.zip output = earlier ++ line :: later →
        (∀ other ∈ earlier, AcceptedLine other.1 other.2) → ReadableOutput line.1 line.2 := by
  induction texts generalizing position output with
  | nil => exact iff_of_true (.ok _) (by simp)
  | cons source texts ih =>
      cases output with
      | nil => exact iff_of_true (.ok _) (by simp)
      | cons translated output =>
          rw [validateLines, List.zip_cons_cons]
          rcases validateLine_cases position source translated with
            ⟨readable, accepted, line, checked⟩ | ⟨readable, rejected, message, checked⟩ |
              ⟨unreadable, checked⟩
          · rw [checked]
            have rest : Retryable (do
                let lines ← validateLines (position + 1) texts output
                pure (line :: lines)) ↔ Retryable (validateLines (position + 1) texts output) := by
              cases validateLines (position + 1) texts output with
              | ok lines => exact iff_of_true (.ok _) (.ok _)
              | error failure => exact Iff.rfl
            refine Iff.trans rest ((ih (position + 1) output).trans ?_)
            constructor
            · intro later earlier pair others split before
              cases earlier with
              | nil =>
                  cases split
                  exact readable
              | cons first earlier =>
                  rw [List.cons_append, List.cons.injEq] at split
                  exact later earlier pair others split.2 (List.forall_mem_cons.mp before).2
            · intro all earlier pair others split before
              refine all ((source, translated) :: earlier) pair others ?_ ?_
              · rw [split]
                rfl
              · exact List.forall_mem_cons.mpr ⟨accepted, before⟩
          · rw [checked]
            refine iff_of_true (.translation _) ?_
            intro earlier pair others split before
            cases earlier with
            | nil =>
                cases split
                exact readable
            | cons first earlier =>
                rw [List.cons_append, List.cons.injEq] at split
                rw [← split.1] at before
                exact absurd (List.forall_mem_cons.mp before).1 rejected
          · rw [checked]
            refine iff_of_false not_retryable_value fun all => unreadable ?_
            exact all [] (source, translated) (texts.zip output) rfl (List.forall_mem_nil _)

/-- An output is readable when the checks reach no unreadable sentinel number. -/
def ReadableReply (texts : List Str) (output : Option (List (Option Str))) : Prop :=
  ∀ lines ∈ output, lines.length = texts.length →
    ∀ earlier line later, texts.zip lines = earlier ++ line :: later →
      (∀ other ∈ earlier, AcceptedLine other.1 other.2) → ReadableOutput line.1 line.2

theorem validateOutput_retryable_iff (texts : List Str) (output : Option (List (Option Str))) :
    Retryable (validateOutput texts output) ↔ ReadableReply texts output := by
  cases output with
  | none => exact iff_of_true (.translation _) fun _ member => by cases member
  | some lines =>
      rw [validateOutput, ReadableReply]
      simp only [Option.mem_def, Option.some.injEq, forall_eq']
      by_cases counted : lines.length = texts.length
      · rw [if_pos counted]
        simp only [counted, forall_const]
        exact validateLines_retryable_iff 0 texts lines
      · rw [if_neg counted]
        exact iff_of_true (.translation _) fun same => absurd same counted

/-- Every error of a reply is retried exactly when its numbers are readable. -/
theorem replies_retryable_iff (out : Str) (expected : Nat) (texts : List Str)
    (output : Option (List (Option Str))) :
    (Retryable (parseNumbered out expected) ∧ Retryable (validateOutput texts output)) ↔
      (∀ raw ∈ splitlines out, ReadableLine raw) ∧ ReadableReply texts output :=
  and_congr (parseNumbered_retryable_iff out expected) (validateOutput_retryable_iff texts output)

/-- A line of digits is a bare number. -/
theorem leadingNumber_digits {digits : Str} (nonempty : digits ≠ [])
    (decimals : ∀ c ∈ digits, isDecimal c = true) : leadingNumber digits = some digits := by
  have bare : numberOnlyRe.match? digits = some (digits, []) := by
    have run : numberOnlyRe.match? (digits ++ []) = some (digits, []) :=
      Pattern.match?_many1_bind_run nonempty decimals (by simp) rfl
    rwa [List.append_nil] at run
  cases matched : numberedRe.match? digits with
  | none => rw [leadingNumber, matched, bare]; rfl
  | some found =>
      rw [numberOnlyRe_of_numberedRe matched] at bare
      cases bare

/-- A reply that is one long bare number raises ValueError. -/
theorem parseNumbered_long {digits : Str} (decimals : ∀ c ∈ digits, isDecimal c = true)
    (plain : ∀ c ∈ digits, isSpace c = false ∧ isLineBreak c = false)
    (fence : (ofString "```").isPrefixOf digits = false) (long : ¬Convertible digits)
    (expected : Nat) : parseNumbered digits expected = .error .value := by
  have nonempty : digits ≠ [] := by
    rintro rfl
    exact long (Nat.zero_le _)
  have stripped : strip digits = digits :=
    strip_eq_self (fun c front => (plain c (List.mem_of_head? front)).1)
      fun c back => (plain c (List.mem_of_getLast? back)).1
  have line : splitlines (join [0xa] [digits]) = [digits] :=
    splitlines_join (List.forall_mem_singleton.mpr ⟨nonempty, fun c inside => (plain c inside).2⟩)
  rcases parseNumbered_cases digits expected with ⟨readable, _⟩ | ⟨_, raised⟩
  · have whole : join [0xa] [digits] = digits := by simp [join]
    rw [whole] at line
    rw [line, List.forall_mem_singleton, ReadableLine, stripped] at readable
    exact absurd (readable nonempty fence digits (leadingNumber_digits nonempty decimals)) long
  · exact raised

/-- A bare number of 4301 digits ends the job. -/
def longNumber : Str := List.replicate 4301 0x31

theorem longNumber_long : ¬Convertible longNumber := by
  rw [Convertible, longNumber, List.length_replicate]
  decide

theorem long_number_is_not_retried :
    parseNumbered longNumber 1 = .error .value ∧
      ¬∀ (out : Str) (expected : Nat) (texts : List Str) (output : Option (List (Option Str))),
        Retryable (parseNumbered out expected) ∧ Retryable (validateOutput texts output) := by
  have ones : ∀ c ∈ longNumber, c = 0x31 := fun c member => List.eq_of_mem_replicate member
  have raised : parseNumbered longNumber 1 = .error .value := by
    refine parseNumbered_long (fun c member => ?_) (fun c member => ?_) rfl longNumber_long 1
    · rw [ones c member]
      decide
    · rw [ones c member]
      decide
  refine ⟨raised, fun claim => ?_⟩
  have retryable := (claim longNumber 1 [] none).1
  rw [raised] at retryable
  exact not_retryable_value retryable

end SubtitleTranslator.Engine
