import SubtitleTranslator.Library.Lines

namespace Library.Text

/-- These code points have no UTF-8 form. -/
def isSurrogate (c : CodePoint) : Bool := 0xd800 ≤ c.val && c.val ≤ 0xdfff

/-- A continuation byte carries the low six bits of a number. -/
def continuation (n : Nat) : UInt8 := .ofNat (0x80 + n % 0x40)

/-- The bytes of a code point. -/
def utf8Point? (c : CodePoint) : Option (List UInt8) :=
  if c.val < 0x80 then some [.ofNat c.val]
  else if c.val < 0x800 then some [.ofNat (0xc0 + c.val / 0x40), continuation c.val]
  else if isSurrogate c then none
  else if c.val < 0x10000 then
    some [.ofNat (0xe0 + c.val / 0x1000), continuation (c.val / 0x40), continuation c.val]
  else
    some [.ofNat (0xf0 + c.val / 0x40000), continuation (c.val / 0x1000),
      continuation (c.val / 0x40), continuation c.val]

/-- This function is `s.encode("utf-8")`; `none` is UnicodeEncodeError. -/
def utf8? (s : Str) : Option (List UInt8) := (s.mapM utf8Point?).map List.flatten

/-- A text without lone surrogates. -/
def SurrogateFree (s : Str) : Prop := ∀ c ∈ s, isSurrogate c = false

instance (s : Str) : Decidable (SurrogateFree s) :=
  List.decidableBAll (fun c => isSurrogate c = false) s

theorem utf8Point?_isSome (c : CodePoint) : (utf8Point? c).isSome = !isSurrogate c := by
  unfold utf8Point?
  split_ifs with low small lone
  · simp [isSurrogate]
    omega
  · simp [isSurrogate]
    omega
  · simp [lone]
  · simp [lone]
  · simp [lone]

/-- The strict encoder accepts the texts without lone surrogates. -/
theorem utf8?_isSome_iff (s : Str) : (utf8? s).isSome ↔ SurrogateFree s := by
  rw [utf8?, Option.isSome_map]
  induction s with
  | nil => simp [SurrogateFree]
  | cons c s ih =>
      have head := utf8Point?_isSome c
      have split : SurrogateFree (c :: s) ↔ isSurrogate c = false ∧ SurrogateFree s :=
        List.forall_mem_cons
      rw [List.mapM_cons, split, ← ih]
      cases first : utf8Point? c with
      | none =>
          rw [first] at head
          simp at head
          simp [head]
      | some bytes =>
          rw [first] at head
          simp at head
          cases s.mapM utf8Point? <;> simp [head]

theorem surrogateFree_nil : SurrogateFree [] := List.forall_mem_nil _

@[simp] theorem surrogateFree_append (s t : Str) :
    SurrogateFree (s ++ t) ↔ SurrogateFree s ∧ SurrogateFree t := List.forall_mem_append

theorem surrogateFree_flatten (parts : List Str) :
    SurrogateFree parts.flatten ↔ ∀ part ∈ parts, SurrogateFree part := by
  simp only [SurrogateFree, List.mem_flatten]
  exact ⟨fun free part inside c member => free c ⟨part, inside, member⟩,
    fun free c ⟨part, inside, member⟩ => free part inside c member⟩

theorem surrogateFree_flatMap {β : Type} (f : β → Str) (parts : List β) :
    SurrogateFree (parts.flatMap f) ↔ ∀ part ∈ parts, SurrogateFree (f part) := by
  rw [List.flatMap_def, surrogateFree_flatten, List.forall_mem_map]

/-- Texts with the same surrogates are free of them together. -/
theorem surrogateFree_congr {s t : Str} (same : s.filter isSurrogate = t.filter isSurrogate) :
    SurrogateFree s ↔ SurrogateFree t := by
  have free (s : Str) : SurrogateFree s ↔ s.filter isSurrogate = [] := by
    simp [SurrogateFree, List.filter_eq_nil_iff]
  rw [free, free, same]

theorem isSurrogate_of_isSpace {c : CodePoint} (space : isSpace c = true) :
    isSurrogate c = false := by
  simp only [isSpace, Bool.or_eq_true, Bool.and_eq_true, decide_eq_true_eq, beq_iff_eq] at space
  simp only [isSurrogate, Bool.and_eq_false_iff, decide_eq_false_iff_not]
  omega

/-- Whitespace does not matter for the surrogates. -/
theorem surrogateFree_strip (s : Str) : SurrogateFree (strip s) ↔ SurrogateFree s :=
  surrogateFree_congr (filter_strip (fun _ => isSurrogate_of_isSpace) s)

/-- A joined text is free of surrogates when its parts are. -/
theorem surrogateFree_join {separator : Str} (clean : SurrogateFree separator) (parts : List Str) :
    SurrogateFree (join separator parts) ↔ ∀ part ∈ parts, SurrogateFree part := by
  constructor
  · exact fun free part inside c member => free c (mem_join_of_mem separator inside member)
  · intro free c member
    rcases mem_join member with inSeparator | ⟨part, inside, inPart⟩
    · exact clean c inSeparator
    · exact free part inside c inPart

end Library.Text
