import SubtitleTranslator.Library.Utf8

namespace Library.Text

/-- A first byte tells how many bytes its code point has; no code point starts with the others. -/
def utf8Width (lead : UInt8) : Nat :=
  let b := lead.toNat
  if b < 0x80 then 1
  else if b < 0xc2 then 0
  else if b < 0xe0 then 2
  else if b < 0xf0 then 3
  else if b < 0xf5 then 4
  else 0

/-- The number that the bits of a sequence spell. -/
def utf8Value : List UInt8 → Nat
  | [a] => a.toNat
  | [a, b] => a.toNat % 0x20 * 0x40 + b.toNat % 0x40
  | [a, b, c] => (a.toNat % 0x10 * 0x40 + b.toNat % 0x40) * 0x40 + c.toNat % 0x40
  | [a, b, c, d] =>
      ((a.toNat % 0x8 * 0x40 + b.toNat % 0x40) * 0x40 + c.toNat % 0x40) * 0x40 + d.toNat % 0x40
  | _ => 0

/-- A sequence is well formed when its code point is written so. -/
def decodePoint? (bytes : List UInt8) : Option CodePoint :=
  if small : utf8Value bytes < 0x110000 then
    if utf8Point? ⟨utf8Value bytes, small⟩ = some bytes then some ⟨utf8Value bytes, small⟩ else none
  else none

/-- This function is `bytes.decode("utf-8", "ignore")`; the number counts the bytes to pass. -/
def decodeIgnore : Nat → List UInt8 → Str
  | _, [] => []
  | skip + 1, _ :: rest => decodeIgnore skip rest
  | 0, lead :: rest =>
      match decodePoint? ((lead :: rest).take (utf8Width lead)) with
      | some c => c :: decodeIgnore (utf8Width lead - 1) rest
      | none => decodeIgnore 0 rest

/-- The longest front of a text with at most so many bytes. -/
def cut : Nat → Str → Str
  | _, [] => []
  | limit, c :: rest =>
      match utf8Point? c with
      | some bytes => if bytes.length ≤ limit then c :: cut (limit - bytes.length) rest else []
      | none => []

/-- The bytes after the first one of a code point. -/
def IsContinuation (b : UInt8) : Prop := 0x80 ≤ b.toNat ∧ b.toNat < 0xc0

theorem isContinuation_continuation (n : Nat) : IsContinuation (continuation n) := by
  simp only [IsContinuation, continuation, UInt8.toNat_ofNat']
  omega

theorem continuation_toNat_mod (n : Nat) : (continuation n).toNat % 0x40 = n % 0x40 := by
  simp only [continuation, UInt8.toNat_ofNat']
  omega

theorem utf8Width_continuation {b : UInt8} (inside : IsContinuation b) : utf8Width b = 0 := by
  obtain ⟨low, high⟩ := inside
  unfold utf8Width
  rw [if_neg (by omega), if_pos (by omega)]

/-- The bytes of a code point: a first byte that tells their number, and continuation bytes. -/
theorem utf8Point?_shape {c : CodePoint} {bytes : List UInt8}
    (written : utf8Point? c = some bytes) :
    ∃ lead tail, bytes = lead :: tail ∧ utf8Width lead = bytes.length ∧
      utf8Value bytes = c.val ∧ ∀ b ∈ tail, IsContinuation b := by
  have bound := c.isLt
  unfold utf8Point? at written
  split_ifs at written with one two lone three
  · cases written
    refine ⟨_, _, rfl, ?_, ?_, List.forall_mem_nil _⟩
    · rw [utf8Width, UInt8.toNat_ofNat', if_pos (by omega)]
      rfl
    · rw [utf8Value, UInt8.toNat_ofNat']
      omega
  · cases written
    refine ⟨_, _, rfl, ?_, ?_, ?_⟩
    · rw [utf8Width, UInt8.toNat_ofNat', if_neg (by omega), if_neg (by omega), if_pos (by omega)]
      rfl
    · rw [utf8Value, UInt8.toNat_ofNat', continuation_toNat_mod]
      omega
    · simp [isContinuation_continuation]
  · cases written
    refine ⟨_, _, rfl, ?_, ?_, ?_⟩
    · rw [utf8Width, UInt8.toNat_ofNat', if_neg (by omega), if_neg (by omega), if_neg (by omega),
        if_pos (by omega)]
      rfl
    · rw [utf8Value, UInt8.toNat_ofNat', continuation_toNat_mod, continuation_toNat_mod]
      omega
    · simp [isContinuation_continuation]
  · cases written
    refine ⟨_, _, rfl, ?_, ?_, ?_⟩
    · rw [utf8Width, UInt8.toNat_ofNat', if_neg (by omega), if_neg (by omega), if_neg (by omega),
        if_neg (by omega), if_pos (by omega)]
      rfl
    · rw [utf8Value, UInt8.toNat_ofNat', continuation_toNat_mod, continuation_toNat_mod,
        continuation_toNat_mod]
      omega
    · simp [isContinuation_continuation]

/-- A written code point is read back. -/
theorem decodePoint?_eq_some {c : CodePoint} {bytes : List UInt8}
    (written : utf8Point? c = some bytes) : decodePoint? bytes = some c := by
  obtain ⟨lead, tail, _, _, value, _⟩ := utf8Point?_shape written
  have small : utf8Value bytes < 0x110000 := value ▸ c.isLt
  have same : (⟨utf8Value bytes, small⟩ : CodePoint) = c := Fin.ext value
  rw [decodePoint?, dif_pos small, same, if_pos written]

/-- What is read as a code point is how that code point is written. -/
theorem utf8Point?_of_decodePoint? {c : CodePoint} {bytes : List UInt8}
    (read : decodePoint? bytes = some c) : utf8Point? c = some bytes := by
  unfold decodePoint? at read
  split_ifs at read with small written
  cases read
  exact written

theorem decodePoint?_nil : decodePoint? [] = none := by decide

/-- Continuation bytes alone spell nothing. -/
theorem decodeIgnore_continuations {bytes : List UInt8} (inside : ∀ b ∈ bytes, IsContinuation b) :
    decodeIgnore 0 bytes = [] := by
  induction bytes with
  | nil => rfl
  | cons b rest ih =>
      obtain ⟨head, tail⟩ := List.forall_mem_cons.mp inside
      rw [decodeIgnore, utf8Width_continuation head, List.take_zero, decodePoint?_nil]
      exact ih tail

theorem decodeIgnore_skip (skip : Nat) (bytes : List UInt8) :
    decodeIgnore skip bytes = decodeIgnore 0 (bytes.drop skip) := by
  induction skip generalizing bytes with
  | zero => rfl
  | succ skip ih =>
      cases bytes with
      | nil => rfl
      | cons b rest => exact ih rest

/-- A whole code point at the front is read. -/
theorem decodeIgnore_append {c : CodePoint} {bytes : List UInt8}
    (written : utf8Point? c = some bytes) (rest : List UInt8) :
    decodeIgnore 0 (bytes ++ rest) = c :: decodeIgnore 0 rest := by
  obtain ⟨lead, tail, rfl, width, _, _⟩ := utf8Point?_shape written
  have front : (lead :: (tail ++ rest)).take (utf8Width lead) = lead :: tail := by
    rw [width, ← List.cons_append, List.take_left]
  have back : (tail ++ rest).drop (utf8Width lead - 1) = rest := by
    rw [width, List.length_cons, Nat.add_sub_cancel, List.drop_left]
  rw [List.cons_append, decodeIgnore, front, decodePoint?_eq_some written]
  change c :: decodeIgnore _ _ = _
  rw [decodeIgnore_skip, back]

/-- A code point that is cut in the middle is dropped. -/
theorem decodeIgnore_take {c : CodePoint} {bytes : List UInt8} (written : utf8Point? c = some bytes)
    {count : Nat} (short : count < bytes.length) : decodeIgnore 0 (bytes.take count) = [] := by
  obtain ⟨lead, tail, rfl, width, _, inside⟩ := utf8Point?_shape written
  cases count with
  | zero => rfl
  | succ count =>
      rw [List.length_cons] at short width
      have fewer : (tail.take count).length < utf8Width lead - 1 := by
        rw [List.length_take]
        omega
      have unread : decodePoint? ((lead :: tail.take count).take (utf8Width lead)) = none := by
        cases read : decodePoint? ((lead :: tail.take count).take (utf8Width lead)) with
        | none => rfl
        | some other =>
            obtain ⟨first, _, form, wide, _, _⟩ :=
              utf8Point?_shape (utf8Point?_of_decodePoint? read)
            have all : (lead :: tail.take count).take (utf8Width lead) =
                lead :: tail.take count := by
              apply List.take_of_length_le
              rw [List.length_cons]
              omega
            rw [all, List.cons.injEq] at form
            rw [all, ← form.1, List.length_cons] at wide
            omega
      rw [List.take_succ_cons, decodeIgnore, unread]
      exact decodeIgnore_continuations fun b member => inside b (List.mem_of_mem_take member)

theorem utf8?_nil : utf8? [] = some [] := rfl

/-- The bytes of a text are the bytes of its code points one after the other. -/
theorem utf8?_cons {c : CodePoint} {s : Str} {bytes : List UInt8} :
    utf8? (c :: s) = some bytes ↔
      ∃ head tail, utf8Point? c = some head ∧ utf8? s = some tail ∧ bytes = head ++ tail := by
  simp only [utf8?, List.mapM_cons]
  cases utf8Point? c with
  | none => simp
  | some head =>
      cases s.mapM utf8Point? with
      | none => simp
      | some tails => simp [eq_comm]

theorem utf8?_append {s t : Str} {bytes : List UInt8} :
    utf8? (s ++ t) = some bytes ↔
      ∃ front back, utf8? s = some front ∧ utf8? t = some back ∧ bytes = front ++ back := by
  induction s generalizing bytes with
  | nil => simp [utf8?_nil]
  | cons c s ih =>
      rw [List.cons_append, utf8?_cons]
      constructor
      · rintro ⟨head, tail, first, more, rfl⟩
        obtain ⟨front, back, written, rest, rfl⟩ := ih.mp more
        exact ⟨head ++ front, back, utf8?_cons.mpr ⟨head, front, first, written, rfl⟩, rest,
          by simp⟩
      · rintro ⟨front, back, written, rest, rfl⟩
        obtain ⟨head, tail, first, more, rfl⟩ := utf8?_cons.mp written
        exact ⟨head, tail ++ back, first, ih.mpr ⟨tail, back, more, rest, rfl⟩, by simp⟩

/-- Every code point has a byte. -/
theorem utf8?_eq_some_nil {s : Str} : utf8? s = some [] ↔ s = [] := by
  cases s with
  | nil => simp [utf8?_nil]
  | cons c s =>
      refine iff_of_false (fun written => ?_) (List.cons_ne_nil c s)
      obtain ⟨head, tail, first, _, same⟩ := utf8?_cons.mp written
      obtain ⟨lead, rest, rfl, _⟩ := utf8Point?_shape first
      simp at same

/-- The front bytes of a text, read without what the cut broke, are the longest front that fits. -/
theorem decodeIgnore_utf8 {s : Str} {bytes : List UInt8} (written : utf8? s = some bytes)
    (limit : Nat) : decodeIgnore 0 (bytes.take limit) = cut limit s := by
  induction s generalizing bytes limit with
  | nil =>
      rw [utf8?_nil, Option.some.injEq] at written
      rw [← written, List.take_nil]
      rfl
  | cons c rest ih =>
      obtain ⟨head, tail, first, more, rfl⟩ := utf8?_cons.mp written
      rw [cut, first]
      change _ = if head.length ≤ limit then c :: cut (limit - head.length) rest else []
      split_ifs with fits
      · rw [List.take_append, List.take_of_length_le fits, decodeIgnore_append first, ih more]
      · rw [List.take_append_of_le_length (by omega), decodeIgnore_take first (by omega)]

/-- A cut is a front of the text, and its bytes are within the limit. -/
theorem cut_spec (limit : Nat) (s : Str) :
    cut limit s <+: s ∧ ∃ bytes, utf8? (cut limit s) = some bytes ∧ bytes.length ≤ limit := by
  induction s generalizing limit with
  | nil => exact ⟨List.prefix_rfl, [], rfl, Nat.zero_le _⟩
  | cons c rest ih =>
      rw [cut]
      cases first : utf8Point? c with
      | none => exact ⟨List.nil_prefix, [], rfl, Nat.zero_le _⟩
      | some head =>
          change (if head.length ≤ limit then c :: cut (limit - head.length) rest else []) <+: _ ∧
            ∃ bytes, utf8? (if head.length ≤ limit then c :: cut (limit - head.length) rest
              else []) = some bytes ∧ _
          split_ifs with fits
          · obtain ⟨front, tail, written, short⟩ := ih (limit - head.length)
            refine ⟨(List.prefix_cons_inj c).mpr front, head ++ tail,
              utf8?_cons.mpr ⟨head, tail, first, written, rfl⟩, ?_⟩
            rw [List.length_append]
            omega
          · exact ⟨List.nil_prefix, [], rfl, Nat.zero_le _⟩

theorem cut_zero (s : Str) : cut 0 s = [] := by
  obtain ⟨_, bytes, written, short⟩ := cut_spec 0 s
  rw [List.length_eq_zero_iff.mp (Nat.le_zero.mp short)] at written
  exact utf8?_eq_some_nil.mp written

/-- A front with as many bytes as the limit is the cut. -/
theorem cut_append {front : Str} {bytes : List UInt8} (written : utf8? front = some bytes)
    (rest : Str) : cut bytes.length (front ++ rest) = front := by
  induction front generalizing bytes with
  | nil =>
      rw [utf8?_nil, Option.some.injEq] at written
      rw [← written]
      exact cut_zero rest
  | cons c front ih =>
      obtain ⟨head, tail, first, more, rfl⟩ := utf8?_cons.mp written
      rw [List.cons_append, cut, first]
      change (if head.length ≤ _ then c :: cut _ (front ++ rest) else []) = _
      rw [List.length_append, if_pos (Nat.le_add_right _ _), Nat.add_sub_cancel_left, ih more]

end Library.Text
