import SubtitleTranslator.Proof.VttTiming

namespace SubtitleTranslator.Engine
open Library Library.Text

/-- The maximal blocks of lines that are not blank. -/
def blocksOf (lines : List Str) : List (List Str) := (lines.splitOnP blank).filter (· ≠ [])

/-- A blank line separates the blocks before it from those after it. -/
theorem blocksOf_append_blank {line : Str} (empty : blank line = true) (front back : List Str) :
    blocksOf (front ++ line :: back) = blocksOf front ++ blocksOf back := by
  rw [blocksOf, List.splitOnP_append_cons front back empty, List.filter_append]
  rfl

theorem blocksOf_cons_blank {line : Str} (empty : blank line = true) (back : List Str) :
    blocksOf (line :: back) = blocksOf back :=
  blocksOf_append_blank empty [] back

/-- Lines that are not blank are one block. -/
theorem blocksOf_eq_singleton {block : List Str} (nonempty : block ≠ [])
    (seen : ∀ line ∈ block, blank line = false) : blocksOf block = [block] := by
  rw [blocksOf, List.splitOnP_eq_singleton seen, List.filter_cons_of_pos (by simpa using nonempty)]
  rfl

/-- A block is not empty, and its lines are not blank. -/
theorem of_mem_blocksOf {lines block : List Str} (member : block ∈ blocksOf lines) :
    block ≠ [] ∧ ∀ line ∈ block, blank line = false ∧ line ∈ lines := by
  obtain ⟨inSplit, nonempty⟩ := List.mem_filter.mp member
  refine ⟨of_decide_eq_true nonempty, ?_⟩
  clear member nonempty
  induction lines generalizing block with
  | nil =>
      rw [List.splitOnP_nil, List.mem_singleton] at inSplit
      rw [inSplit]
      exact List.forall_mem_nil _
  | cons line lines ih =>
      rw [List.splitOnP_cons_eq_if_modifyHead] at inSplit
      have later {other : List Str} (inside : other ∈ lines.splitOnP blank) :
          ∀ seen ∈ other, blank seen = false ∧ seen ∈ line :: lines :=
        fun seen inOther => ⟨(ih inside seen inOther).1, List.mem_cons_of_mem _ (ih inside seen inOther).2⟩
      split at inSplit
      · rcases List.mem_cons.mp inSplit with rfl | inside
        · exact List.forall_mem_nil _
        · exact later inside
      · rename_i seen
        cases parts : lines.splitOnP blank with
        | nil => exact absurd parts (List.splitOnP_ne_nil _ _)
        | cons head tail =>
            rw [parts] at inSplit later
            rcases List.mem_cons.mp inSplit with rfl | inside
            · exact List.forall_mem_cons.mpr ⟨⟨by simpa using seen, List.mem_cons_self⟩,
                later List.mem_cons_self⟩
            · exact later (List.mem_cons_of_mem _ inside)

/-- The blocks after a blank line of a body. -/
def cutOff (body : List Str) : List (List Str) := blocksOf (body.dropWhile fun line => !blank line)

/-- A body is its lines up to a blank one, and the blocks after that. -/
theorem blocksOf_body {block body : List Str} (nonempty : block ≠ [])
    (seen : ∀ line ∈ block, blank line = false) (rest : List Str) :
    blocksOf (block ++ body ++ [] :: rest) =
      (block ++ body.takeWhile fun line => !blank line) ::
        (cutOff body ++ blocksOf rest) := by
  have front : ∀ line ∈ block ++ body.takeWhile fun line => !blank line, blank line = false := by
    rw [List.forall_mem_append]
    exact ⟨seen, fun line member => by simpa using List.mem_takeWhile_imp member⟩
  have more : (block ++ body.takeWhile fun line => !blank line) ≠ [] :=
    List.append_ne_nil_of_left_ne_nil nonempty _
  rw [blocksOf_append_blank rfl, cutOff]
  conv_lhs => rw [← List.takeWhile_append_dropWhile (p := fun line => !blank line) (l := body)]
  cases back : body.dropWhile fun line => !blank line with
  | nil =>
      rw [List.append_nil, blocksOf_eq_singleton more front]
      rfl
  | cons line back' =>
      have stop := List.head?_dropWhile_not (fun line => !blank line) body
      rw [back] at stop
      have empty : blank line = true := by simpa using stop
      rw [← List.append_assoc, blocksOf_append_blank empty, blocksOf_eq_singleton more front,
        blocksOf_cons_blank empty]
      rfl

/-- A line without the times of a cue. -/
def Untimed (line : Str) : Prop := vttTiming? line = none

theorem takeWhile_untimed {front : List Str} (untimed : ∀ line ∈ front, Untimed line)
    (back : List Str) :
    (front ++ back).takeWhile (fun line => (vttTiming? line).isNone) =
      front ++ back.takeWhile fun line => (vttTiming? line).isNone :=
  List.takeWhile_append_of_pos fun line member => by rw [untimed line member]; rfl

/-- A block without times is raw. -/
theorem readBlocks_raw {block : List Str} (untimed : ∀ line ∈ block, Untimed line) (count : Nat)
    (rest : List (List Str)) :
    readBlocks count (block :: rest) =
      ((readBlocks count rest).1, .raw block :: (readBlocks count rest).2) := by
  have front := takeWhile_untimed untimed []
  rw [List.append_nil, List.takeWhile_nil, List.append_nil] at front
  rw [readBlocks, front, List.drop_length]

/-- The cue of a block with times. -/
def vttCue (count : Nat) (timing : Timing) (body : List Str) : Cue :=
  ⟨count + 1, timing.start, timing.finish, timing.rest, body, .vtt⟩

/-- The first line with times makes a block a cue. -/
theorem readBlocks_cue {identifier : List Str} (untimed : ∀ line ∈ identifier, Untimed line)
    {line : Str} {timing : Timing} (timed : vttTiming? line = some timing) (body : List Str)
    (count : Nat) (rest : List (List Str)) :
    readBlocks count ((identifier ++ line :: body) :: rest) =
      (vttCue count timing body :: (readBlocks (count + 1) rest).1,
        .cue count identifier :: (readBlocks (count + 1) rest).2) := by
  have front := takeWhile_untimed untimed (line :: body)
  rw [List.takeWhile_cons_of_neg (by simp [timed]), List.append_nil] at front
  rw [readBlocks, front, List.drop_left]
  dsimp only
  rw [timed]
  rfl

/-- Each block is raw or carries a cue. -/
theorem block_cases (block : List Str) :
    (∀ line ∈ block, Untimed line) ∨ ∃ identifier line timing body,
      block = identifier ++ line :: body ∧ (∀ line ∈ identifier, Untimed line) ∧
        vttTiming? line = some timing := by
  induction block with
  | nil => exact .inl (List.forall_mem_nil _)
  | cons first block ih =>
      cases times : vttTiming? first with
      | some timing =>
          exact .inr ⟨[], first, timing, block, rfl, List.forall_mem_nil _, times⟩
      | none =>
          rcases ih with untimed | ⟨identifier, line, timing, body, rfl, untimed, timed⟩
          · exact .inl (List.forall_mem_cons.mpr ⟨times, untimed⟩)
          · exact .inr ⟨first :: identifier, line, timing, body, rfl,
              List.forall_mem_cons.mpr ⟨times, untimed⟩, timed⟩

/-- Blocks without times are raw wherever they stand. -/
theorem readBlocks_append_raw {blocks : List (List Str)}
    (untimed : ∀ block ∈ blocks, ∀ line ∈ block, Untimed line) (count : Nat)
    (rest : List (List Str)) :
    readBlocks count (blocks ++ rest) =
      ((readBlocks count rest).1, blocks.map .raw ++ (readBlocks count rest).2) := by
  induction blocks with
  | nil => rfl
  | cons block blocks ih =>
      rw [List.forall_mem_cons] at untimed
      rw [List.cons_append, readBlocks_raw untimed.1, ih untimed.2]
      rfl

/-- The identifiers of the cues, in order. -/
def identifiersOf (blocks : List VttBlock) : List (List Str) :=
  blocks.filterMap fun
    | .raw _ => none
    | .cue _ identifier => some identifier

theorem identifiersOf_raw (blocks : List (List Str)) (rest : List VttBlock) :
    identifiersOf (blocks.map .raw ++ rest) = identifiersOf rest := by
  induction blocks with
  | nil => rfl
  | cons block blocks ih => exact ih

/-- The lines of a file after its header, from its blocks, and from the cues with the lines of
their bodies. -/
def layBlocks : List VttBlock → List (Cue × List Str) → List Str
  | .raw lines :: rest, bodies => lines ++ [] :: layBlocks rest bodies
  | .cue _ identifier :: rest, (cue, body) :: bodies =>
      identifier ++ [timingLine cue] ++ body ++ [] :: layBlocks rest bodies
  | _, _ => []

/-- The cue that is read from its lines up to a blank one. -/
def cutCue (laid : Cue × List Str) : Cue :=
  { laid.1 with lines := laid.2.takeWhile fun line => !blank line }

/-- The times of a cue are read back from the line that carries them. -/
structure VttTimed (cue : Cue) : Prop where
  read : vttTiming? (timingLine cue) = some ⟨cue.start, cue.finish, cue.rest⟩
  seen : blank (timingLine cue) = false

/-- Blocks that are laid with the same cues are read back, up to the blank lines of the bodies. -/
theorem readBlocks_layBlocks {blocks : List (List Str)}
    (nonempty : ∀ block ∈ blocks, block ≠ [])
    (seen : ∀ block ∈ blocks, ∀ line ∈ block, blank line = false) {count : Nat}
    {bodies : List (Cue × List Str)}
    (same : List.Forall₂ (fun cue laid => laid.1 = { cue with lines := laid.1.lines })
      (readBlocks count blocks).1 bodies)
    (timed : ∀ laid ∈ bodies, VttTimed laid.1)
    (untimed : ∀ laid ∈ bodies, ∀ block ∈ cutOff laid.2, ∀ line ∈ block, Untimed line) :
    ∃ read, readBlocks count (blocksOf (layBlocks (readBlocks count blocks).2 bodies)) =
        (bodies.map cutCue, read) ∧
      identifiersOf read = identifiersOf (readBlocks count blocks).2 ∧
        ((∀ laid ∈ bodies, cutOff laid.2 = []) → read = (readBlocks count blocks).2) := by
  induction blocks generalizing count bodies with
  | nil =>
      cases same
      exact ⟨[], rfl, rfl, fun _ => rfl⟩
  | cons block blocks ih =>
      rw [List.forall_mem_cons] at nonempty seen
      rcases block_cases block with raw | ⟨identifier, line, timing, body, rfl, plain, times⟩
      · rw [readBlocks_raw raw] at same ⊢
        obtain ⟨read, again, ids, whole⟩ := ih nonempty.2 seen.2 same timed untimed
        refine ⟨.raw block :: read, ?_, ids, fun kept => congrArg _ (whole kept)⟩
        rw [layBlocks, blocksOf_append_blank rfl, blocksOf_eq_singleton nonempty.1 seen.1,
          List.singleton_append, readBlocks_raw raw, again]
      · rw [readBlocks_cue plain times] at same ⊢
        obtain ⟨⟨cue, lines⟩, bodies, first, others, rfl⟩ := List.forall₂_cons_left_iff.mp same
        rw [List.forall_mem_cons] at timed untimed
        obtain ⟨read, again, ids, whole⟩ := ih nonempty.2 seen.2 others timed.2 untimed.2
        have front : ∀ line ∈ identifier ++ [timingLine cue], blank line = false := by
          rw [List.forall_mem_append, List.forall_mem_singleton]
          exact ⟨fun line member => seen.1 line (List.mem_append_left _ member), timed.1.seen⟩
        refine ⟨.cue count identifier :: ((cutOff lines).map .raw ++ read), ?_, ?_, ?_⟩
        · rw [layBlocks, blocksOf_body (by simp) front, List.append_assoc, List.singleton_append,
            readBlocks_cue plain timed.1.read, readBlocks_append_raw untimed.1, again]
          obtain ⟨index, start, finish, ends, own, dialect⟩ := cue
          cases first
          rfl
        · show identifier :: identifiersOf _ = identifier :: identifiersOf _
          rw [identifiersOf_raw, ids]
        · intro kept
          rw [List.forall_mem_cons] at kept
          rw [kept.1, whole kept.2]
          rfl

/-- The lines of a laid file are those of its blocks and of its cues. -/
theorem forall_layBlocks {property : Str → Prop} (empty : property [])
    {blocks : List (List Str)} (all : ∀ block ∈ blocks, ∀ line ∈ block, property line) {count : Nat}
    {bodies : List (Cue × List Str)}
    (cues : ∀ laid ∈ bodies, ∀ line ∈ timingLine laid.1 :: laid.2, property line) :
    ∀ line ∈ layBlocks (readBlocks count blocks).2 bodies, property line := by
  induction blocks generalizing count bodies with
  | nil => exact List.forall_mem_nil _
  | cons block blocks ih =>
      rw [List.forall_mem_cons] at all
      rcases block_cases block with raw | ⟨identifier, line, timing, body, rfl, plain, times⟩
      · rw [readBlocks_raw raw, layBlocks, List.forall_mem_append, List.forall_mem_cons]
        exact ⟨all.1, empty, ih all.2 cues⟩
      · rw [readBlocks_cue plain times]
        cases bodies with
        | nil => exact List.forall_mem_nil _
        | cons laid bodies =>
            obtain ⟨cue, lines⟩ := laid
            rw [List.forall_mem_cons, List.forall_mem_cons] at cues
            rw [layBlocks]
            simp only [List.forall_mem_append, List.forall_mem_cons]
            exact ⟨⟨⟨fun line member => all.1 line (List.mem_append_left _ member), cues.1.1,
              List.forall_mem_nil _⟩, cues.1.2⟩, empty, ih all.2 cues.2⟩

end SubtitleTranslator.Engine
