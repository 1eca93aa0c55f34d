import SubtitleTranslator.Library.Text

namespace Library

/-- A pattern lists its matches at the front of a text, the preferred match first.
Each match gives the captured value and the text it leaves. -/
def Pattern (α β : Type) := List α → List (β × List α)

namespace Pattern
variable {α β γ : Type}

/-- The empty pattern captures a fixed value. -/
def succeed (value : β) : Pattern α β := fun s => [(value, s)]

/-- A sequence backtracks into its first part when the second part fails. -/
def sequence (first : Pattern α β) (next : β → Pattern α γ) : Pattern α γ :=
  fun s => (first s).flatMap fun result => next result.1 result.2

instance : Monad (Pattern α) where
  pure := succeed
  bind := sequence

instance : LawfulMonad (Pattern α) := LawfulMonad.mk' _
  (fun _ => funext fun _ => (List.flatMap_pure_eq_map _ _).trans (List.map_id _))
  (fun _ _ => funext fun _ => List.append_nil _)
  (fun _ _ _ => funext fun _ => List.flatMap_assoc)

/-- An alternative prefers its left side. -/
def either (left right : Pattern α β) : Pattern α β := fun s => left s ++ right s

/-- This pattern takes one element of a class. -/
def one (cls : α → Bool) : Pattern α α
  | [] => []
  | c :: rest => if cls c then [(c, rest)] else []

/-- This pattern is the greedy `cls*`: longer matches come first. -/
def many (cls : α → Bool) : Pattern α (List α)
  | [] => [([], [])]
  | c :: rest =>
      if cls c then
        (many cls rest).map (fun result => (c :: result.1, result.2)) ++ [([], c :: rest)]
      else [([], c :: rest)]

/-- This pattern is the greedy `cls+`. -/
def many1 (cls : α → Bool) : Pattern α (List α) := do
  let first ← one cls
  let more ← many cls
  pure (first :: more)

/-- This pattern is the greedy `cls{0,most}`. -/
def upTo (cls : α → Bool) : Nat → Pattern α (List α)
  | 0 => succeed []
  | most + 1 =>
      either (do
        let first ← one cls
        let more ← upTo cls most
        pure (first :: more)) (succeed [])

/-- This pattern is `cls{least}`. -/
def exactly (cls : α → Bool) : Nat → Pattern α (List α)
  | 0 => succeed []
  | least + 1 => do
      let first ← one cls
      let more ← exactly cls least
      pure (first :: more)

/-- This pattern is the greedy `cls{least,most}`. -/
def between (cls : α → Bool) (least most : Nat) : Pattern α (List α) := do
  let first ← exactly cls least
  let more ← upTo cls (most - least)
  pure (first ++ more)

/-- This pattern is the greedy `x?`. -/
def optional (x : Pattern α β) : Pattern α (Option β) :=
  either (do let value ← x; pure (some value)) (succeed none)

/-- This pattern is the greedy `x*` with at most `fuel` iterations. -/
def starUpTo (x : Pattern α β) : Nat → Pattern α (List β)
  | 0 => succeed []
  | fuel + 1 =>
      either (do
        let first ← x
        let more ← starUpTo x fuel
        pure (first :: more)) (succeed [])

/-- This pattern is the greedy `x*` for an `x` that matches no empty text. -/
def star (x : Pattern α β) : Pattern α (List β) := fun s => starUpTo x s.length s

/-- This pattern succeeds only at the end of the text. -/
def finish : Pattern α Unit
  | [] => [((), [])]
  | _ :: _ => []

/-- This pattern is `$`: the end of the text, or a last element of the newline class. -/
def dollar (newline : α → Bool) : Pattern α Unit
  | [] => [((), [])]
  | [c] => if newline c then [((), [c])] else []
  | _ :: _ :: _ => []

/-- The lookahead `(?=cls)` leaves the text as it is. -/
def ahead (cls : α → Bool) : Pattern α Unit
  | [] => []
  | c :: rest => if cls c then [((), c :: rest)] else []

/-- The lookahead `(?!cls)` leaves the text as it is. -/
def notAhead (cls : α → Bool) : Pattern α Unit
  | [] => [((), [])]
  | c :: rest => if cls c then [] else [((), c :: rest)]

/-- A group captures the text that its pattern takes. -/
def captured (x : Pattern α β) : Pattern α (List α) :=
  fun s => (x s).map fun result => (s.take (s.length - result.2.length), result.2)

/-- This function is `re.match`: the preferred match at the front of the text. -/
def match? (x : Pattern α β) (s : List α) : Option (β × List α) := (x s).head?

/-- This function is `re.fullmatch`. -/
def fullmatch? (x : Pattern α β) (s : List α) : Option β :=
  ((do let value ← x; finish; pure value) : Pattern α β).match? s |>.map Prod.fst

/-- This function is `re.search`: the match at the leftmost position that has one. -/
def search? (x : Pattern α β) : List α → Option (β × List α)
  | [] => x.match? []
  | c :: rest =>
      match x.match? (c :: rest) with
      | some result => some result
      | none => search? x rest

/-- This function reads a text from the left after a number of elements that the last match took. -/
def scanFrom (x : Pattern α β) : Nat → List α → List (α ⊕ β)
  | _, [] => []
  | taken + 1, _ :: rest => scanFrom x taken rest
  | 0, c :: rest =>
      match x.match? (c :: rest) with
      | some (value, left) => .inr value :: scanFrom x (rest.length - left.length) rest
      | none => .inl c :: scanFrom x 0 rest

/-- This function is `re.finditer` for a pattern that takes some text: the elements outside the
matches and the matches, in order. -/
def scan (x : Pattern α β) (s : List α) : List (α ⊕ β) := scanFrom x 0 s

/-- This function is `re.findall`. -/
def findall (x : Pattern α β) (s : List α) : List β := (scan x s).filterMap Sum.getRight?

/-- This function is `re.sub`. -/
def sub (x : Pattern α β) (replace : β → List α) (s : List α) : List α :=
  (scan x s).flatMap (Sum.elim (fun c => [c]) replace)

/-- The maximal texts outside the matches, and the matches. -/
def parts : List (α ⊕ β) → List (List α ⊕ β)
  | [] => []
  | .inr value :: rest => .inr value :: parts rest
  | .inl c :: rest =>
      match parts rest with
      | .inl text :: others => .inl (c :: text) :: others
      | others => .inl [c] :: others

theorem match?_pure (value : β) (s : List α) :
    (pure value : Pattern α β).match? s = some (value, s) := rfl

theorem match?_bind (first : Pattern α β) (next : β → Pattern α γ) (s : List α) :
    (first >>= next).match? s =
      (first s).findSome? fun result => (next result.1).match? result.2 := by
  change ((first s).flatMap fun result => next result.1 result.2).head? = _
  rw [List.head?_flatMap]
  rfl

/-- A class that holds of the first element takes it or stops before it. -/
theorem match?_many_bind_cons {cls : α → Bool} {c : α} (member : cls c = true)
    (next : List α → Pattern α γ) (rest : List α) :
    (many cls >>= next).match? (c :: rest) =
      ((many cls >>= fun more => next (c :: more)).match? rest).or
        ((next []).match? (c :: rest)) := by
  simp only [match?_bind, many, member, if_true, List.findSome?_append, List.findSome?_map]
  congr 1
  simp only [List.findSome?_cons, List.findSome?_nil]
  cases (next []).match? (c :: rest) <;> rfl

/-- A class that fails on the first element takes nothing. -/
theorem match?_many_bind_stop {cls : α → Bool} {s : List α}
    (stop : ∀ c ∈ s.head?, cls c = false) (next : List α → Pattern α γ) :
    (many cls >>= next).match? s = (next []).match? s := by
  cases s with
  | nil =>
      simp only [match?_bind, many, List.findSome?_cons, List.findSome?_nil]
      cases (next []).match? [] <;> rfl
  | cons c rest =>
      simp only [match?_bind, many, stop c (by simp), Bool.false_eq_true, if_false,
        List.findSome?_cons, List.findSome?_nil]
      cases (next []).match? (c :: rest) <;> rfl

/-- A continuation that accepts the longest run decides the match. -/
theorem match?_many_bind_longest {cls : α → Bool} {s : List α} {next : List α → Pattern α γ}
    {result : γ × List α}
    (accepted : (next (s.takeWhile cls)).match? (s.dropWhile cls) = some result) :
    (many cls >>= next).match? s = some result := by
  induction s generalizing next with
  | nil => rwa [match?_many_bind_stop (by simp)]
  | cons c rest ih =>
      by_cases member : cls c = true
      · rw [match?_many_bind_cons member]
        rw [List.takeWhile_cons_of_pos member, List.dropWhile_cons_of_pos member] at accepted
        rw [ih accepted]
        rfl
      · rw [match?_many_bind_stop (by simpa using member)]
        rwa [List.takeWhile_cons_of_neg member, List.dropWhile_cons_of_neg member] at accepted

theorem match?_one_bind (cls : α → Bool) (next : α → Pattern α γ) (c : α) (rest : List α) :
    (one cls >>= next).match? (c :: rest) =
      if cls c then (next c).match? rest else none := by
  rw [match?_bind]
  cases member : cls c <;> simp only [one, member, Bool.false_eq_true, if_false, if_true,
    List.findSome?_nil, List.findSome?_cons]
  cases (next c).match? rest <;> rfl

/-- A nonempty longest run that the continuation accepts decides the match. -/
theorem match?_many1_bind_longest {cls : α → Bool} {c : α} {rest : List α}
    {next : List α → Pattern α γ} {result : γ × List α} (member : cls c = true)
    (accepted : (next ((c :: rest).takeWhile cls)).match? ((c :: rest).dropWhile cls) =
      some result) :
    (many1 cls >>= next).match? (c :: rest) = some result := by
  rw [List.takeWhile_cons_of_pos member, List.dropWhile_cons_of_pos member] at accepted
  rw [many1, bind_assoc, match?_one_bind, if_pos member, bind_assoc]
  apply match?_many_bind_longest
  rwa [pure_bind]

theorem takeWhile_append_stop {cls : α → Bool} {run left : List α}
    (all : ∀ c ∈ run, cls c = true) (stop : ∀ c ∈ left.head?, cls c = false) :
    (run ++ left).takeWhile cls = run ∧ (run ++ left).dropWhile cls = left := by
  rw [List.takeWhile_append_of_pos all, List.dropWhile_append_of_pos all]
  cases left with
  | nil => exact ⟨List.append_nil run, rfl⟩
  | cons c rest =>
      have outside : ¬cls c = true := by simp [stop c rfl]
      rw [List.takeWhile_cons_of_neg outside, List.dropWhile_cons_of_neg outside]
      exact ⟨List.append_nil run, rfl⟩

/-- A run of a class that ends where the text leaves the class is read whole. -/
theorem match?_many_bind_run {cls : α → Bool} {run left : List α} {next : List α → Pattern α γ}
    {result : γ × List α} (all : ∀ c ∈ run, cls c = true)
    (stop : ∀ c ∈ left.head?, cls c = false) (accepted : (next run).match? left = some result) :
    (many cls >>= next).match? (run ++ left) = some result := by
  obtain ⟨taken, dropped⟩ := takeWhile_append_stop all stop
  apply match?_many_bind_longest
  rwa [taken, dropped]

theorem match?_many1_bind_run {cls : α → Bool} {run left : List α} {next : List α → Pattern α γ}
    {result : γ × List α} (nonempty : run ≠ []) (all : ∀ c ∈ run, cls c = true)
    (stop : ∀ c ∈ left.head?, cls c = false) (accepted : (next run).match? left = some result) :
    (many1 cls >>= next).match? (run ++ left) = some result := by
  obtain ⟨taken, dropped⟩ := takeWhile_append_stop all stop
  cases run with
  | nil => exact absurd rfl nonempty
  | cons c rest =>
      apply match?_many1_bind_longest (all c List.mem_cons_self)
      change (next ((c :: rest ++ left).takeWhile cls)).match? _ = _
      rw [taken]
      change (next (c :: rest)).match? ((c :: rest ++ left).dropWhile cls) = _
      rwa [dropped]

/-- The matches of a sequence are the matches of its second part after those of its first. -/
theorem mem_bind {first : Pattern α β} {next : β → Pattern α γ} {s : List α}
    {result : γ × List α} :
    result ∈ (first >>= next) s ↔ ∃ middle ∈ first s, result ∈ next middle.1 middle.2 :=
  List.mem_flatMap

theorem mem_pure {value : β} {s : List α} {result : β × List α} :
    result ∈ (pure value : Pattern α β) s ↔ result = (value, s) :=
  List.mem_singleton

theorem mem_either {left right : Pattern α β} {s : List α} {result : β × List α} :
    result ∈ either left right s ↔ result ∈ left s ∨ result ∈ right s :=
  List.mem_append

theorem mem_one {cls : α → Bool} {s : List α} {result : α × List α} :
    result ∈ one cls s ↔ s = result.1 :: result.2 ∧ cls result.1 = true := by
  cases s with
  | nil => simp [one]
  | cons c rest =>
      rw [one]
      split
      · rename_i member
        rw [List.mem_singleton, Prod.ext_iff, List.cons.injEq]
        constructor
        · rintro ⟨rfl, rfl⟩
          exact ⟨⟨rfl, rfl⟩, member⟩
        · rintro ⟨⟨rfl, rfl⟩, _⟩
          exact ⟨rfl, rfl⟩
      · rename_i stranger
        refine iff_of_false List.not_mem_nil ?_
        rintro ⟨same, member⟩
        cases same
        exact stranger member

/-- A negative lookahead leaves the text as it is. -/
theorem of_mem_notAhead {cls : α → Bool} {s : List α} {result : Unit × List α}
    (member : result ∈ notAhead cls s) : result.2 = s := by
  cases s with
  | nil =>
      rw [notAhead, List.mem_singleton] at member
      rw [member]
  | cons c rest =>
      rw [notAhead] at member
      split at member
      · cases member
      · rw [List.mem_singleton] at member
        rw [member]

/-- A negative lookahead finds no element of the class. -/
theorem head_of_mem_notAhead {cls : α → Bool} {s : List α} {result : Unit × List α}
    (member : result ∈ notAhead cls s) : ∀ c ∈ s.head?, cls c = false := by
  cases s with
  | nil => exact fun c front => by cases front
  | cons c rest =>
      rw [notAhead] at member
      split at member
      · cases member
      · rename_i outside
        intro d front
        cases front
        exact Bool.eq_false_iff.mpr outside

/-- A lookahead leaves the text as it is, and finds an element of the class. -/
theorem of_mem_ahead {cls : α → Bool} {s : List α} {result : Unit × List α}
    (member : result ∈ ahead cls s) : result.2 = s ∧ ∃ c ∈ s.head?, cls c = true := by
  cases s with
  | nil => cases member
  | cons c rest =>
      rw [ahead] at member
      split at member
      · rename_i inClass
        rw [List.mem_singleton] at member
        rw [member]
        exact ⟨rfl, c, rfl, inClass⟩
      · cases member

/-- A match of `$` leaves the text as it is: at most one last newline. -/
theorem of_mem_dollar {newline : α → Bool} {s : List α} {result : Unit × List α}
    (member : result ∈ dollar newline s) : result.2 = s ∧ ∀ c ∈ s, newline c = true := by
  cases s with
  | nil =>
      rw [List.mem_singleton.mp member]
      exact ⟨rfl, List.forall_mem_nil _⟩
  | cons c rest =>
      cases rest with
      | nil =>
          rw [dollar] at member
          by_cases ends : newline c = true
          · rw [if_pos ends] at member
            rw [List.mem_singleton.mp member]
            exact ⟨rfl, List.forall_mem_singleton.mpr ends⟩
          · rw [if_neg ends] at member
            cases member
      | cons d rest => cases member

/-- A match of `cls*` splits the text after a run of the class. -/
theorem of_mem_many {cls : α → Bool} {s : List α} {result : List α × List α}
    (member : result ∈ many cls s) : s = result.1 ++ result.2 ∧ ∀ c ∈ result.1, cls c = true := by
  induction s generalizing result with
  | nil =>
      rw [many, List.mem_singleton] at member
      subst member
      exact ⟨rfl, nofun⟩
  | cons c rest ih =>
      rw [many] at member
      split at member
      · rename_i inClass
        rcases List.mem_append.mp member with more | stop
        · obtain ⟨tail, inRest, rfl⟩ := List.mem_map.mp more
          obtain ⟨same, all⟩ := ih inRest
          exact ⟨congrArg (c :: ·) same, List.forall_mem_cons.mpr ⟨inClass, all⟩⟩
        · rw [List.mem_singleton] at stop
          subst stop
          exact ⟨rfl, nofun⟩
      · rw [List.mem_singleton] at member
        subst member
        exact ⟨rfl, nofun⟩

/-- A match of `cls+` splits the text after a nonempty run of the class. -/
theorem of_mem_many1 {cls : α → Bool} {s : List α} {result : List α × List α}
    (member : result ∈ many1 cls s) :
    s = result.1 ++ result.2 ∧ result.1 ≠ [] ∧ ∀ c ∈ result.1, cls c = true := by
  obtain ⟨⟨first, rest⟩, inFirst, later⟩ := mem_bind.mp member
  obtain ⟨⟨more, left⟩, inMore, final⟩ := mem_bind.mp later
  rw [mem_pure] at final
  subst final
  obtain ⟨same, inClass⟩ := mem_one.mp inFirst
  obtain ⟨split, all⟩ := of_mem_many inMore
  refine ⟨?_, List.cons_ne_nil _ _, List.forall_mem_cons.mpr ⟨inClass, all⟩⟩
  rw [same, split]
  rfl

theorem match?_mem {x : Pattern α β} {s : List α} {result : β × List α}
    (matched : x.match? s = some result) : result ∈ x s :=
  List.mem_of_head? matched

/-- A pattern takes some text when each of its matches leaves a proper suffix. -/
def Consumes (x : Pattern α β) : Prop :=
  ∀ s, ∀ result ∈ x s, ∃ c taken, s = c :: (taken ++ result.2)

theorem scanFrom_taken (x : Pattern α β) (taken left : List α) :
    scanFrom x taken.length (taken ++ left) = scan x left := by
  induction taken with
  | nil => rfl
  | cons c taken ih => exact ih

theorem scan_nil (x : Pattern α β) : scan x [] = [] := rfl

/-- An element where no match starts is read alone. -/
theorem scan_cons_of_none {x : Pattern α β} {c : α} {rest : List α}
    (unmatched : x.match? (c :: rest) = none) : scan x (c :: rest) = .inl c :: scan x rest := by
  rw [scan, scanFrom, unmatched]
  rfl

/-- A match is read as a whole. -/
theorem scan_cons_of_some {x : Pattern α β} {c : α} {taken left : List α} {value : β}
    (matched : x.match? (c :: (taken ++ left)) = some (value, left)) :
    scan x (c :: (taken ++ left)) = .inr value :: scan x left := by
  have length : (taken ++ left).length - left.length = taken.length := by
    rw [List.length_append, Nat.add_sub_cancel]
  rw [scan, scanFrom, matched]
  dsimp only
  rw [length, scanFrom_taken]

/-- A property of scans follows from its steps over an element and over a match. -/
theorem scan_induction {x : Pattern α β} (consumes : x.Consumes)
    {motive : List α → List (α ⊕ β) → Prop} (nil : motive [] [])
    (skip : ∀ c rest, x.match? (c :: rest) = none → motive rest (scan x rest) →
      motive (c :: rest) (.inl c :: scan x rest))
    (hit : ∀ c taken left value, x.match? (c :: (taken ++ left)) = some (value, left) →
      motive left (scan x left) → motive (c :: (taken ++ left)) (.inr value :: scan x left))
    (s : List α) : motive s (scan x s) := by
  induction size : s.length using Nat.strong_induction_on generalizing s with
  | _ size ih =>
      subst size
      cases s with
      | nil => exact nil
      | cons c rest =>
          cases matched : x.match? (c :: rest) with
          | none =>
              rw [scan_cons_of_none matched]
              exact skip c rest matched (ih rest.length (Nat.lt_succ_self _) rest rfl)
          | some result =>
              obtain ⟨value, left⟩ := result
              obtain ⟨first, taken, same⟩ := consumes _ _ (match?_mem matched)
              dsimp only at same
              obtain ⟨rfl, rfl⟩ := List.cons.inj same
              rw [scan_cons_of_some matched]
              refine hit c taken left value matched (ih left.length ?_ left rfl)
              rw [List.length_cons, List.length_append]
              omega

/-- The matches of a group carry the text that they take. -/
theorem of_mem_captured {x : Pattern α β} {s : List α} {result : List α × List α}
    (suffix : ∀ s, ∀ result ∈ x s, result.2 <:+ s) (member : result ∈ captured x s) :
    s = result.1 ++ result.2 ∧ ∃ value, (value, result.2) ∈ x s := by
  obtain ⟨⟨value, left⟩, inside, rfl⟩ := List.mem_map.mp member
  obtain ⟨taken, same⟩ := suffix s _ inside
  dsimp only at same
  refine ⟨?_, value, inside⟩
  dsimp only
  rw [← same, List.length_append, Nat.add_sub_cancel, List.take_left]

/-- A pattern leaves a suffix of the text in each of its matches. -/
def Suffixes (x : Pattern α β) : Prop := ∀ s, ∀ result ∈ x s, result.2 <:+ s

/-- Each match of a pattern starts with an element of the kind. -/
def Starts (kind : α → Prop) (x : Pattern α β) : Prop :=
  ∀ s, ∀ result ∈ x s, ∃ c rest, s = c :: rest ∧ kind c ∧ result.2 <:+ rest

/-- Each match of a pattern ends with an element of the kind. -/
def Ends (kind : α → Prop) (x : Pattern α β) : Prop :=
  ∀ s, ∀ result ∈ x s, ∃ front c, s = front ++ c :: result.2 ∧ kind c

theorem Starts.suffixes {kind : α → Prop} {x : Pattern α β} (starts : x.Starts kind) :
    x.Suffixes := by
  intro s result member
  obtain ⟨c, rest, rfl, _, suffix⟩ := starts s result member
  exact suffix.trans (List.suffix_cons c rest)

theorem Starts.consumes {kind : α → Prop} {x : Pattern α β} (starts : x.Starts kind) :
    x.Consumes := by
  intro s result member
  obtain ⟨c, rest, rfl, _, taken, rfl⟩ := starts s result member
  exact ⟨c, taken, rfl⟩

theorem suffixes_pure (value : β) : (pure value : Pattern α β).Suffixes := by
  intro s result member
  rw [mem_pure] at member
  subst member
  exact List.suffix_refl s

theorem Suffixes.bind {first : Pattern α β} {next : β → Pattern α γ}
    (before : first.Suffixes) (after : ∀ value, (next value).Suffixes) :
    (first >>= next).Suffixes := by
  intro s result member
  obtain ⟨middle, inFirst, inNext⟩ := mem_bind.mp member
  exact (after middle.1 _ result inNext).trans (before s middle inFirst)

theorem Suffixes.either {left right : Pattern α β} (inLeft : left.Suffixes)
    (inRight : right.Suffixes) : (either left right).Suffixes := by
  intro s result member
  rcases mem_either.mp member with first | second
  · exact inLeft s result first
  · exact inRight s result second

theorem starts_one {cls : α → Bool} {kind : α → Prop} (all : ∀ c, cls c = true → kind c) :
    (one cls).Starts kind := by
  intro s result member
  obtain ⟨rfl, inClass⟩ := mem_one.mp member
  exact ⟨_, _, rfl, all _ inClass, List.suffix_refl _⟩

theorem suffixes_one (cls : α → Bool) : (one cls).Suffixes :=
  (starts_one fun _ member => member).suffixes

theorem suffixes_many (cls : α → Bool) : (many cls).Suffixes := by
  intro s result member
  exact ⟨result.1, (of_mem_many member).1.symm⟩

theorem suffixes_many1 (cls : α → Bool) : (many1 cls).Suffixes := by
  intro s result member
  exact ⟨result.1, (of_mem_many1 member).1.symm⟩

theorem suffixes_exactly (cls : α → Bool) (least : Nat) : (exactly cls least).Suffixes := by
  induction least with
  | zero => exact suffixes_pure []
  | succ least ih =>
      exact (suffixes_one cls).bind fun _ => ih.bind fun _ => suffixes_pure _

theorem suffixes_upTo (cls : α → Bool) (most : Nat) : (upTo cls most).Suffixes := by
  induction most with
  | zero => exact suffixes_pure []
  | succ most ih =>
      exact ((suffixes_one cls).bind fun _ => ih.bind fun _ => suffixes_pure _).either
        (suffixes_pure [])

theorem suffixes_between (cls : α → Bool) (least most : Nat) :
    (between cls least most).Suffixes :=
  (suffixes_exactly cls least).bind fun _ =>
    (suffixes_upTo cls (most - least)).bind fun _ => suffixes_pure _

theorem Suffixes.optional {x : Pattern α β} (inside : x.Suffixes) : (optional x).Suffixes :=
  (inside.bind fun _ => suffixes_pure _).either (suffixes_pure none)

theorem Starts.bind {kind : α → Prop} {first : Pattern α β} {next : β → Pattern α γ}
    (starts : first.Starts kind) (after : ∀ value, (next value).Suffixes) :
    (first >>= next).Starts kind := by
  intro s result member
  obtain ⟨middle, inFirst, inNext⟩ := mem_bind.mp member
  obtain ⟨c, rest, same, isKind, suffix⟩ := starts s middle inFirst
  exact ⟨c, rest, same, isKind, (after middle.1 _ result inNext).trans suffix⟩

theorem Starts.either {kind : α → Prop} {left right : Pattern α β} (inLeft : left.Starts kind)
    (inRight : right.Starts kind) : (either left right).Starts kind := by
  intro s result member
  rcases mem_either.mp member with first | second
  · exact inLeft s result first
  · exact inRight s result second

theorem ends_one_pure {cls : α → Bool} {kind : α → Prop} (all : ∀ c, cls c = true → kind c)
    (value : β) : (one cls >>= fun _ => pure value).Ends kind := by
  intro s result member
  obtain ⟨middle, inOne, final⟩ := mem_bind.mp member
  rw [mem_pure] at final
  subst final
  obtain ⟨rfl, inClass⟩ := mem_one.mp inOne
  exact ⟨[], middle.1, rfl, all _ inClass⟩

theorem Ends.bind {kind : α → Prop} {first : Pattern α β} {next : β → Pattern α γ}
    (before : first.Suffixes) (ends : ∀ value, (next value).Ends kind) :
    (first >>= next).Ends kind := by
  intro s result member
  obtain ⟨middle, inFirst, inNext⟩ := mem_bind.mp member
  obtain ⟨taken, rfl⟩ := before s middle inFirst
  obtain ⟨front, c, same, isKind⟩ := ends middle.1 _ result inNext
  exact ⟨taken ++ front, c, by rw [same, List.append_assoc], isKind⟩

theorem Ends.either {kind : α → Prop} {left right : Pattern α β} (inLeft : left.Ends kind)
    (inRight : right.Ends kind) : (either left right).Ends kind := by
  intro s result member
  rcases mem_either.mp member with first | second
  · exact inLeft s result first
  · exact inRight s result second

/-- A group that starts and ends with a kind captures a text that does. -/
theorem captured_ends {kind : α → Prop} {x : Pattern α β} (starts : x.Starts kind)
    (ends : x.Ends kind) {s : List α} {result : List α × List α} (member : result ∈ captured x s) :
    s = result.1 ++ result.2 ∧ (∃ c ∈ result.1.head?, kind c) ∧ ∃ c ∈ result.1.getLast?, kind c := by
  obtain ⟨same, value, inside⟩ := of_mem_captured starts.suffixes member
  obtain ⟨front, last, ended, isLast⟩ := ends s _ inside
  have text : result.1 = front ++ [last] := by
    rw [same, ← List.singleton_append, ← List.append_assoc] at ended
    exact List.append_cancel_right ended
  obtain ⟨c, rest, started, isFirst, _⟩ := starts s _ inside
  refine ⟨same, ?_, last, ?_, isLast⟩
  · cases taken : result.1 with
    | nil =>
        rw [taken] at text
        exact absurd text (by simp)
    | cons first more =>
        rw [taken, started] at same
        cases same
        exact ⟨c, rfl, isFirst⟩
  · rw [text, List.getLast?_concat]
    rfl

/-- A group that starts with a kind captures a text that does. -/
theorem captured_starts {kind : α → Prop} {x : Pattern α β} (starts : x.Starts kind)
    {s : List α} {result : List α × List α} (member : result ∈ captured x s) :
    ∃ c ∈ result.1.head?, kind c := by
  obtain ⟨same, value, inside⟩ := of_mem_captured starts.suffixes member
  obtain ⟨c, rest, started, isFirst, suffix⟩ := starts s _ inside
  cases taken : result.1 with
  | nil =>
      rw [taken, started, List.nil_append] at same
      have shorter := suffix.length_le
      rw [← same, List.length_cons] at shorter
      omega
  | cons first more =>
      rw [taken, started] at same
      cases same
      exact ⟨c, rfl, isFirst⟩

theorem Starts.captured {kind : α → Prop} {x : Pattern α β} (starts : x.Starts kind) :
    (captured x).Starts kind := by
  intro s result member
  obtain ⟨⟨value, left⟩, inside, rfl⟩ := List.mem_map.mp member
  exact starts s _ inside

theorem Starts.mono {first second : α → Prop} {x : Pattern α β} (starts : x.Starts first)
    (implied : ∀ c, first c → second c) : x.Starts second := by
  intro s result member
  obtain ⟨c, rest, same, holds, suffix⟩ := starts s result member
  exact ⟨c, rest, same, implied c holds, suffix⟩

/-- An element outside the matches is the front of some text without a match. -/
theorem of_inl_mem_scan {x : Pattern α β} (consumes : x.Consumes) {s : List α} {c : α}
    (outside : .inl c ∈ scan x s) : ∃ rest, x.match? (c :: rest) = none := by
  revert outside
  refine scan_induction consumes
    (motive := fun _ read => .inl c ∈ read → ∃ rest, x.match? (c :: rest) = none) ?_ ?_ ?_ s
  · exact nofun
  · rintro first rest unmatched ih (_ | ⟨_, member⟩)
    · exact ⟨rest, unmatched⟩
    · exact ih member
  · rintro first taken left value _ ih (_ | ⟨_, member⟩)
    exact ih member

/-- A match of a scan is a match of the pattern. -/
theorem of_inr_mem_scan {x : Pattern α β} (consumes : x.Consumes) {s : List α} {value : β}
    (inside : .inr value ∈ scan x s) : ∃ text left, (value, left) ∈ x text := by
  revert inside
  refine scan_induction consumes
    (motive := fun _ read => .inr value ∈ read → ∃ text left, (value, left) ∈ x text) ?_ ?_ ?_ s
  · exact nofun
  · rintro first rest _ ih (_ | ⟨_, member⟩)
    exact ih member
  · rintro first taken left found matched ih (_ | ⟨_, member⟩)
    · exact ⟨_, left, match?_mem matched⟩
    · exact ih member

/-- The text of a scan with a group. -/
def readText : List α ⊕ List α → List α := Sum.elim id id

/-- The parts of a scan with a group are the whole text. -/
theorem parts_scan_captured {x : Pattern α β} {kind : α → Prop} (starts : x.Starts kind)
    (s : List α) : (parts (scan (captured x) s)).flatMap readText = s := by
  have whole : ∀ read : List (α ⊕ List α), (parts read).flatMap readText =
      read.flatMap (Sum.elim (fun c => [c]) id) := by
    intro read
    induction read with
    | nil => rfl
    | cons part rest ih =>
        cases part with
        | inr value => rw [parts, List.flatMap_cons, ih]; rfl
        | inl c =>
            rw [parts, List.flatMap_cons, ← ih]
            split
            · rename_i text others same
              rw [same]
              rfl
            · rfl
  rw [whole]
  refine scan_induction starts.captured.consumes
    (motive := fun s read => read.flatMap (Sum.elim (fun c => [c]) id) = s) rfl ?_ ?_ s
  · intro c rest _ ih
    rw [List.flatMap_cons, ih]
    rfl
  · intro c taken left value matched ih
    rw [List.flatMap_cons, ih]
    exact (of_mem_captured starts.suffixes (match?_mem matched)).1.symm

/-- A text between matches is not empty and lies outside them. -/
theorem of_inl_mem_parts {read : List (α ⊕ β)} {text : List α} (member : .inl text ∈ parts read) :
    text ≠ [] ∧ ∀ c ∈ text, .inl c ∈ read := by
  induction read generalizing text with
  | nil => cases member
  | cons part rest ih =>
      cases part with
      | inr value =>
          rcases List.mem_cons.mp member with same | later
          · cases same
          · obtain ⟨nonempty, outside⟩ := ih later
            exact ⟨nonempty, fun c inText => List.mem_cons_of_mem _ (outside c inText)⟩
      | inl first =>
          rw [parts] at member
          split at member
          · rename_i front others same
            rw [same] at ih
            rcases List.mem_cons.mp member with joined | later
            · cases joined
              obtain ⟨_, outside⟩ := ih List.mem_cons_self
              exact ⟨List.cons_ne_nil _ _, List.forall_mem_cons.mpr ⟨List.mem_cons_self,
                fun c inText => List.mem_cons_of_mem _ (outside c inText)⟩⟩
            · obtain ⟨nonempty, outside⟩ := ih (List.mem_cons_of_mem _ later)
              exact ⟨nonempty, fun c inText => List.mem_cons_of_mem _ (outside c inText)⟩
          · rcases List.mem_cons.mp member with joined | later
            · cases joined
              exact ⟨List.cons_ne_nil _ _, List.forall_mem_cons.mpr ⟨List.mem_cons_self, nofun⟩⟩
            · obtain ⟨nonempty, outside⟩ := ih later
              exact ⟨nonempty, fun c inText => List.mem_cons_of_mem _ (outside c inText)⟩

theorem of_inr_mem_parts {read : List (α ⊕ β)} {value : β} (member : .inr value ∈ parts read) :
    .inr value ∈ read := by
  induction read with
  | nil => cases member
  | cons part rest ih =>
      cases part with
      | inr found =>
          rcases List.mem_cons.mp member with same | later
          · cases same
            exact List.mem_cons_self
          · exact List.mem_cons_of_mem _ (ih later)
      | inl first =>
          rw [parts] at member
          split at member
          · rename_i front others same
            rw [same] at ih
            rcases List.mem_cons.mp member with joined | later
            · cases joined
            · exact List.mem_cons_of_mem _ (ih (List.mem_cons_of_mem _ later))
          · rcases List.mem_cons.mp member with joined | later
            · cases joined
            · exact List.mem_cons_of_mem _ (ih later)

theorem match?_either_bind (left right : Pattern α β) (next : β → Pattern α γ) (s : List α) :
    (either left right >>= next).match? s =
      ((left >>= next).match? s).or ((right >>= next).match? s) := by
  simp only [match?_bind, either, List.findSome?_append]

/-- A run of the class with the right length is read whole. -/
theorem match?_exactly_bind {cls : α → Bool} {run : List α} (all : ∀ c ∈ run, cls c = true)
    (next : List α → Pattern α γ) (left : List α) :
    (exactly cls run.length >>= next).match? (run ++ left) = (next run).match? left := by
  induction run generalizing next with
  | nil =>
      show (pure [] >>= next : Pattern α γ).match? left = _
      rw [pure_bind]
  | cons c run ih =>
      rw [List.forall_mem_cons] at all
      rw [List.length_cons, exactly, bind_assoc, List.cons_append, match?_one_bind, if_pos all.1,
        bind_assoc, ih all.2]
      rw [pure_bind]

/-- A run of the class is read whole when it is as long as it may be or ends where the text leaves
the class. -/
theorem match?_upTo_bind_run {cls : α → Bool} {most : Nat} {run left : List α}
    {next : List α → Pattern α γ} {result : γ × List α} (all : ∀ c ∈ run, cls c = true)
    (fits : run.length ≤ most) (stop : run.length = most ∨ ∀ c ∈ left.head?, cls c = false)
    (accepted : (next run).match? left = some result) :
    (upTo cls most >>= next).match? (run ++ left) = some result := by
  induction run generalizing most next with
  | nil =>
      cases most with
      | zero =>
          show (pure [] >>= next : Pattern α γ).match? left = _
          rwa [pure_bind]
      | succ most =>
          have outside : ∀ c ∈ left.head?, cls c = false := stop.resolve_left (by simp)
          have nothing (more : α → Pattern α γ) : (one cls >>= more).match? left = none := by
            cases left with
            | nil => rfl
            | cons c left => rw [match?_one_bind, outside c rfl, if_neg Bool.false_ne_true]
          rw [List.nil_append, upTo, match?_either_bind, bind_assoc, nothing, Option.none_or]
          show (pure [] >>= next : Pattern α γ).match? left = _
          rwa [pure_bind]
  | cons c run ih =>
      rw [List.forall_mem_cons] at all
      cases most with
      | zero => simp at fits
      | succ most =>
          rw [List.length_cons, Nat.add_le_add_iff_right] at fits
          have more := @ih most (fun more => next (c :: more)) all.2 fits
            (stop.imp_left fun same => by simpa using same) accepted
          rw [upTo, match?_either_bind, bind_assoc, List.cons_append, match?_one_bind,
            if_pos all.1, bind_assoc]
          simp only [pure_bind]
          rw [more]
          rfl

theorem match?_between_bind_run {cls : α → Bool} {least most : Nat} {run left : List α}
    {next : List α → Pattern α γ} {result : γ × List α} (all : ∀ c ∈ run, cls c = true)
    (enough : least ≤ run.length) (fits : run.length ≤ most)
    (stop : run.length = most ∨ ∀ c ∈ left.head?, cls c = false)
    (accepted : (next run).match? left = some result) :
    (between cls least most >>= next).match? (run ++ left) = some result := by
  have front : (run.take least).length = least := List.length_take_of_le enough
  have back : (run.drop least).length = run.length - least := List.length_drop
  have frontAll : ∀ c ∈ run.take least, cls c = true :=
    fun c member => all c (List.mem_of_mem_take member)
  rw [between, bind_assoc, ← List.take_append_drop least run, List.append_assoc]
  have step := match?_exactly_bind frontAll
    (fun first => (upTo cls (most - least) >>= fun more => pure (first ++ more)) >>= next)
    (run.drop least ++ left)
  rw [front] at step
  rw [step, bind_assoc]
  apply match?_upTo_bind_run (fun c member => all c (List.mem_of_mem_drop member))
  · omega
  · exact stop.imp_left fun same => by omega
  · rwa [pure_bind, List.take_append_drop]

theorem of_mem_exactly {cls : α → Bool} {least : Nat} {s : List α} {result : List α × List α}
    (member : result ∈ exactly cls least s) :
    s = result.1 ++ result.2 ∧ result.1.length = least ∧ ∀ c ∈ result.1, cls c = true := by
  induction least generalizing s result with
  | zero =>
      rw [mem_pure.mp member]
      exact ⟨rfl, rfl, List.forall_mem_nil _⟩
  | succ least ih =>
      obtain ⟨⟨first, rest⟩, inFirst, later⟩ := mem_bind.mp member
      obtain ⟨⟨more, left⟩, inMore, final⟩ := mem_bind.mp later
      obtain ⟨same, inClass⟩ := mem_one.mp inFirst
      obtain ⟨split, length, all⟩ := ih inMore
      rw [mem_pure.mp final]
      refine ⟨?_, congrArg (· + 1) length, List.forall_mem_cons.mpr ⟨inClass, all⟩⟩
      rw [same, split]
      rfl

theorem of_mem_upTo {cls : α → Bool} {most : Nat} {s : List α} {result : List α × List α}
    (member : result ∈ upTo cls most s) :
    s = result.1 ++ result.2 ∧ result.1.length ≤ most ∧ ∀ c ∈ result.1, cls c = true := by
  induction most generalizing s result with
  | zero =>
      rw [mem_pure.mp member]
      exact ⟨rfl, Nat.le_refl _, List.forall_mem_nil _⟩
  | succ most ih =>
      rcases mem_either.mp member with longer | stop
      · obtain ⟨⟨first, rest⟩, inFirst, later⟩ := mem_bind.mp longer
        obtain ⟨⟨more, left⟩, inMore, final⟩ := mem_bind.mp later
        obtain ⟨same, inClass⟩ := mem_one.mp inFirst
        obtain ⟨split, length, all⟩ := ih inMore
        rw [mem_pure.mp final]
        refine ⟨?_, Nat.succ_le_succ length, List.forall_mem_cons.mpr ⟨inClass, all⟩⟩
        rw [same, split]
        rfl
      · rw [mem_pure.mp stop]
        exact ⟨rfl, Nat.zero_le _, List.forall_mem_nil _⟩

theorem of_mem_between {cls : α → Bool} {least most : Nat} (bounds : least ≤ most) {s : List α}
    {result : List α × List α} (member : result ∈ between cls least most s) :
    s = result.1 ++ result.2 ∧ least ≤ result.1.length ∧ result.1.length ≤ most ∧
      ∀ c ∈ result.1, cls c = true := by
  obtain ⟨⟨first, rest⟩, inFirst, later⟩ := mem_bind.mp member
  obtain ⟨⟨more, left⟩, inMore, final⟩ := mem_bind.mp later
  obtain ⟨same, least_, allFirst⟩ := of_mem_exactly inFirst
  obtain ⟨split, most_, allMore⟩ := of_mem_upTo inMore
  dsimp only at same least_ split most_
  rw [mem_pure.mp final]
  refine ⟨?_, ?_, ?_, List.forall_mem_append.mpr ⟨allFirst, allMore⟩⟩
  · rw [same, split, List.append_assoc]
  · show least ≤ (first ++ more).length
    rw [List.length_append]
    omega
  · show (first ++ more).length ≤ most
    rw [List.length_append]
    omega

/-- A match at the front of a text is what a search finds. -/
theorem search?_of_match? {x : Pattern α β} {s : List α} {result : β × List α}
    (matched : x.match? s = some result) : x.search? s = some result := by
  cases s with
  | nil => exact matched
  | cons c rest => rw [search?, matched]

/-- A search finds a match at the front of some suffix. -/
theorem of_search? {x : Pattern α β} {s : List α} {result : β × List α}
    (found : x.search? s = some result) :
    ∃ front back, s = front ++ back ∧ x.match? back = some result := by
  induction s with
  | nil => exact ⟨[], [], rfl, found⟩
  | cons c rest ih =>
      rw [search?] at found
      split at found
      · rename_i matched
        exact ⟨[], c :: rest, rfl, matched.trans found⟩
      · obtain ⟨front, back, same, matched⟩ := ih found
        exact ⟨c :: front, back, congrArg (c :: ·) same, matched⟩

theorem match?_captured (x : Pattern α β) (s : List α) :
    (captured x).match? s = (x.match? s).map fun result =>
      (s.take (s.length - result.2.length), result.2) :=
  List.head?_map

theorem match?_either (left right : Pattern α β) (s : List α) :
    (either left right).match? s = (left.match? s).or (right.match? s) :=
  List.head?_append

/-- Each match of a pattern takes elements of the kind only. -/
def Within (kind : α → Prop) (x : Pattern α β) : Prop :=
  ∀ s, ∀ result ∈ x s, ∃ taken, s = taken ++ result.2 ∧ ∀ c ∈ taken, kind c

theorem within_pure (kind : α → Prop) (value : β) : (pure value : Pattern α β).Within kind := by
  intro s result member
  rw [mem_pure] at member
  subst member
  exact ⟨[], rfl, nofun⟩

theorem within_one {cls : α → Bool} {kind : α → Prop} (all : ∀ c, cls c = true → kind c) :
    (one cls).Within kind := by
  intro s result member
  obtain ⟨rfl, inClass⟩ := mem_one.mp member
  exact ⟨[result.1], rfl, fun c isFirst => List.mem_singleton.mp isFirst ▸ all _ inClass⟩

theorem within_many {cls : α → Bool} {kind : α → Prop} (all : ∀ c, cls c = true → kind c) :
    (many cls).Within kind := by
  intro s result member
  obtain ⟨same, inClass⟩ := of_mem_many member
  exact ⟨result.1, same, fun c inside => all c (inClass c inside)⟩

theorem Within.bind {kind : α → Prop} {first : Pattern α β} {next : β → Pattern α γ}
    (before : first.Within kind) (after : ∀ value, (next value).Within kind) :
    (first >>= next).Within kind := by
  intro s result member
  obtain ⟨middle, inFirst, inNext⟩ := mem_bind.mp member
  obtain ⟨taken, rfl, ofFirst⟩ := before s middle inFirst
  obtain ⟨more, same, ofNext⟩ := after middle.1 _ result inNext
  refine ⟨taken ++ more, by rw [same, List.append_assoc], fun c inside => ?_⟩
  rcases List.mem_append.mp inside with inTaken | inMore
  · exact ofFirst c inTaken
  · exact ofNext c inMore

theorem Within.either {kind : α → Prop} {left right : Pattern α β} (inLeft : left.Within kind)
    (inRight : right.Within kind) : (either left right).Within kind := by
  intro s result member
  rcases mem_either.mp member with first | second
  · exact inLeft s result first
  · exact inRight s result second

theorem within_upTo {cls : α → Bool} {kind : α → Prop} (all : ∀ c, cls c = true → kind c)
    (most : Nat) : (upTo cls most).Within kind := by
  induction most with
  | zero => exact within_pure kind []
  | succ most ih =>
      exact ((within_one all).bind fun _ => ih.bind fun _ => within_pure kind _).either
        (within_pure kind [])

theorem within_exactly {cls : α → Bool} {kind : α → Prop} (all : ∀ c, cls c = true → kind c)
    (least : Nat) : (exactly cls least).Within kind := by
  induction least with
  | zero => exact within_pure kind []
  | succ least ih => exact (within_one all).bind fun _ => ih.bind fun _ => within_pure kind _

theorem within_between {cls : α → Bool} {kind : α → Prop} (all : ∀ c, cls c = true → kind c)
    (least most : Nat) : (between cls least most).Within kind :=
  (within_exactly all least).bind fun _ => (within_upTo all _).bind fun _ => within_pure kind _

theorem Within.optional {kind : α → Prop} {x : Pattern α β} (inside : x.Within kind) :
    (optional x).Within kind :=
  (inside.bind fun _ => within_pure kind _).either (within_pure kind none)

theorem Within.starUpTo {kind : α → Prop} {x : Pattern α β} (inside : x.Within kind) (fuel : Nat) :
    (starUpTo x fuel).Within kind := by
  induction fuel with
  | zero => exact within_pure kind []
  | succ fuel ih =>
      exact (inside.bind fun _ => ih.bind fun _ => within_pure kind _).either (within_pure kind [])

theorem Within.star {kind : α → Prop} {x : Pattern α β} (inside : x.Within kind) :
    (star x).Within kind :=
  fun s => inside.starUpTo s.length s

/-- A text that a pattern matches as a whole has elements of the kind only. -/
theorem Within.of_fullmatch {kind : α → Prop} {x : Pattern α β} (inside : x.Within kind)
    {s : List α} (matched : (fullmatch? x s).isSome = true) : ∀ c ∈ s, kind c := by
  rw [fullmatch?, Option.isSome_map] at matched
  obtain ⟨result, found⟩ := Option.isSome_iff_exists.mp matched
  obtain ⟨middle, inPattern, ends⟩ := mem_bind.mp (match?_mem found)
  obtain ⟨last, atEnd, _⟩ := mem_bind.mp ends
  obtain ⟨taken, rfl, ofKind⟩ := inside s middle inPattern
  have nothing : middle.2 = [] := by
    cases left : middle.2 with
    | nil => rfl
    | cons c rest =>
        rw [left] at atEnd
        cases atEnd
  rw [nothing, List.append_nil]
  exact ofKind

end Pattern

end Library
