import SubtitleTranslator.Construction.BatchDriver

namespace SubtitleTranslator.Engine
open Library Library.Text

/-- No cancellation check of the attempt fires. -/
structure Attempt.Uncanceled (attempt : Attempt) : Prop where
  before : attempt.canceledBefore = false
  after : attempt.canceledAfter = false
  asleep : attempt.canceledAsleep = false

/-- A soft failure is a TranslationError outside its two subclasses. -/
def isSoft {Value : Type} : Except Failure Value → Bool
  | .error (.translation _) => true
  | _ => false

def isLimited {Value : Type} : Except Failure Value → Bool
  | .error (.rateLimit _ _) => true
  | _ => false

/-- A rate limit asks for a wait above `MAX_RATE_LIMIT_WAIT` or for NaN. -/
def isOverlong {Value : Type} : Except Failure Value → Bool
  | .error (.rateLimit _ (some delay)) => delay.tooLong
  | _ => false

/-- The soft budget has one call at least. -/
def Request.softBudget (request : Request) : Nat := max 1 request.retries

/-- This many provider calls are allowed to one round. -/
def Request.budget (request : Request) : Nat := request.softBudget + request.rateRetries

/-- The round goes on after these outcomes. -/
structure WithinBudget (request : Request) (soft limited : Nat)
    (outcomes : List (Except Failure (List Str))) : Prop where
  counted : ∀ outcome ∈ outcomes, isSoft outcome = true ∨ isLimited outcome = true
  brief : ∀ outcome ∈ outcomes, isOverlong outcome = false
  softs : soft + outcomes.countP isSoft < request.softBudget
  limits : limited + outcomes.countP isLimited ≤ request.rateRetries

/-- How the last outcome of a round ends it: a soft failure only at the last one of its budget,
a rate limit only past its budget or at an overlong wait. -/
def EndsWith (request : Request) (soft limited : Nat) (raised : Except Failure (List Str)) :
    Except Failure (List Str) → Prop
  | .error (.translation message) =>
      soft + 1 = request.softBudget ∧ raised = .error (.translation message)
  | .error (.rateLimit message wait) =>
      (limited = request.rateRetries ∨ isOverlong (.error (.rateLimit message wait) : Except Failure (List Str)) = true) ∧
        ∃ giveUp, raised = .error (.rateLimit giveUp wait)
  | outcome => raised = outcome

/-- The provider call of one attempt. -/
def providerCall (request : Request) (texts : List Str) (attempt : Attempt) : ProviderCall :=
  ⟨texts, request.src, request.target, attempt.answer⟩

/-- A round calls the provider up to the first outcome that its budgets do not cover. -/
def Budgeted (request : Request) (soft limited : Nat) (texts : List Str) (script : List Attempt)
    (called : Called (List Str)) : Prop :=
  ∃ used earlier last, script = used ++ called.rest ∧
    called.calls = used.map (providerCall request texts) ∧
    used.map (checkedAnswer texts) = earlier ++ [last] ∧
    WithinBudget request soft limited earlier ∧
    EndsWith request (soft + earlier.countP isSoft) (limited + earlier.countP isLimited)
      called.outcome last

/-- The exponents of both delays stay below the overflow. -/
def Request.Finite (request : Request) : Prop :=
  request.retries ≤ overflowExponent ∧ request.rateRetries < overflowExponent

/-- Each outcome that a round meets is within its budgets or ends it. -/
theorem countFailure_cases {request : Request} (finite : request.Finite) (label : Str)
    {soft limited : Nat} (softs : soft < request.softBudget) (limits : limited ≤ request.rateRetries)
    (failure : Failure) :
    (∃ raised, countFailure request label soft limited failure = .error raised ∧
        EndsWith request soft limited (.error raised) (.error failure)) ∨
      (countFailure request label soft limited failure = .ok (soft + 1, limited) ∧
        isSoft (.error failure : Except Failure (List Str)) = true ∧ soft + 1 < request.softBudget) ∨
      (countFailure request label soft limited failure = .ok (soft, limited + 1) ∧
        isLimited (.error failure : Except Failure (List Str)) = true ∧
        isOverlong (.error failure : Except Failure (List Str)) = false ∧
        limited + 1 ≤ request.rateRetries) := by
  obtain ⟨fewRetries, fewLimits⟩ := finite
  rw [Request.softBudget] at softs
  cases failure with
  | translation message =>
      simp only [countFailure]
      by_cases last : request.retries ≤ soft + 1
      · rw [if_pos last]
        refine .inl ⟨_, rfl, ?_, rfl⟩
        rw [Request.softBudget]
        omega
      · rw [if_neg last, if_neg (by omega)]
        refine .inr (.inl ⟨rfl, rfl, ?_⟩)
        rw [Request.softBudget]
        omega
  | rateLimit message wait =>
      simp only [countFailure]
      by_cases last : request.rateRetries < limited + 1
      · rw [if_pos last]
        exact .inl ⟨_, rfl, .inl (by omega), _, rfl⟩
      · rw [if_neg last]
        cases wait with
        | none =>
            simp only
            rw [if_neg (by omega)]
            exact .inr (.inr ⟨rfl, rfl, rfl, by omega⟩)
        | some delay =>
            simp only
            by_cases overlong : delay.tooLong = true
            · rw [if_pos overlong]
              exact .inl ⟨_, rfl, .inr overlong, _, rfl⟩
            · rw [if_neg overlong]
              exact .inr (.inr ⟨rfl, rfl, by simpa [isOverlong] using overlong, by omega⟩)
  | fatal message => exact .inl ⟨_, rfl, rfl⟩
  | canceled => exact .inl ⟨_, rfl, rfl⟩
  | value => exact .inl ⟨_, rfl, rfl⟩
  | other => exact .inl ⟨_, rfl, rfl⟩

theorem WithinBudget.nil {request : Request} {soft limited : Nat}
    (softs : soft < request.softBudget) (limits : limited ≤ request.rateRetries) :
    WithinBudget request soft limited [] :=
  ⟨List.forall_mem_nil _, List.forall_mem_nil _, softs, limits⟩

/-- A round whose first outcome ends it. -/
theorem Budgeted.single {request : Request} {soft limited : Nat} {texts : List Str}
    {attempt : Attempt} {rest : List Attempt} {raised : Except Failure (List Str)}
    (softs : soft < request.softBudget) (limits : limited ≤ request.rateRetries)
    (ends : EndsWith request soft limited raised (checkedAnswer texts attempt)) :
    Budgeted request soft limited texts (attempt :: rest)
      ⟨raised, [providerCall request texts attempt], rest⟩ :=
  ⟨[attempt], [], checkedAnswer texts attempt, rfl, rfl, rfl, .nil softs limits, ends⟩

/-- A counted outcome comes before the others of its round. -/
theorem Budgeted.cons {request : Request} {soft limited : Nat} {texts : List Str}
    {attempt : Attempt} {rest : List Attempt} {called : Called (List Str)}
    (counted : isSoft (checkedAnswer texts attempt) = true ∨
      isLimited (checkedAnswer texts attempt) = true)
    (brief : isOverlong (checkedAnswer texts attempt) = false)
    (later : Budgeted request (soft + [checkedAnswer texts attempt].countP isSoft)
      (limited + [checkedAnswer texts attempt].countP isLimited) texts rest called) :
    Budgeted request soft limited texts (attempt :: rest)
      { called with calls := providerCall request texts attempt :: called.calls } := by
  obtain ⟨used, earlier, last, split, calls, outcomes, within, ends⟩ := later
  have softs : soft + [checkedAnswer texts attempt].countP isSoft + earlier.countP isSoft =
      soft + (checkedAnswer texts attempt :: earlier).countP isSoft := by
    simp only [List.countP_cons, List.countP_nil]
    omega
  have limits : limited + [checkedAnswer texts attempt].countP isLimited +
      earlier.countP isLimited =
      limited + (checkedAnswer texts attempt :: earlier).countP isLimited := by
    simp only [List.countP_cons, List.countP_nil]
    omega
  refine ⟨attempt :: used, checkedAnswer texts attempt :: earlier, last, ?_, ?_, ?_, ?_, ?_⟩
  · rw [split]
    rfl
  · rw [calls]
    rfl
  · rw [List.map_cons, outcomes]
    rfl
  · refine ⟨List.forall_mem_cons.mpr ⟨counted, within.counted⟩,
      List.forall_mem_cons.mpr ⟨brief, within.brief⟩, ?_, ?_⟩
    · rw [← softs]
      exact within.softs
    · rw [← limits]
      exact within.limits
  · rw [← softs, ← limits]
    exact ends

/-- A round comes to its end before its budgets are used up. -/
theorem callWithRetry_budgeted {request : Request} (finite : request.Finite) (texts : List Str)
    (label : Str) {soft limited : Nat} (softs : soft < request.softBudget)
    (limits : limited ≤ request.rateRetries) {script : List Attempt}
    (uncanceled : ∀ attempt ∈ script, attempt.Uncanceled)
    (enough : request.budget ≤ soft + limited + script.length) :
    ∃ called, callWithRetry request texts label soft limited script = some called ∧
      Budgeted request soft limited texts script called := by
  induction script generalizing soft limited with
  | nil =>
      rw [Request.budget, List.length_nil] at enough
      omega
  | cons attempt rest ih =>
      rw [List.forall_mem_cons] at uncanceled
      rw [List.length_cons] at enough
      obtain ⟨⟨before, after, asleep⟩, others⟩ := uncanceled
      rw [callWithRetry]
      simp only [before, asleep, Bool.false_eq_true, if_false]
      cases checked : checkedAnswer texts attempt with
      | ok output =>
          refine ⟨_, rfl, .single softs limits ?_⟩
          rw [checked]
          exact rfl
      | error failure =>
          simp only
          rcases countFailure_cases finite label softs limits failure with
            ⟨raised, stopped, ends⟩ | ⟨counted, isSoft, more⟩ | ⟨counted, isLimited, brief, more⟩
          · rw [stopped]
            refine ⟨_, rfl, .single softs limits ?_⟩
            rw [checked]
            exact ends
          · rw [counted]
            obtain ⟨called, ran, kept⟩ := ih more limits others (by omega)
            simp only [ran, Option.map_some]
            refine ⟨_, rfl, .cons (.inl ?_) ?_ ?_⟩
            · rw [checked]
              exact isSoft
            · rw [checked]
              cases failure <;> first | rfl | cases isSoft
            · rw [checked]
              cases failure <;> first | exact kept | cases isSoft
          · rw [counted]
            obtain ⟨called, ran, kept⟩ := ih softs more others (by omega)
            simp only [ran, Option.map_some]
            refine ⟨_, rfl, .cons (.inr ?_) ?_ ?_⟩
            · rw [checked]
              exact isLimited
            · rw [checked]
              exact brief
            · rw [checked]
              cases failure <;> first | exact kept | cases isLimited

/-- Outcomes that are soft or limited are counted by the two budgets together. -/
theorem length_le_countP {Value : Type} {outcomes : List (Except Failure Value)}
    (counted : ∀ outcome ∈ outcomes, isSoft outcome = true ∨ isLimited outcome = true) :
    outcomes.length ≤ outcomes.countP isSoft + outcomes.countP isLimited := by
  induction outcomes with
  | nil => exact Nat.zero_le _
  | cons outcome outcomes ih =>
      rw [List.forall_mem_cons] at counted
      have rest := ih counted.2
      rw [List.length_cons]
      rcases counted.1 with soft | limited
      · rw [List.countP_cons_of_pos soft]
        have more := @List.countP_cons _ isLimited outcome outcomes
        omega
      · rw [List.countP_cons_of_pos limited]
        have more := @List.countP_cons _ isSoft outcome outcomes
        omega

/-- A round costs no more calls than both budgets together. -/
theorem Budgeted.calls_length {request : Request} {texts : List Str} {script : List Attempt}
    {called : Called (List Str)} (budgeted : Budgeted request 0 0 texts script called) :
    called.calls.length ≤ request.budget := by
  obtain ⟨used, earlier, last, _, calls, outcomes, within, _⟩ := budgeted
  have lengths := congrArg List.length outcomes
  rw [List.length_map, List.length_append, List.length_singleton] at lengths
  have counts := length_le_countP within.counted
  have softs := within.softs
  have limits := within.limits
  rw [calls, List.length_map, Request.budget]
  omega

/-- One round of a batch is a call of `call_with_retry` with new counters. -/
structure Round (request : Request) where
  texts : List Str
  script : List Attempt
  called : Called (List Str)
  budgeted : Budgeted request 0 0 texts script called

/-- Each round meets the outcomes that the round before it left. -/
def Consecutive {request : Request} : List Attempt → List (Round request) → Prop
  | _, [] => True
  | script, round :: rounds => round.script = script ∧ Consecutive round.called.rest rounds

/-- A fatal error and an exhausted rate limit end the job; a soft failure does not. -/
def Failure.aborts : Failure → Bool
  | .translation _ => false
  | _ => true

/-- A round that aborts is the last round of its batch and gives its outcome. -/
def AbortsLast {request : Request} (rounds : List (Round request))
    (outcome : Except Failure (List Line)) : Prop :=
  ∀ earlier round later, rounds = earlier ++ round :: later →
    ∀ failure, round.called.outcome = .error failure → failure.aborts = true →
      later = [] ∧ outcome = .error failure

/-- The calls of a batch come from rounds for the first ones of these requests. -/
def InRounds (request : Request) (requests : List (List Str)) (script : List Attempt)
    (called : Called (List Line)) : Prop :=
  ∃ rounds : List (Round request), Consecutive script rounds ∧
    rounds.map Round.texts <+: requests ∧
    called.calls = rounds.flatMap (·.called.calls) ∧ AbortsLast rounds called.outcome

theorem InRounds.single {request : Request} {requests : List (List Str)}
    {called : Called (List Line)} (round : Round request)
    (calls : called.calls = round.called.calls)
    (raised : ∀ failure, round.called.outcome = .error failure → failure.aborts = true →
      called.outcome = .error failure) :
    InRounds request (round.texts :: requests) round.script called := by
  refine ⟨[round], ⟨rfl, trivial⟩, ⟨requests, rfl⟩, by simp [calls], ?_⟩
  intro earlier other later split failure failed aborts
  cases earlier with
  | nil =>
      cases split
      exact ⟨rfl, raised failure failed aborts⟩
  | cons first earlier => simp at split

/-- A round without an abort comes before the other rounds of its batch. -/
theorem InRounds.cons {request : Request} {requests : List (List Str)}
    {called later : Called (List Line)} (round : Round request)
    (others : InRounds request requests round.called.rest later)
    (calls : called.calls = round.called.calls ++ later.calls)
    (goesOn : ∀ failure, round.called.outcome = .error failure → failure.aborts = false)
    (raised : ∀ failure, later.outcome = .error failure → called.outcome = .error failure) :
    InRounds request (round.texts :: requests) round.script called := by
  obtain ⟨rounds, consecutive, requested, more, last⟩ := others
  refine ⟨round :: rounds, ⟨rfl, consecutive⟩, ?_, ?_, ?_⟩
  · exact List.prefix_cons_inj _ |>.mpr requested
  · rw [calls, more, List.flatMap_cons]
  · intro earlier other rest split failure failed aborts
    cases earlier with
    | nil =>
        cases split
        rw [goesOn failure failed] at aborts
        cases aborts
    | cons first earlier =>
        rw [List.cons_append, List.cons.injEq] at split
        obtain ⟨nothing, outcome⟩ := last earlier other rest split.2 failure failed aborts
        exact ⟨nothing, raised failure outcome⟩

/-- Each request of a batch costs one round at most. -/
theorem InRounds.calls_length {request : Request} {requests : List (List Str)}
    {script : List Attempt} {called : Called (List Line)}
    (inRounds : InRounds request requests script called) :
    called.calls.length ≤ requests.length * request.budget := by
  obtain ⟨rounds, _, requested, calls, _⟩ := inRounds
  have each : ∀ count ∈ rounds.map (·.called.calls.length), count ≤ request.budget := by
    intro count member
    obtain ⟨round, _, rfl⟩ := List.mem_map.mp member
    exact round.budgeted.calls_length
  have total := List.sum_le_card_nsmul _ _ each
  have few := requested.length_le
  rw [List.length_map] at few total
  rw [calls, List.length_flatMap]
  exact total.trans (Nat.mul_le_mul_right _ few)

theorem rest_uncanceled {request : Request} {texts : List Str} {soft limited : Nat}
    {script : List Attempt} {called : Called (List Str)}
    (budgeted : Budgeted request soft limited texts script called)
    (uncanceled : ∀ attempt ∈ script, attempt.Uncanceled) :
    ∀ attempt ∈ called.rest, attempt.Uncanceled := by
  obtain ⟨used, _, _, split, _⟩ := budgeted
  intro attempt member
  apply uncanceled
  rw [split]
  exact List.mem_append_right _ member

/-- A round leaves the outcomes that it did not use. -/
theorem Budgeted.rest_length {request : Request} {texts : List Str} {script : List Attempt}
    {called : Called (List Str)} (budgeted : Budgeted request 0 0 texts script called) :
    script.length ≤ request.budget + called.rest.length := by
  have few := budgeted.calls_length
  obtain ⟨used, _, _, split, calls, _⟩ := budgeted
  rw [calls, List.length_map] at few
  rw [split, List.length_append]
  omega

/-- A failed line passes its text through or aborts. -/
theorem lineOf_error {text : Str} {outcome : Except Failure (List Str)} {failure : Failure}
    (failed : outcome = .error failure) :
    if failure.aborts then lineOf text outcome = .error failure
    else lineOf text outcome = .ok ⟨text, true⟩ := by
  subst failed
  cases failure <;> rfl

/-- The per-line fallback takes one round for each line up to the first that aborts. -/
theorem runLines_inRounds {request : Request} (finite : request.Finite) {texts : List Str}
    {script : List Attempt} (uncanceled : ∀ attempt ∈ script, attempt.Uncanceled)
    (enough : texts.length * request.budget ≤ script.length) :
    ∃ called, runLines request texts script = some called ∧
      InRounds request (texts.map fun text => [text]) script called := by
  induction texts generalizing script with
  | nil =>
      refine ⟨_, rfl, [], trivial, List.nil_prefix, rfl, ?_⟩
      intro earlier round later split
      simp at split
  | cons text texts ih =>
      rw [List.length_cons, Nat.succ_mul] at enough
      obtain ⟨called, ran, budgeted⟩ := callWithRetry_budgeted finite [text] (ofString "single line")
        (Nat.lt_of_lt_of_le Nat.zero_lt_one (Nat.le_max_left _ _)) (Nat.zero_le _) uncanceled
        (by omega)
      let round : Round request := ⟨[text], script, called, budgeted⟩
      rw [runLines, ran]
      simp only [Option.bind_eq_bind, Option.bind_some, List.map_cons]
      cases read : lineOf text called.outcome with
      | error failure =>
          refine ⟨_, rfl, .single round rfl ?_⟩
          intro raised failed aborts
          have line := @lineOf_error text _ _ failed
          rw [if_pos aborts, read] at line
          rw [Except.error.inj line]
      | ok line =>
          have left := budgeted.rest_length
          obtain ⟨others, again, inRounds⟩ := ih (rest_uncanceled budgeted uncanceled) (by omega)
          simp only [again, Option.bind_some]
          refine ⟨_, rfl, .cons round inRounds rfl ?_ ?_⟩
          · intro raised failed
            by_contra aborts
            have other := @lineOf_error text _ _ failed
            rw [if_pos (by simpa using aborts), read] at other
            cases other
          · intro raised failed
            simp only [failed]
            rfl

/-- A batch of one segment has one round; another one has a round for each line besides. -/
def batchRequests (texts : List Str) : List (List Str) :=
  texts :: if texts.length = 1 then [] else texts.map fun text => [text]

def Request.batchBudget (request : Request) (segments : Nat) : Nat :=
  (if segments = 1 then 1 else segments + 1) * request.budget

theorem batchRequests_length (texts : List Str) (request : Request) :
    (batchRequests texts).length * request.budget = request.batchBudget texts.length := by
  rw [batchRequests, Request.batchBudget]
  split
  · rfl
  · rw [List.length_cons, List.length_map]

/-- A batch comes to its end in rounds that keep their budgets. -/
theorem runBatch_inRounds {request : Request} (finite : request.Finite) {texts : List Str}
    {script : List Attempt} (uncanceled : ∀ attempt ∈ script, attempt.Uncanceled)
    (enough : request.batchBudget texts.length ≤ script.length) :
    ∃ called, runBatch request texts script = some called ∧
      InRounds request (batchRequests texts) script called := by
  have first : request.budget ≤ script.length := by
    refine Nat.le_trans ?_ enough
    rw [Request.batchBudget]
    split
    · rw [Nat.one_mul]
    · exact Nat.le_mul_of_pos_left _ (Nat.succ_pos _)
  obtain ⟨called, ran, budgeted⟩ := callWithRetry_budgeted finite texts
    (ofString "batch of " ++ decimal texts.length)
    (Nat.lt_of_lt_of_le Nat.zero_lt_one (Nat.le_max_left _ _)) (Nat.zero_le _) uncanceled
    (by omega)
  let round : Round request := ⟨texts, script, called, budgeted⟩
  rw [runBatch, ran]
  simp only [Option.bind_eq_bind, Option.bind_some]
  cases outcome : called.outcome with
  | ok output =>
      refine ⟨_, rfl, .single round rfl ?_⟩
      intro failure failed
      rw [outcome] at failed
      cases failed
  | error failure =>
      cases aborting : failure.aborts with
      | true =>
          refine ⟨⟨.error failure, called.calls, called.rest⟩, ?_, .single round rfl ?_⟩
          · cases failure <;> first | rfl | cases aborting
          · intro raised failed _
            rw [outcome] at failed
            cases failed
            rfl
      | false =>
          cases failure with
          | translation message =>
              simp only
              by_cases alone : texts.length = 1
              · rw [if_pos alone]
                refine ⟨_, rfl, .single round rfl ?_⟩
                intro raised failed aborts
                rw [outcome] at failed
                cases failed
                cases aborts
              · rw [if_neg alone, batchRequests, if_neg alone]
                rw [Request.batchBudget, if_neg alone, Nat.succ_mul] at enough
                have left := budgeted.rest_length
                obtain ⟨lines, again, inRounds⟩ := runLines_inRounds finite
                  (rest_uncanceled budgeted uncanceled)
                  (show texts.length * request.budget ≤ called.rest.length by omega)
                simp only [again, Option.bind_some]
                refine ⟨_, rfl, .cons round inRounds rfl ?_ fun _ failed => failed⟩
                intro raised failed
                rw [outcome] at failed
                cases failed
                rfl
          | rateLimit | fatal | canceled | value | other => cases aborting

/-- Every round and every batch without a cancellation comes to its end within its budgets. -/
structure BudgetsKept (request : Request) : Prop where
  rounds : ∀ (texts : List Str) (label : Str) (script : List Attempt),
    (∀ attempt ∈ script, attempt.Uncanceled) → request.budget ≤ script.length →
      ∃ called, callWithRetry request texts label 0 0 script = some called ∧
        called.calls.length ≤ request.budget ∧ Budgeted request 0 0 texts script called
  batches : ∀ (texts : List Str) (script : List Attempt),
    (∀ attempt ∈ script, attempt.Uncanceled) → request.batchBudget texts.length ≤ script.length →
      ∃ called, runBatch request texts script = some called ∧
        called.calls.length ≤ request.batchBudget texts.length ∧
        InRounds request (batchRequests texts) script called

theorem budgetsKept_of_finite {request : Request} (finite : request.Finite) :
    BudgetsKept request where
  rounds texts label script uncanceled enough := by
    obtain ⟨called, ran, budgeted⟩ := callWithRetry_budgeted finite texts label
      (Nat.lt_of_lt_of_le Nat.zero_lt_one (Nat.le_max_left _ _)) (Nat.zero_le _) uncanceled
      (by omega)
    exact ⟨called, ran, budgeted.calls_length, budgeted⟩
  batches texts script uncanceled enough := by
    obtain ⟨called, ran, inRounds⟩ := runBatch_inRounds finite uncanceled enough
    exact ⟨called, ran, batchRequests_length texts request ▸ inRounds.calls_length, inRounds⟩

/-- The provider raises the same failure again. -/
def raising (failure : Failure) : Attempt := { answer := .raises failure }

/-- A round whose provider only raises one failure ends with it. -/
theorem Budgeted.raising {request : Request} {texts : List Str} {failure : Failure} {count : Nat}
    {called : Called (List Str)}
    (budgeted : Budgeted request 0 0 texts (List.replicate count (raising failure)) called) :
    ∃ soft limited, EndsWith request soft limited called.outcome (.error failure) := by
  obtain ⟨used, earlier, last, split, _, outcomes, _, ends⟩ := budgeted
  have member : last ∈ used.map (checkedAnswer texts) := by
    rw [outcomes]
    exact List.mem_append_right _ (List.mem_singleton_self last)
  obtain ⟨attempt, inUsed, rfl⟩ := List.mem_map.mp member
  have same : attempt = Engine.raising failure := by
    apply List.eq_of_mem_replicate
    rw [split]
    exact List.mem_append_left _ inUsed
  subst same
  exact ⟨_, _, ends⟩

/-- A soft failure short of its budget overflows the delay after it. -/
theorem soft_overflow {request : Request} (many : overflowExponent < request.retries)
    (texts : List Str) (label message : Str) {soft count : Nat} (below : soft < overflowExponent)
    (enough : overflowExponent ≤ soft + count) :
    ∃ called, callWithRetry request texts label soft 0
        (List.replicate count (raising (.translation message))) = some called ∧
      called.outcome = .error .other := by
  induction count generalizing soft with
  | zero => omega
  | succ count ih =>
      rw [List.replicate_succ, callWithRetry]
      simp only [raising, checkedAnswer, countFailure, Bool.false_eq_true, if_false]
      rw [if_neg (by omega)]
      by_cases last : overflowExponent ≤ soft + 1
      · rw [if_pos last]
        exact ⟨_, rfl, rfl⟩
      · rw [if_neg last]
        obtain ⟨called, ran, outcome⟩ := @ih (soft + 1) (by omega) (by omega)
        rw [raising] at ran
        simp only [ran, Option.map_some]
        exact ⟨_, rfl, outcome⟩

/-- A rate limit without a wait overflows the delay after it. -/
theorem limited_overflow {request : Request} (many : overflowExponent ≤ request.rateRetries)
    (texts : List Str) (label message : Str) {limited count : Nat}
    (below : limited < overflowExponent) (enough : overflowExponent ≤ limited + count) :
    ∃ called, callWithRetry request texts label 0 limited
        (List.replicate count (raising (.rateLimit message none))) = some called ∧
      called.outcome = .error .other := by
  induction count generalizing limited with
  | zero => omega
  | succ count ih =>
      rw [List.replicate_succ, callWithRetry]
      simp only [raising, checkedAnswer, countFailure, Bool.false_eq_true, if_false]
      rw [if_neg (by omega)]
      by_cases last : overflowExponent ≤ limited + 1
      · rw [if_pos last]
        exact ⟨_, rfl, rfl⟩
      · rw [if_neg last]
        obtain ⟨called, ran, outcome⟩ := @ih (limited + 1) (by omega) (by omega)
        rw [raising] at ran
        simp only [ran, Option.map_some]
        exact ⟨_, rfl, outcome⟩

theorem raising_uncanceled (failure : Failure) (count : Nat) :
    ∀ attempt ∈ List.replicate count (raising failure), attempt.Uncanceled := by
  intro attempt member
  rw [List.eq_of_mem_replicate member]
  exact ⟨rfl, rfl, rfl⟩

/-- A budget that reaches the exponent is not used up. -/
theorem BudgetsKept.finite {request : Request} (kept : BudgetsKept request) : request.Finite := by
  constructor
  · by_contra many
    obtain ⟨called, ran, _, budgeted⟩ := kept.rounds [] []
      (List.replicate request.budget (raising (.translation []))) (raising_uncanceled _ _)
      (by rw [List.length_replicate])
    obtain ⟨other, again, outcome⟩ := @soft_overflow request (by omega) [] [] [] 0 request.budget
      (by decide) (by rw [Request.budget, Request.softBudget]; omega)
    rw [ran] at again
    cases again
    obtain ⟨_, _, _, raised⟩ := budgeted.raising
    rw [outcome] at raised
    cases raised
  · by_contra many
    obtain ⟨called, ran, _, budgeted⟩ := kept.rounds [] []
      (List.replicate request.budget (raising (.rateLimit [] none))) (raising_uncanceled _ _)
      (by rw [List.length_replicate])
    obtain ⟨other, again, outcome⟩ := @limited_overflow request (by omega) [] [] [] 0
      request.budget (by decide) (by rw [Request.budget, Request.softBudget]; omega)
    rw [ran] at again
    cases again
    obtain ⟨_, _, _, _, raised⟩ := budgeted.raising
    rw [outcome] at raised
    cases raised

/-- The two budgets are kept exactly when neither reaches the exponent that overflows. -/
theorem budgets_kept_iff (request : Request) :
    BudgetsKept request ↔
      request.retries ≤ overflowExponent ∧ request.rateRetries < overflowExponent :=
  ⟨BudgetsKept.finite, budgetsKept_of_finite⟩

/-- A job with ten tries for rate limits. -/
def patientRequest (retries : Nat) : Request where
  segs := []
  target := .fr
  src := []
  batchSize := 1
  batchSize_pos := by decide
  retries := retries
  rateRetries := 10

example : BudgetsKept (patientRequest 4) := budgetsKept_of_finite ⟨by decide, by decide⟩

/-- The delay after the 1024th soft failure overflows, and the 1025th call is not made. -/
theorem patient_request_overflows :
    (∃ called, callWithRetry (patientRequest 1025) [] [] 0 0
        (List.replicate 1025 (raising (.translation []))) = some called ∧
      called.outcome = .error .other) ∧ ¬∀ request : Request, BudgetsKept request := by
  refine ⟨soft_overflow (by decide) [] [] [] (by decide) (by decide), fun claim => ?_⟩
  exact absurd (claim (patientRequest 1025)).finite.1 (by decide)

end SubtitleTranslator.Engine
