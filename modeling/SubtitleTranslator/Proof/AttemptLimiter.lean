import SubtitleTranslator.Construction.AttemptLimiter

namespace SubtitleTranslator.Auth
open Library

@[simp] theorem entryOf_getD (values : List Int) : (entryOf values).getD [] = values := by
  cases values <;> rfl

/-- A later cutoff alone decides. -/
theorem filter_cutoff (values : List Int) {cutoff later : Int} (ordered : cutoff ≤ later) :
    (values.filter fun time => cutoff < time).filter (fun time => later < time) =
      values.filter fun time => later < time := by
  rw [List.filter_filter]
  apply List.filter_congr
  intro time _
  simp only [← Bool.decide_and, decide_eq_decide]
  omega

namespace LimiterState
variable {Key : Type}

/-- The attempts of an address. -/
def stored (s : LimiterState Key) (key : Key) : List Int := (s.attempts key).getD []

@[simp] theorem stored_prune (s : LimiterState Key) (cutoff current : Int) (key : Key) :
    (s.prune cutoff current).stored key = (s.stored key).filter fun value => cutoff < value := by
  unfold stored prune
  dsimp only
  cases s.attempts key with
  | none => rfl
  | some values => exact entryOf_getD _

variable [DecidableEq Key]

theorem attempts_setAttempts (s : LimiterState Key) (key : Key) (values : List Int) :
    (s.setAttempts key values).attempts = Function.update s.attempts key (entryOf values) := rfl

theorem stored_setAttempts (s : LimiterState Key) (key : Key) (values : List Int) (other : Key) :
    (s.setAttempts key values).stored other = if other = key then values else s.stored other := by
  unfold stored setAttempts
  by_cases same : other = key
  · subst same
    simp
  · simp [same]

end LimiterState

namespace AttemptLimiter
variable {Key : Type} {limiter : AttemptLimiter}

/-- The limiter and the log have the same attempts in every window that can still be asked for. -/
structure Agree (limiter : AttemptLimiter) (clock : Int) (s : LimiterState Key)
    (log : Key → List Int) : Prop where
  past : ∀ key, ∀ time ∈ log key, time ≤ clock
  window : ∀ key cutoff, clock - limiter.window ≤ cutoff →
    ((s.stored key).filter fun time => cutoff < time) = (log key).filter fun time => cutoff < time

theorem Agree.mono {clock current : Int} {s : LimiterState Key} {log : Key → List Int}
    (agree : Agree limiter clock s log) (ordered : clock ≤ current) :
    Agree limiter current s log :=
  ⟨fun key time member => (agree.past key time member).trans ordered,
    fun key cutoff late => agree.window key cutoff (by omega)⟩

/-- The attempts that a prune drops are out of every later window. -/
theorem Agree.prune {current : Int} {s : LimiterState Key} {log : Key → List Int}
    (agree : Agree limiter current s log) :
    Agree limiter current (s.prune (current - limiter.window) current) log := by
  refine ⟨agree.past, fun key cutoff late => ?_⟩
  rw [LimiterState.stored_prune, filter_cutoff _ late]
  exact agree.window key cutoff late

/-- The dictionary has no empty list and no attempt before a cutoff. -/
def Fresh (cutoff : Int) (s : LimiterState Key) : Prop :=
  ∀ address values, s.attempts address = some values → values ≠ [] ∧ ∀ time ∈ values, cutoff < time

theorem entryOf_eq_some {values kept : List Int} :
    entryOf values = some kept ↔ values ≠ [] ∧ kept = values := by
  cases values <;> simp [entryOf, eq_comm]

theorem fresh_prune (s : LimiterState Key) (cutoff current : Int) :
    Fresh cutoff (s.prune cutoff current) := by
  intro address values found
  obtain ⟨before, -, kept⟩ := Option.bind_eq_some_iff.mp found
  obtain ⟨nonempty, rfl⟩ := entryOf_eq_some.mp kept
  exact ⟨nonempty, fun time member => of_decide_eq_true (List.mem_filter.mp member).2⟩

/-- Every address in a fresh dictionary has an attempt in the window. -/
theorem Fresh.inWindow {current : Int} {s : LimiterState Key} {log : Key → List Int}
    (fresh : Fresh (current - limiter.window) s) (agree : Agree limiter current s log)
    {address : Key} (present : s.attempts address ≠ none) :
    0 < limiter.inWindow log address current := by
  obtain ⟨values, found⟩ := Option.ne_none_iff_exists'.mp present
  obtain ⟨nonempty, late⟩ := fresh address values found
  obtain ⟨time, member⟩ := List.exists_mem_of_ne_nil values nonempty
  have same := agree.window address (current - limiter.window) le_rfl
  have inLog : time ∈ (log address).filter fun time => current - limiter.window < time := by
    rw [← same, LimiterState.stored, found]
    exact List.mem_filter.mpr ⟨member, decide_eq_true (late time member)⟩
  obtain ⟨logged, after⟩ := List.mem_filter.mp inLog
  rw [AttemptLimiter.inWindow, List.countP_pos_iff]
  exact ⟨time, logged, decide_eq_true ⟨of_decide_eq_true after, agree.past address time logged⟩⟩

/-- No interval of the length of the window has more attempts than the limit. -/
def Bounded (limiter : AttemptLimiter) (log : Key → List Int) : Prop :=
  ∀ key start, (log key).countP
    (fun time => start < time ∧ time ≤ start + limiter.window) ≤ limiter.limit

/-- The clocks that the calls read, in their order. -/
def times (calls : List (LimiterCall Key)) : List Int := calls.filterMap LimiterCall.time

/-- A limiter and a log at a clock that no later call goes behind, and that is not after a
bound on all clocks. -/
def Related (limiter : AttemptLimiter) (bound : Int) (later : List (LimiterCall Key))
    (s : LimiterState Key) (log : Key → List Int) : Prop :=
  ∃ clock, clock ≤ bound ∧ (∀ time ∈ times later, clock ≤ time ∧ time ≤ bound) ∧
    (times later).Pairwise (· ≤ ·) ∧ Agree limiter clock s log ∧ Bounded limiter log ∧
    ∀ next ∈ s.nextPrune, next ≤ clock + attemptPrune

theorem related_empty {bound : Int} {calls : List (LimiterCall Key)}
    (ordered : (times calls).Pairwise (· ≤ ·)) (bounded : ∀ time ∈ times calls, time ≤ bound) :
    Related limiter bound calls .empty fun _ => [] := by
  obtain ⟨lowest, low⟩ := (times calls).finite_toSet.bddBelow
  refine ⟨min lowest bound, min_le_right _ _,
    fun time member => ⟨(min_le_left _ _).trans (low member), bounded time member⟩, ordered,
    ⟨nofun, fun _ _ _ => rfl⟩, fun _ _ => Nat.zero_le _, nofun⟩

variable [DecidableEq Key]

/-- The attempts of one address may be trimmed to the window. -/
theorem Agree.trim {current : Int} {s : LimiterState Key} {log : Key → List Int}
    (agree : Agree limiter current s log) (key : Key) :
    Agree limiter current
      (s.setAttempts key ((s.stored key).filter fun time => current - limiter.window < time))
      log := by
  refine ⟨agree.past, fun other cutoff late => ?_⟩
  rw [LimiterState.stored_setAttempts]
  split
  · rename_i same
    rw [same, filter_cutoff _ late]
    exact agree.window key cutoff late
  · exact agree.window other cutoff late

/-- The recent attempts are those of the log, and dropping the others keeps the agreement. -/
theorem Agree.recent {clock current : Int} {s : LimiterState Key} {log : Key → List Int}
    (agree : Agree limiter clock s log) (ordered : clock ≤ current) (key : Key) :
    (limiter.recent s key current).2 =
        (log key).filter (fun time => current - limiter.window < time) ∧
      Agree limiter current (limiter.recent s key current).1 log := by
  have now := agree.mono ordered
  unfold AttemptLimiter.recent
  dsimp only
  split
  · exact ⟨now.prune.window key _ le_rfl, now.prune.trim key⟩
  · exact ⟨now.window key _ le_rfl, now.trim key⟩

/-- The log counts the recent attempts. -/
theorem Agree.recent_length {clock current : Int} {s : LimiterState Key} {log : Key → List Int}
    (agree : Agree limiter clock s log) (ordered : clock ≤ current) (key : Key) :
    (limiter.recent s key current).2.length = limiter.inWindow log key current := by
  rw [(agree.recent ordered key).1, inWindow, List.countP_eq_length_filter]
  congr 1
  apply List.filter_congr
  intro time member
  have past := agree.past key time member
  rw [decide_eq_decide]
  omega

/-- An attempt at the present time is in both. -/
theorem Agree.append {current : Int} {s : LimiterState Key} {log : Key → List Int}
    (agree : Agree limiter current s log) {key : Key} {values : List Int}
    (same : values = (log key).filter fun time => current - limiter.window < time) :
    Agree limiter current (s.setAttempts key (values ++ [current]))
      (Function.update log key (log key ++ [current])) := by
  constructor
  · intro other time member
    by_cases own : other = key
    · subst own
      rw [Function.update_self, List.mem_append, List.mem_singleton] at member
      rcases member with member | rfl
      · exact agree.past other time member
      · exact le_rfl
    · rw [Function.update_of_ne own] at member
      exact agree.past other time member
  · intro other cutoff late
    rw [LimiterState.stored_setAttempts]
    split
    · rename_i own
      subst own
      rw [Function.update_self, List.filter_append, List.filter_append, same,
        filter_cutoff _ late]
    · rename_i own
      rw [Function.update_of_ne own]
      exact agree.window other cutoff late

/-- A release erases the same attempt, or one that is in no later window. -/
theorem Agree.release {clock : Int} {s : LimiterState Key} {log : Key → List Int}
    (agree : Agree limiter clock s log) (key : Key) (marker : Int) :
    Agree limiter clock (AttemptLimiter.release s key marker)
      (Function.update log key ((log key).erase marker)) := by
  have erased (other : Key) : (AttemptLimiter.release s key marker).stored other =
      if other = key then (s.stored other).erase marker else s.stored other := by
    unfold AttemptLimiter.release
    split
    · rename_i absent
      split
      · rename_i own
        subst own
        simp [LimiterState.stored, absent]
      · rfl
    · rename_i recent present
      split
      · rw [LimiterState.stored_setAttempts]
        split
        · rename_i own
          subst own
          simp [LimiterState.stored, present]
        · rfl
      · rename_i missing
        split
        · rename_i own
          subst own
          simp [LimiterState.stored, present, List.erase_of_not_mem missing]
        · rfl
  constructor
  · intro other time member
    by_cases own : other = key
    · subst own
      rw [Function.update_self] at member
      exact agree.past other time (List.mem_of_mem_erase member)
    · rw [Function.update_of_ne own] at member
      exact agree.past other time member
  · intro other cutoff late
    rw [erased]
    split
    · rename_i own
      subst own
      rw [Function.update_self, ← List.erase_filter, ← List.erase_filter,
        agree.window other cutoff late]
    · rename_i own
      rw [Function.update_of_ne own]
      exact agree.window other cutoff late

theorem Bounded.release {log : Key → List Int} (bounded : Bounded limiter log) (key : Key)
    (marker : Int) : Bounded limiter (Function.update log key ((log key).erase marker)) := by
  intro other start
  by_cases own : other = key
  · subst own
    rw [Function.update_self]
    exact List.erase_sublist.countP_le.trans (bounded other start)
  · rw [Function.update_of_ne own]
    exact bounded other start

/-- An interval with the new attempt has only attempts that the check counted. -/
theorem Bounded.append {log : Key → List Int} {key : Key} {current : Int}
    (bounded : Bounded limiter log) (past : ∀ time ∈ log key, time ≤ current)
    (room : limiter.inWindow log key current < limiter.limit) :
    Bounded limiter (Function.update log key (log key ++ [current])) := by
  intro other start
  by_cases own : other = key
  · subst own
    rw [Function.update_self, List.countP_append, List.countP_singleton]
    split
    · rename_i inside
      rw [decide_eq_true_eq] at inside
      have counted : (log other).countP
          (fun time => start < time ∧ time ≤ start + limiter.window) ≤
          limiter.inWindow log other current := by
        apply List.countP_mono_left
        intro time member within
        have earlier := past time member
        rw [decide_eq_true_eq] at within ⊢
        omega
      omega
    · exact bounded other start
  · rw [Function.update_of_ne own]
    exact bounded other start

theorem Fresh.setAttempts {cutoff : Int} {s : LimiterState Key} (fresh : Fresh cutoff s)
    {key : Key} {values : List Int} (late : ∀ time ∈ values, cutoff < time) :
    Fresh cutoff (s.setAttempts key values) := by
  intro address kept found
  by_cases own : address = key
  · subst own
    rw [LimiterState.attempts_setAttempts, Function.update_self, entryOf_eq_some] at found
    obtain ⟨nonempty, rfl⟩ := found
    exact ⟨nonempty, late⟩
  · rw [LimiterState.attempts_setAttempts, Function.update_of_ne own] at found
    exact fresh address kept found

/-- A call that prunes leaves a fresh dictionary. -/
theorem fresh_recent {s : LimiterState Key} {current : Int} (due : s.due current = true)
    (key : Key) : Fresh (current - limiter.window) (limiter.recent s key current).1 := by
  unfold recent
  dsimp only
  rw [if_pos due]
  exact (fresh_prune s _ current).setAttempts fun time member =>
    of_decide_eq_true (List.mem_filter.mp member).2

/-- What one call does to a limiter and to the log that agrees with it. -/
theorem step_agrees {clock : Int} {s : LimiterState Key} {log : Key → List Int}
    (agree : Agree limiter clock s log) (bounded : Bounded limiter log) (call : LimiterCall Key)
    (ordered : ∀ time ∈ call.time, clock ≤ time) :
    (limiter.step s call).2 = (limiter.logStep log call).2 ∧
      Agree limiter (call.time.getD clock) (limiter.step s call).1 (limiter.logStep log call).1 ∧
      Bounded limiter (limiter.logStep log call).1 := by
  cases call with
  | limited key current =>
      have later : clock ≤ current := ordered current rfl
      refine ⟨?_, (agree.recent later key).2, bounded⟩
      change LimiterAnswer.limited (limiter.limit ≤ (limiter.recent s key current).2.length) = _
      rw [agree.recent_length later key]
      rfl
  | reserve key current =>
      have later : clock ≤ current := ordered current rfl
      obtain ⟨same, next⟩ := agree.recent later key
      have length := agree.recent_length later key
      change LimiterAnswer.reserved (limiter.reserve s key current).2 = _ ∧
        Agree limiter current (limiter.reserve s key current).1 _ ∧ _
      unfold AttemptLimiter.reserve logStep
      dsimp only
      rw [length]
      split
      · exact ⟨rfl, next, bounded⟩
      · rename_i room
        exact ⟨rfl, next.append same,
          bounded.append (next.past key) (Nat.lt_of_not_le room)⟩
  | release key marker =>
      exact ⟨rfl, agree.release key marker, bounded.release key marker⟩

/-- The next prune is at most one period after the latest call. -/
theorem step_nextPrune {s : LimiterState Key} {clock : Int}
    (planned : ∀ next ∈ s.nextPrune, next ≤ clock + attemptPrune) (call : LimiterCall Key)
    (ordered : ∀ time ∈ call.time, clock ≤ time) :
    ∀ next ∈ (limiter.step s call).1.nextPrune, next ≤ call.time.getD clock + attemptPrune := by
  have recent (key : Key) (current : Int) (later : clock ≤ current) :
      ∀ next ∈ (limiter.recent s key current).1.nextPrune, next ≤ current + attemptPrune := by
    intro next found
    unfold AttemptLimiter.recent at found
    dsimp only at found
    split at found
    · cases found
      exact le_rfl
    · exact (planned next found).trans (by omega)
  cases call with
  | limited key current => exact recent key current (ordered current rfl)
  | reserve key current =>
      have before := recent key current (ordered current rfl)
      change ∀ next ∈ (limiter.reserve s key current).1.nextPrune, next ≤ current + attemptPrune
      unfold AttemptLimiter.reserve
      dsimp only
      split <;> exact before
  | release key marker =>
      change ∀ next ∈ (AttemptLimiter.release s key marker).nextPrune, next ≤ clock + attemptPrune
      unfold AttemptLimiter.release
      split
      · exact planned
      · split <;> exact planned

theorem related_step {bound : Int} (call : LimiterCall Key) (rest : List (LimiterCall Key))
    (s : LimiterState Key) (log : Key → List Int)
    (related : Related limiter bound (call :: rest) s log) :
    (limiter.step s call).2 = (limiter.logStep log call).2 ∧
      Related limiter bound rest (limiter.step s call).1 (limiter.logStep log call).1 := by
  obtain ⟨clock, below, ahead, ordered, agree, bounded, planned⟩ := related
  have split : times (call :: rest) = call.time.toList ++ times rest := by
    unfold times
    cases read : call.time <;> simp [read]
  rw [split] at ahead ordered
  have now : ∀ time ∈ call.time, clock ≤ time := fun time read =>
    (ahead time (List.mem_append_left _ (Option.mem_toList.mpr read))).1
  obtain ⟨answers, next, nextBounded⟩ := step_agrees agree bounded call now
  refine ⟨answers, call.time.getD clock, ?_, ?_, (List.pairwise_append.mp ordered).2.1, next,
    nextBounded, step_nextPrune planned call now⟩
  · cases read : call.time with
    | none => exact below
    | some time =>
        exact (ahead time (List.mem_append_left _ (Option.mem_toList.mpr read))).2
  · intro time member
    have inside := ahead time (List.mem_append_right _ member)
    refine ⟨?_, inside.2⟩
    cases read : call.time with
    | none => exact inside.1
    | some current =>
        exact (List.pairwise_append.mp ordered).2.2 current (Option.mem_toList.mpr read) time member

/-- A reservation is refused exactly when the limit is used up. -/
theorem reserve_refused_iff {clock current : Int} {s : LimiterState Key} {log : Key → List Int}
    (agree : Agree limiter clock s log) (bounded : Bounded limiter log)
    (ordered : clock ≤ current) (key : Key) :
    (limiter.reserve s key current).2 = none ↔
      limiter.inWindow log key current = limiter.limit := by
  have most := bounded key (current - limiter.window)
  rw [sub_add_cancel] at most
  change limiter.inWindow log key current ≤ limiter.limit at most
  unfold AttemptLimiter.reserve
  dsimp only
  rw [agree.recent_length ordered key]
  split
  · rename_i full
    exact iff_of_true rfl (most.antisymm full)
  · rename_i room
    exact iff_of_false (Option.some_ne_none _) (by omega)

/-- After a call that prunes every address has an attempt in the window. -/
theorem step_pruned {clock current : Int} {s : LimiterState Key} {log : Key → List Int}
    (agree : Agree limiter clock s log) (bounded : Bounded limiter log)
    (ordered : clock ≤ current) (positive : 0 < limiter.window) (due : s.due current = true)
    {call : LimiterCall Key} (timed : call.time = some current) {address : Key}
    (present : (limiter.step s call).1.attempts address ≠ none) :
    0 < limiter.inWindow (limiter.logStep log call).1 address current := by
  have now : ∀ time ∈ call.time, clock ≤ time := by
    intro time read
    cases timed.symm.trans read
    exact ordered
  obtain ⟨-, next, -⟩ := step_agrees agree bounded call now
  rw [timed] at next
  refine Fresh.inWindow ?_ next present
  cases call with
  | limited key _ =>
      cases timed
      exact fresh_recent due key
  | reserve key _ =>
      cases timed
      have fresh : Fresh (current - limiter.window) (limiter.recent s key current).1 :=
        fresh_recent due key
      change Fresh _ (limiter.reserve s key current).1
      unfold AttemptLimiter.reserve
      dsimp only
      split
      · exact fresh
      · apply fresh.setAttempts
        intro time member
        rcases List.mem_append.mp member with recent | appended
        · rw [(agree.recent ordered key).1] at recent
          exact of_decide_eq_true (List.mem_filter.mp recent).2
        · rw [List.mem_singleton.mp appended]
          omega
  | release _ _ => cases timed

/-- A limiter answers every sequence of calls like the log that never forgets, and no address
without an attempt in the window is left after a prune. -/
theorem limiter_equals_log {calls : List (LimiterCall Key)} {s : LimiterState Key}
    {log : Key → List Int} {answers logAnswers : List LimiterAnswer}
    (ordered : (times calls).Pairwise (· ≤ ·))
    (ran : Transducer.run limiter.step .empty calls = (s, answers))
    (logged : Transducer.run limiter.logStep (fun _ => []) calls = (log, logAnswers)) :
    answers = logAnswers ∧
      (∀ key start,
        (log key).countP (fun time => start < time ∧ time ≤ start + limiter.window) ≤
            limiter.limit ∧
          (log key).countP (fun time => start ≤ time ∧ time < start + limiter.window) ≤
            limiter.limit) ∧
      ∀ current, (∀ time ∈ times calls, time ≤ current) →
        (∀ key, (limiter.reserve s key current).2 = none ↔
          limiter.inWindow log key current = limiter.limit) ∧
        (∀ later, current + attemptPrune ≤ later → s.due later = true) ∧
        (0 < limiter.window → s.due current = true → ∀ call, call.time = some current →
          ∀ address, (limiter.step s call).1.attempts address ≠ none →
            0 < limiter.inWindow (limiter.logStep log call).1 address current) := by
  have simulated (bound : Int) (early : ∀ time ∈ times calls, time ≤ bound) :
      answers = logAnswers ∧ Related limiter bound [] s log := by
    have start : Related limiter bound (calls ++ []) .empty fun _ => [] := by
      rw [List.append_nil]
      exact related_empty ordered early
    have result := Transducer.run_simulates related_step start
    rw [ran, logged] at result
    exact result
  obtain ⟨latest, early⟩ := (times calls).finite_toSet.bddAbove
  obtain ⟨same, -, -, -, -, -, bounded, -⟩ := simulated latest fun time member => early member
  refine ⟨same, fun key start => ⟨bounded key start, ?_⟩, fun current before => ?_⟩
  · have shifted := bounded key (start - 1)
    refine (List.countP_mono_left fun time _ inside => ?_).trans shifted
    rw [decide_eq_true_eq] at inside ⊢
    omega
  · obtain ⟨-, clock, past, -, -, agree, -, planned⟩ := simulated current before
    refine ⟨reserve_refused_iff agree bounded past, fun later after => ?_,
      fun positive due call timed address => step_pruned agree bounded past positive due timed⟩
    unfold LimiterState.due
    cases next : s.nextPrune with
    | none => rfl
    | some due =>
        have := planned due next
        exact decide_eq_true (by omega)

/-- Two attempts of one instant, the release of one of them, and a third attempt. -/
def twinAttempts : List (LimiterCall Nat) :=
  [.reserve 1 0, .reserve 1 0, .reserve 1 30000000, .release 1 0, .reserve 1 30000000,
    .limited 1 59999999, .limited 1 60000000]

theorem twinAttempts_equal_log :
    (Transducer.run (AttemptLimiter.mk 2 60000000).step .empty twinAttempts).2 =
        (Transducer.run (AttemptLimiter.mk 2 60000000).logStep (fun _ => []) twinAttempts).2 ∧
      (Transducer.run (AttemptLimiter.mk 2 60000000).step .empty twinAttempts).2 =
        [.reserved (some 0), .reserved (some 0), .reserved none, .released,
          .reserved (some 30000000), .limited true, .limited false] :=
  ⟨(limiter_equals_log (by decide +kernel) Prod.mk.eta.symm Prod.mk.eta.symm).1,
    by decide +kernel⟩

end AttemptLimiter

end SubtitleTranslator.Auth
