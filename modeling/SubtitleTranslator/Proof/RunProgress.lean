import SubtitleTranslator.Proof.RunJob

namespace SubtitleTranslator.Jobs
open Library Text
open Engine (Language LoopState roundSeconds)

section Rounding

theorem floor_le_roundSeconds (value : ℚ) :
    ⌊value⌋ ≤ roundSeconds value ∧ roundSeconds value ≤ ⌊value⌋ + 1 := by
  simp only [roundSeconds]
  split_ifs <;> omega

/-- Rounding half to even keeps the order. -/
theorem roundSeconds_mono {first second : ℚ} (le : first ≤ second) :
    roundSeconds first ≤ roundSeconds second := by
  rcases (Int.floor_le_floor le).lt_or_eq with less | same
  · have above := (floor_le_roundSeconds first).2
    have below := (floor_le_roundSeconds second).1
    omega
  · simp only [roundSeconds, same]
    split_ifs with low high even high' even' <;> first | omega | skip
    all_goals exfalso
    all_goals linarith

end Rounding

section Percent
variable {Key : Type} (plan : JobPlan Key)

theorem JobPlan.percent_mono {first second : ℚ} (le : first ≤ second) :
    plan.percent first ≤ plan.percent second := by
  have scaled : first / plan.targets.length * 90 ≤ second / plan.targets.length * 90 := by
    gcongr
  have rounded := Int.toNat_le_toNat (roundSeconds_mono scaled)
  exact Nat.add_le_add_left rounded 5

/-- The work itself ends at 95 percent. -/
theorem JobPlan.percent_le {finished : ℚ} (le : finished ≤ plan.targets.length) :
    plan.percent finished ≤ 95 := by
  have share : finished / plan.targets.length * 90 ≤ 90 := by
    have quotient : finished / plan.targets.length ≤ 1 := div_le_one_of_le₀ le (Nat.cast_nonneg _)
    linarith
  have ninety : roundSeconds 90 = 90 := by decide +kernel
  have rounded := Int.toNat_le_toNat (roundSeconds_mono share)
  rw [ninety] at rounded
  exact Nat.add_le_add_left rounded 5

theorem JobPlan.index_le (rest : List Language) : (plan.index rest : ℚ) ≤ plan.targets.length :=
  Nat.cast_le.mpr (Nat.sub_le _ _)

/-- The index of the next language. -/
theorem JobPlan.index_tail {done rest : List Language} {language : Language}
    (split : plan.targets = done ++ language :: rest) :
    plan.index rest = plan.index (language :: rest) + 1 := by
  rw [JobPlan.index, JobPlan.index, split, List.length_append, List.length_cons]
  omega

end Percent

theorem fraction_nonneg (done total : Nat) : 0 ≤ fraction done total := by
  unfold fraction
  split
  · exact zero_le_one
  · positivity

theorem fraction_le_one {done total : Nat} (le : done ≤ total) : fraction done total ≤ 1 := by
  unfold fraction
  split
  · exact le_rfl
  · exact div_le_one_of_le₀ (Nat.cast_le.mpr le) (Nat.cast_nonneg _)

theorem fraction_mono {done more total : Nat} (le : done ≤ more) :
    fraction done total ≤ fraction more total := by
  unfold fraction
  split
  · exact le_rfl
  · gcongr

/-- The progress that a step writes. -/
def JobEvent.progress? : JobEvent → Option Nat
  | .claim => some 2
  | .report progress _ | .addOutput _ progress => some progress
  | _ => none

/-- Only a completed job shows 100 percent; another one is within a bound. -/
def Within (bound : Nat) (job : JobRow) : Prop :=
  if job.status = .completed then job.progress = 100 else job.progress ≤ bound

theorem Within.mono {bound more : Nat} {job : JobRow} (within : Within bound job)
    (le : bound ≤ more) : Within more job := by
  unfold Within at within ⊢
  split at within
  · next done => rwa [if_pos done]
  · next open_ =>
      rw [if_neg open_]
      exact within.trans le

theorem Within.of_completed {bound : Nat} {job : JobRow} (done : job.status = .completed)
    (full : job.progress = 100) : Within bound job := by
  unfold Within
  rwa [if_pos done]

/-- From one row to the next the progress grows, from one bound to another. -/
def Advances (bound later : Nat) (s next : JobState) : Prop :=
  ∀ row', next.row = some row' → ∃ row, s.row = some row ∧
    (Within bound row → Within later row' ∧ row.progress ≤ row'.progress)

namespace Advances
variable {bound middle later : Nat} {s t next : JobState}

theorem trans (first : Advances bound middle s t) (second : Advances middle later t next) :
    Advances bound later s next := by
  intro last stored
  obtain ⟨between, storedBetween, after⟩ := second last stored
  obtain ⟨row, storedFirst, before⟩ := first between storedBetween
  refine ⟨row, storedFirst, fun within => ?_⟩
  obtain ⟨withinBetween, grown⟩ := before within
  obtain ⟨withinLast, grownLast⟩ := after withinBetween
  exact ⟨withinLast, grown.trans grownLast⟩

/-- A step that leaves the row, or removes it. -/
theorem of_row (le : bound ≤ later) (row : next.row = s.row ∨ next.row = none) :
    Advances bound later s next := by
  intro last stored
  rcases row with same | gone
  · exact ⟨last, same ▸ stored, fun within => ⟨within.mono le, le_rfl⟩⟩
  · cases gone.symm.trans stored

/-- A write of a job that is not completed. -/
theorem of_update {fields : JobRow → JobRow} {statuses : List Status} {matched missed : Worker}
    (le : bound ≤ later)
    (write : ∀ job, job.status ∈ statuses → Within bound job →
      Within later (fields job) ∧ job.progress ≤ (fields job).progress) :
    Advances bound later s (s.workerUpdate statuses fields matched missed) := by
  rcases JobState.workerUpdate_cases s statuses fields matched missed with
    ⟨job, stored, listed, same⟩ | ⟨_, same⟩
  · rw [same]
    intro last updated
    cases updated
    exact ⟨job, stored, write job listed⟩
  · rw [same]
    exact of_row le (.inl rfl)

end Advances

/-- A write keeps the progress when it ends in another status than completion. -/
theorem Within.keep {bound later : Nat} {job written : JobRow} (le : bound ≤ later)
    (within : Within bound job) (open_ : job.status ≠ .completed) (ends : written.status ≠ .completed)
    (same : written.progress = job.progress) :
    Within later written ∧ job.progress ≤ written.progress := by
  unfold Within at within ⊢
  rw [if_neg open_] at within
  rw [if_neg ends, same]
  exact ⟨within.trans le, le_rfl⟩

/-- A write sets a progress between two bounds. -/
theorem Within.set {bound later : Nat} {job written : JobRow} (within : Within bound job)
    (open_ : job.status ≠ .completed) (ends : written.status ≠ .completed)
    (grows : bound ≤ written.progress) (inside : written.progress ≤ later) :
    Within later written ∧ job.progress ≤ written.progress := by
  unfold Within at within ⊢
  rw [if_neg open_] at within
  rw [if_neg ends]
  exact ⟨inside, within.trans grows⟩

theorem mem_processing {status : Status} (listed : status ∈ [Status.processing]) :
    status ≠ .completed := by
  cases List.mem_singleton.mp listed
  decide

/-- A step of the worker or a request moves the progress between two bounds when the progress that it
writes lies between them. -/
theorem step_advances {s next : JobState} {event : JobEvent} {bound later : Nat} (le : bound ≤ later)
    (small : bound ≤ 100)
    (between : ∀ progress ∈ event.progress?, bound ≤ progress ∧ progress ≤ later)
    (stepped : s.step event = some next) : Advances bound later s next := by
  cases event with
  | start | poll _ | checkCanceled _ | countUntranslated _ | readCancelEvent | finish =>
      simp only [JobState.step] at stepped
      split at stepped
      · cases stepped
        exact .of_row le (.inl rfl)
      · cases stepped
  | readRow | fail _ =>
      simp only [JobState.step] at stepped
      split at stepped
      · cases stepped
        exact .of_row le (.inl rfl)
      · cases stepped
        exact .of_row le (.inl rfl)
      · cases stepped
  | claim =>
      obtain ⟨grows, inside⟩ := between 2 rfl
      simp only [JobState.step] at stepped
      split at stepped
      · rcases updateJobIfStatus_cases [.queued]
          (fun job => { job with status := .processing, progress := 2, stage := "Reading subtitle" })
          s.row with ⟨job, stored, listed, same⟩ | ⟨_, same⟩
        · rw [same] at stepped
          cases stepped
          intro last updated
          cases updated
          refine ⟨job, stored, fun within => within.set ?_ (by simp) grows inside⟩
          rw [List.mem_singleton.mp listed]
          decide
        · rw [same] at stepped
          cases stepped
          exact .of_row le (.inl rfl)
      · cases stepped
  | report progress stage | addOutput output progress =>
      obtain ⟨grows, inside⟩ := between progress rfl
      simp only [JobState.step] at stepped
      split at stepped
      · cases stepped
        exact .of_update le fun job listed within =>
          within.set (mem_processing listed) (mem_processing listed) grows inside
      · cases stepped
  | complete segments targets =>
      simp only [JobState.step] at stepped
      split at stepped
      · cases stepped
        refine .of_update le fun job listed within => ⟨.of_completed rfl rfl, ?_⟩
        unfold Within at within
        rw [if_neg (mem_processing listed)] at within
        exact within.trans small
      · cases stepped
  | recordFailure =>
      simp only [JobState.step] at stepped
      split at stepped
      · cases stepped
        refine .of_update le fun job listed within => within.keep le ?_ (by simp) rfl
        intro done
        rw [done] at listed
        exact absurd listed (by decide)
      · cases stepped
  | recordCancel =>
      simp only [JobState.step] at stepped
      split at stepped
      · cases stepped
        refine .of_update le fun job listed within => within.keep le ?_ (by simp) rfl
        intro done
        rw [done] at listed
        exact absurd listed (by decide)
      · cases stepped
  | cancel visible =>
      cases stepped
      intro last updated
      have row : (cancelJob visible s.row).1 = some last := updated
      cases stored : s.row with
      | none =>
          rw [stored] at row
          cases row
      | some job =>
          rw [stored] at row
          refine ⟨job, rfl, fun within => ?_⟩
          unfold cancelJob at row
          cases visible with
          | false =>
              cases row
              exact ⟨within.mono le, le_rfl⟩
          | true =>
              cases status : job.status with
              | queued | processing =>
                  simp [cancelRow, status] at row
                  cases row
                  exact within.keep le (by rw [status]; decide) (by simp) rfl
              | canceling | completed | failed | canceled =>
                  simp [cancelRow, status] at row
                  cases row
                  exact ⟨within.mono le, le_rfl⟩
  | signal sameProcess =>
      simp only [JobState.step] at stepped
      split at stepped
      · cases stepped
        exact .of_row le (.inl rfl)
      · cases stepped
  | delete visible removal sameProcess =>
      cases stepped
      exact .of_row le (deleteJob_spec visible removal s.row).2.2

section Run
variable {Key : Type} (plan : JobPlan Key)

/-- The progress that a job can show at a place of its worker. -/
def reach : Place Key → Nat
  | .opening | .reading | .parsed _ | .announcing _ => 2
  | .next _ rest => plan.percent (plan.index rest)
  | .entering _ language rest | .calling _ language rest =>
      plan.percent (plan.index (language :: rest))
  | .translating work language rest loop =>
      plan.percent (plan.index (language :: rest) +
        fraction (loop.cached + loop.done) work.segments.length)
  | .translated _ _ rest _ | .rebuilding _ _ rest _ | .recording _ _ rest =>
      plan.percent (plan.index rest)
  | .closing => 95

variable {plan} {source : List UInt8}

theorem Ahead.index {s : RunState Key} {work : Work} {language : Language} {rest : List Language}
    {extra : Nat} (ahead : Ahead plan source s work (language :: rest) extra) :
    plan.index rest = plan.index (language :: rest) + 1 := by
  obtain ⟨_, _, _, _, split, _, _⟩ := ahead
  exact plan.index_tail split

/-- The loop of a language does not reach the next one before its end. -/
theorem percent_within {language : Language} {rest : List Language} {done total : Nat}
    (next : plan.index rest = plan.index (language :: rest) + 1) (le : done ≤ total) :
    plan.percent (plan.index (language :: rest) + fraction done total) ≤
      plan.percent (plan.index rest) := by
  apply plan.percent_mono
  rw [next, Nat.cast_add, Nat.cast_one]
  have share := fraction_le_one le
  linarith

theorem consistent_within {work : Work} {language : Language} {todo : List Nat}
    {loop : LoopState Key}
    (consistent : loop.Consistent plan.digest (plan.request work language) todo) :
    loop.cached + loop.done ≤ work.segments.length := by
  have count := consistent.count
  have cached : loop.cached + todo.length = work.segments.length := consistent.cached
  omega

/-- At every place the progress is at most 95 percent. -/
theorem reach_le {s : RunState Key} (holds : PlaceHolds plan source s) : reach plan s.place ≤ 95 := by
  unfold PlaceHolds at holds
  cases at_ : s.place with
  | opening | reading | parsed work | announcing work | closing => simp [reach]
  | next work rest | entering work language rest | calling work language rest
  | translated work language rest out | rebuilding work language rest out
  | recording work language rest => exact plan.percent_le (plan.index_le _)
  | translating work language rest loop =>
      rw [at_] at holds
      obtain ⟨ahead, _, _, _, consistent⟩ := holds
      exact (percent_within ahead.index (consistent_within consistent)).trans
        (plan.percent_le (plan.index_le _))

/-- The events write no progress but the given one. -/
def WritesOnly (progress : Nat) (events : List JobEvent) : Prop :=
  ∀ event ∈ events, ∀ wrote ∈ event.progress?, wrote = progress

theorem writesOnly_nil (progress : Nat) : WritesOnly progress [] :=
  fun _ member => absurd member List.not_mem_nil

theorem writesOnly_silent {event : JobEvent} (silent : event.progress? = none) (progress : Nat) :
    WritesOnly progress [event] := by
  intro other member wrote there
  rw [List.mem_singleton.mp member, silent] at there
  cases there

theorem writesOnly_one {event : JobEvent} {progress : Nat} (writes : event.progress? = some progress) :
    WritesOnly progress [event] := by
  intro other member wrote there
  rw [List.mem_singleton.mp member, writes] at there
  exact (Option.some.inj there).symm

/-- Steps that write the last bound only advance to it. -/
theorem run_advances {job last : JobState} {events : List JobEvent} {bound later : Nat}
    (le : bound ≤ later) (small : later ≤ 95) (writes : WritesOnly later events)
    (ran : Machine.run JobState.step job events = some last) : Advances bound later job last := by
  induction events generalizing job bound with
  | nil =>
      cases ran
      exact .of_row le (.inl rfl)
  | cons event rest ih =>
      obtain ⟨next, stepped, ranLater⟩ := (Machine.run_cons _).mp ran
      have first : Advances bound later job next := by
        refine step_advances le ((le.trans small).trans (by decide)) (fun progress wrote => ?_) stepped
        rw [writes event List.mem_cons_self progress wrote]
        exact ⟨le, le_rfl⟩
      exact first.trans (ih le_rfl (fun other member => writes other (List.mem_cons_of_mem _ member))
        ranLater)

/-- The worker advances to a place with the progress that it writes on the way. -/
theorem advance_advances {s next : RunState Key} {events : List JobEvent} {place : Place Key}
    {bound : Nat} (le : bound ≤ reach plan place) (small : reach plan place ≤ 95)
    (writes : WritesOnly (reach plan place) events) (advanced : s.advance events place = some next) :
    Advances bound (reach plan next.place) s.job next.job := by
  obtain ⟨job, ran, rfl⟩ := advance_cases advanced
  exact run_advances le small writes ran

theorem silent_advances {job last : JobState} {event : JobEvent} {bound later : Nat}
    (le : bound ≤ later) (small : bound ≤ 95) (silent : event.progress? = none)
    (stepped : job.step event = some last) : Advances bound later job last := by
  refine step_advances le (small.trans (by decide)) (fun progress wrote => ?_) stepped
  rw [silent] at wrote
  cases wrote

variable (plan) in
/-- The work ends with an event that writes no progress. -/
theorem closing_advances {s next : RunState Key} {event : JobEvent} {bound : Nat} (small : bound ≤ 95)
    (silent : event.progress? = none) (advanced : s.advance [event] .closing = some next) :
    Advances bound (reach plan next.place) s.job next.job := by
  have top : bound ≤ reach plan (.closing : Place Key) := small
  exact advance_advances top le_rfl (writesOnly_silent silent _) advanced

theorem check_advances {s next : RunState Key} {seen : Option (Option Status)}
    {events : List JobEvent} {place : Place Key} {bound : Nat} (le : bound ≤ reach plan place)
    (small : reach plan place ≤ 95) (writes : WritesOnly (reach plan place) events)
    (checked : s.check seen events place = some next) :
    Advances bound (reach plan next.place) s.job next.job := by
  obtain ⟨job, stepped, ended⟩ := check_cases checked
  rcases ended with ⟨_, rfl⟩ | ⟨_, advanced⟩
  · exact silent_advances (le.trans small) (le.trans small) rfl stepped
  · have first : Advances bound bound s.job job :=
      silent_advances le_rfl (le.trans small) rfl stepped
    exact first.trans (advance_advances le small writes advanced)

theorem JobPlan.percent_start : plan.percent (plan.index plan.targets) = 5 := by
  have start : plan.index plan.targets = 0 := Nat.sub_self _
  have nothing : roundSeconds 0 = 0 := by decide +kernel
  rw [JobPlan.percent, start, Nat.cast_zero, zero_div, zero_mul, nothing]
  rfl

theorem reach_claimed (claimed : Bool) :
    2 ≤ reach plan (if claimed then Place.reading else .closing) := by
  cases claimed
  · exact (by decide : 2 ≤ 95)
  · exact le_rfl

variable [DecidableEq Key]

/-- A batch that finishes adds to the segments that are done. -/
theorem finish_done {digest : Str → Key} {request : Engine.Request} {loop later : LoopState Key}
    {batch : List Nat} {script : List Engine.Attempt}
    (stepped : loop.step digest request (.finish batch script) = some later) :
    loop.cached + loop.done ≤ later.cached + later.done := by
  simp only [LoopState.step] at stepped
  split at stepped
  · obtain ⟨called, _, ended⟩ := Option.bind_eq_some_iff.mp stepped
    split at ended
    · cases ended
      exact le_rfl
    · next lines _ =>
        cases ended
        have frame := Engine.foldl_write_frame digest request (batch.zip lines)
          { loop with calls := loop.calls ++ called.calls }
        simp only [LoopState.collect]
        rw [congrArg LoopState.cached frame]
        exact Nat.add_le_add_left (Nat.le_add_right _ _) _
  · cases stepped

/-- Every step of the worker and every request moves the progress of the job from what its place can
reach to what the next place can. -/
theorem RunInvariant.advances {s next : RunState Key} {event : RunEvent}
    (before : RunInvariant plan source s) (after : RunInvariant plan source next)
    (stepped : s.step plan event = some next) :
    Advances (reach plan s.place) (reach plan next.place) s.job next.job := by
  have small := reach_le before.place
  have smallNext := reach_le after.place
  have here := before.place
  unfold PlaceHolds at here
  cases event with
  | control event =>
      simp only [RunState.step] at stepped
      split at stepped
      · next control =>
          have silent : event.progress? = none := by
            cases event <;> first | rfl | cases control
          exact advance_advances le_rfl small (writesOnly_silent silent _) stepped
      · cases stepped
  | claim =>
      simp only [RunState.step] at stepped
      split at stepped
      · next at_ =>
          obtain ⟨job, claims, rfl⟩ := Option.map_eq_some_iff.mp stepped
          rw [at_] at small ⊢
          refine step_advances (reach_claimed _) (small.trans (by decide)) (fun progress wrote => ?_)
            claims
          cases wrote
          exact ⟨le_rfl, reach_claimed _⟩
      · cases stepped
  | load =>
      simp only [RunState.step] at stepped
      split at stepped
      · next at_ =>
          obtain ⟨work, _, rfl⟩ := Option.map_eq_some_iff.mp stepped
          refine .of_row ?_ (.inl rfl)
          rw [at_]
          exact le_rfl
      · cases stepped
  | checkCanceled seen =>
      simp only [RunState.step] at stepped
      split at stepped
      · next work at_ =>
          rw [at_] at small ⊢
          have same : reach plan (.parsed work) ≤ reach plan (.announcing work) := le_rfl
          exact check_advances same small (writesOnly_nil _) stepped
      · next work language rest at_ =>
          rw [at_] at small ⊢
          have same : reach plan (.next work (language :: rest)) ≤
              reach plan (.entering work language rest) := le_rfl
          exact check_advances same small (writesOnly_nil _) stepped
      · next work language rest loop at_ =>
          rw [at_] at small ⊢
          exact check_advances le_rfl small (writesOnly_nil _) stepped
      · next work language rest out at_ =>
          rw [at_] at small ⊢
          have same : reach plan (.translated work language rest out) ≤
              reach plan (.rebuilding work language rest out) := le_rfl
          exact check_advances same small (writesOnly_nil _) stepped
      · cases stepped
  | report =>
      simp only [RunState.step] at stepped
      split at stepped
      · next work at_ =>
          rw [at_]
          have start : reach plan (.next work plan.targets) = 5 := JobPlan.percent_start
          have le : reach plan (.announcing work) ≤ reach plan (.next work plan.targets) := by
            rw [start]
            exact (by decide : 2 ≤ 5)
          exact advance_advances le (start ▸ by decide) (writesOnly_one (by rw [start]; rfl)) stepped
      · next work language rest at_ =>
          rw [at_] at small ⊢
          have same : reach plan (.entering work language rest) ≤
              reach plan (.calling work language rest) := le_rfl
          exact advance_advances same small (writesOnly_one rfl) stepped
      · cases stepped
  | callTranslate seen =>
      simp only [RunState.step] at stepped
      split at stepped
      · next work language rest at_ =>
          rw [at_] at here ⊢
          split at stepped
          · cases stepped
          · next loop started =>
              obtain ⟨results, _, same⟩ := Fallible.bind_ok.mp started
              have fresh : loop.done = 0 := by
                cases same
                rfl
              have within : loop.cached ≤ work.segments.length := by
                cases same
                exact Nat.sub_le _ _
              have place : reach plan (.translating work language rest loop) =
                  plan.percent (plan.index (language :: rest) +
                    fraction loop.cached work.segments.length) := by
                rw [reach, fresh, Nat.add_zero]
              have le : reach plan (.calling work language rest) ≤
                  reach plan (.translating work language rest loop) := by
                rw [place]
                exact plan.percent_mono (le_add_of_nonneg_right (fraction_nonneg _ _))
              have top : reach plan (.translating work language rest loop) ≤ 95 := by
                rw [place]
                exact (percent_within here.index within).trans (plan.percent_le (plan.index_le _))
              exact check_advances le top (writesOnly_one (by rw [place]; rfl)) stepped
      · cases stepped
  | finishBatch batch script seen message =>
      simp only [RunState.step] at stepped
      split at stepped
      · next work language rest loop at_ =>
          rw [at_] at here small ⊢
          obtain ⟨later, finished, ended⟩ := Option.bind_eq_some_iff.mp stepped
          split at ended
          · obtain ⟨job, checked, ended⟩ := Option.bind_eq_some_iff.mp ended
            split at ended
            · cases ended
              exact silent_advances small small rfl checked
            · cases ended
          · have raised := closing_advances plan small rfl ended
            exact raised
          · have grown := finish_done finished
            obtain ⟨_, _, _, todo, consistent⟩ := here
            have le : reach plan (.translating work language rest loop) ≤
                reach plan (.translating work language rest later) :=
              plan.percent_mono (add_le_add_right (fraction_mono grown) _)
            obtain ⟨job, _, rfl⟩ := advance_cases ended
            refine advance_advances le smallNext (fun event member progress wrote => ?_) ended
            rcases List.mem_cons.mp member with rfl | last
            · cases wrote
            · exact writesOnly_one rfl event last progress wrote
      · cases stepped
  | endTranslate seen =>
      simp only [RunState.step] at stepped
      split at stepped
      · next work language rest loop at_ =>
          rw [at_] at here ⊢
          obtain ⟨ahead, _, _, todo, consistent⟩ := here
          split at stepped
          · have le : reach plan (.translating work language rest loop) ≤
                reach plan (.translated work language rest (loop.results.map (·.getD []))) :=
              percent_within ahead.index (consistent_within consistent)
            have ends := check_advances le (plan.percent_le (plan.index_le _)) (writesOnly_nil _) stepped
            exact ends
          · cases stepped
      · cases stepped
  | writeOutput =>
      simp only [RunState.step] at stepped
      split at stepped
      · next work language rest out at_ =>
          obtain ⟨bytes, _, rfl⟩ := Option.map_eq_some_iff.mp stepped
          refine .of_row ?_ (.inl rfl)
          rw [at_]
          exact le_rfl
      · cases stepped
  | failWrite content message =>
      simp only [RunState.step] at stepped
      split at stepped
      · have raised := closing_advances plan small rfl stepped
        exact raised
      · cases stepped
  | recordOutput =>
      simp only [RunState.step] at stepped
      split at stepped
      · next work language rest at_ =>
          rw [at_] at small ⊢
          have same : reach plan (.recording work language rest) ≤ reach plan (.next work rest) :=
            le_rfl
          exact advance_advances same small (writesOnly_one rfl) stepped
      · cases stepped
  | complete =>
      simp only [RunState.step] at stepped
      split at stepped
      · exact closing_advances plan small rfl stepped
      · cases stepped
  | raise message => exact closing_advances plan small rfl stepped
  | request event left =>
      simp only [RunState.step] at stepped
      split at stepped
      · next asked =>
          have silent : event.progress? = none := by
            cases event <;> first | rfl | cases asked
          have answered := advance_advances le_rfl small (writesOnly_silent silent _) stepped
          exact answered
      · cases stepped

/-- A run of the worker and of requests advances the job between its places. -/
theorem run_job_advances (injective : Function.Injective plan.digest) {s last : RunState Key}
    {events : List RunEvent} (before : RunInvariant plan source s)
    (ran : Machine.run (RunState.step plan) s events = some last) :
    RunInvariant plan source last ∧
      Advances (reach plan s.place) (reach plan last.place) s.job last.job := by
  induction events generalizing s with
  | nil =>
      cases ran
      exact ⟨before, .of_row le_rfl (.inl rfl)⟩
  | cons event rest ih =>
      obtain ⟨next, stepped, later⟩ := (Machine.run_cons _).mp ran
      have after := before.step injective stepped
      obtain ⟨holds, advances⟩ := ih after later
      exact ⟨holds, (before.advances after stepped).trans advances⟩

end Run

end SubtitleTranslator.Jobs
