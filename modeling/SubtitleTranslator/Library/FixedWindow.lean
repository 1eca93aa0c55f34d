import Mathlib.Tactic

namespace Library

/-- An admitted event has its time and the start of the window that counted it. -/
structure Admitted where
  time : Nat
  window : Nat
  deriving DecidableEq

/-- In the log of a fixed-window counter, windows do not overlap and hold up to a limit. -/
structure FixedWindow (length limit : Nat) (log : List Admitted) : Prop where
  within : ∀ event ∈ log, event.window ≤ event.time ∧ event.time < event.window + length
  apart : ∀ first ∈ log, ∀ second ∈ log, first.window = second.window ∨
    first.window + length ≤ second.window ∨ second.window + length ≤ first.window
  counted : ∀ window, log.countP (fun event => event.window = window) ≤ limit

namespace FixedWindow
variable {length limit : Nat} {log : List Admitted}

/-- The events of a closed interval. -/
def inside (start length : Nat) (event : Admitted) : Bool :=
  start ≤ event.time ∧ event.time ≤ start + length

/-- An interval of the length of a window meets two windows at most. -/
theorem two_windows (fixed : FixedWindow length limit log) (start : Nat) :
    (∀ event ∈ log, inside start length event = false) ∨
      ∃ first ∈ log, ∃ second ∈ log, inside start length first = true ∧
        inside start length second = true ∧ first.window ≤ second.window ∧
        ∀ event ∈ log, inside start length event = true →
          event.window = first.window ∨ event.window = second.window := by
  by_cases none_ : ∀ event ∈ log, inside start length event = false
  · exact .inl none_
  · right
    have some_ : (log.filter (inside start length)) ≠ [] := by
      intro empty
      apply none_
      intro event member
      by_contra inside_
      rw [List.filter_eq_nil_iff] at empty
      exact empty event member (by simpa using inside_)
    -- The first and the last window of the interval; a third one would be too far from both.
    obtain ⟨first, firstLeast⟩ := Option.isSome_iff_exists.mp
      (show ((log.filter (inside start length)).argmin Admitted.window).isSome = true by
        rw [Option.isSome_iff_ne_none, Ne, List.argmin_eq_none]
        exact some_)
    obtain ⟨second, secondMost⟩ := Option.isSome_iff_exists.mp
      (show ((log.filter (inside start length)).argmax Admitted.window).isSome = true by
        rw [Option.isSome_iff_ne_none, Ne, List.argmax_eq_none]
        exact some_)
    obtain ⟨firstMember, least, -⟩ := List.mem_argmin_iff.mp firstLeast
    obtain ⟨secondMember, most, -⟩ := List.mem_argmax_iff.mp secondMost
    obtain ⟨firstLogged, firstInside⟩ := List.mem_filter.mp firstMember
    obtain ⟨secondLogged, secondInside⟩ := List.mem_filter.mp secondMember
    refine ⟨first, firstLogged, second, secondLogged, firstInside, secondInside,
      least _ secondMember, fun event member inside_ => ?_⟩
    have low := least event (List.mem_filter.mpr ⟨member, inside_⟩)
    have high := most event (List.mem_filter.mpr ⟨member, inside_⟩)
    have firstTime := fixed.within first firstLogged
    have secondTime := fixed.within second secondLogged
    have firstApart := fixed.apart first firstLogged event member
    have secondApart := fixed.apart event member second secondLogged
    have firstIn := of_decide_eq_true firstInside
    have secondIn := of_decide_eq_true secondInside
    omega

/-- Events of one of two kinds are at most the events of both kinds together. -/
theorem countP_le_add (log : List Admitted) (p q r : Admitted → Bool)
    (covered : ∀ event ∈ log, p event = true → q event = true ∨ r event = true) :
    log.countP p ≤ log.countP q + log.countP r := by
  induction log with
  | nil => exact Nat.zero_le _
  | cons event rest ih =>
      have tail := ih fun other member => covered other (List.mem_cons_of_mem _ member)
      have head := covered event List.mem_cons_self
      rw [List.countP_cons, List.countP_cons, List.countP_cons]
      cases inP : p event with
      | false =>
          rw [if_neg Bool.false_ne_true]
          omega
      | true =>
          rcases head inP with inQ | inR
          · rw [if_pos rfl, inQ, if_pos rfl]
            omega
          · rw [if_pos rfl, inR, if_pos rfl]
            omega

/-- A member that only the weaker test passes makes the count smaller. -/
theorem countP_lt (p q : Admitted → Bool) (implied : ∀ event ∈ log, p event = true → q event = true)
    {event : Admitted} (member : event ∈ log) (fails : p event = false)
    (passes : q event = true) : log.countP p < log.countP q := by
  obtain ⟨before, after, rfl⟩ := List.append_of_mem member
  have first : before.countP p ≤ before.countP q :=
    List.countP_mono_left fun other inBefore => implied other (List.mem_append_left _ inBefore)
  have last : after.countP p ≤ after.countP q :=
    List.countP_mono_left fun other inAfter =>
      implied other (List.mem_append_right _ (List.mem_cons_of_mem _ inAfter))
  rw [List.countP_append, List.countP_append, List.countP_cons_of_neg (by simp [fails]),
    List.countP_cons_of_pos passes]
  omega

/-- An interval of the length of a window has at most two limits of events. -/
theorem interval (fixed : FixedWindow length limit log) (start : Nat) :
    log.countP (inside start length) ≤ 2 * limit := by
  rcases fixed.two_windows start with none_ | ⟨first, _, second, _, _, _, _, covered⟩
  · rw [List.countP_eq_zero.mpr fun event member => by simp [none_ event member]]
    exact Nat.zero_le _
  · have bound := countP_le_add log (inside start length)
      (fun event => event.window = first.window) (fun event => event.window = second.window)
      fun event member inside_ => by simpa using covered event member inside_
    have := fixed.counted first.window
    have := fixed.counted second.window
    omega

/-- A window starts with an event of its own. -/
def Opened (log : List Admitted) : Prop :=
  ∀ event ∈ log, ∃ opener ∈ log, opener.window = event.window ∧ opener.time = event.window

theorem countP_time_le_one (distinct : (log.map Admitted.time).Nodup) (time : Nat) :
    log.countP (fun event => event.time = time) ≤ 1 := by
  have once := List.nodup_iff_count_le_one.mp distinct time
  rw [List.count_eq_countP, List.countP_map] at once
  refine le_trans (List.countP_mono_left fun event _ same => ?_) once
  exact beq_iff_eq.mpr (of_decide_eq_true same)

/-- The event that opened the first of two windows is before the interval, or the interval has
only the opening event of the second window. -/
theorem interval_opened (fixed : FixedWindow length limit log) (opened : Opened log)
    (distinct : (log.map Admitted.time).Nodup) (two : 2 ≤ limit) (start : Nat) :
    log.countP (inside start length) ≤ 2 * limit - 1 := by
  rcases fixed.two_windows start with none_ |
    ⟨first, firstLogged, second, secondLogged, _, _, ordered, covered⟩
  · rw [List.countP_eq_zero.mpr fun event member => by simp [none_ event member]]
    exact Nat.zero_le _
  · have firstCount := fixed.counted first.window
    have secondCount := fixed.counted second.window
    by_cases same : first.window = second.window
    · have bound : log.countP (inside start length) ≤
          log.countP fun event => event.window = first.window :=
        List.countP_mono_left fun event member inside_ => by
          rcases covered event member inside_ with one | other
          · exact decide_eq_true one
          · exact decide_eq_true (other.trans same.symm)
      omega
    · have later : first.window + length ≤ second.window := by
        have := fixed.apart first firstLogged second secondLogged
        omega
      by_cases early : start ≤ first.window
      · have bound := countP_le_add log (inside start length)
          (fun event => event.window = first.window) (fun event => event.time = start + length)
          fun event member inside_ => by
            have times := of_decide_eq_true inside_
            have within := fixed.within event member
            rcases covered event member inside_ with one | other
            · exact .inl (decide_eq_true one)
            · exact .inr (decide_eq_true (by omega))
        have := countP_time_le_one distinct (start + length)
        omega
      · obtain ⟨opener, logged, window, time⟩ := opened first firstLogged
        have bound := countP_le_add log (inside start length)
          (fun event => event.window = first.window ∧ event.time ≠ first.window)
          (fun event => event.window = second.window)
          fun event member inside_ => by
            have times := of_decide_eq_true inside_
            rcases covered event member inside_ with one | other
            · exact .inl (decide_eq_true ⟨one, by omega⟩)
            · exact .inr (decide_eq_true other)
        have fewer : log.countP (fun event =>
              event.window = first.window ∧ event.time ≠ first.window) <
            log.countP fun event => event.window = first.window :=
          countP_lt _ _ (fun event _ both => decide_eq_true (of_decide_eq_true both).1) logged
            (decide_eq_false fun both => both.2 time) (decide_eq_true window)
        omega

end FixedWindow

/-- The columns of a fixed-window counter with a cooldown. -/
structure WindowCounter where
  next : Nat
  window : Nat
  count : Nat
  deriving DecidableEq

namespace WindowCounter

/-- An event is admitted after the cooldown when its window has room; the first event after
the end of a window opens the next one. -/
def allow (cooldown length limit : Nat) (counter : WindowCounter) (now : Nat) :
    Option WindowCounter :=
  if now < counter.next then none
  else if counter.window + length ≤ now then some ⟨now + cooldown, now, 1⟩
  else if limit ≤ counter.count then none
  else some ⟨now + cooldown, counter.window, counter.count + 1⟩

/-- The counter agrees with the log of its events, the newest first. -/
structure Counts (cooldown length limit : Nat) (counter : WindowCounter) (clock : Nat)
    (log : List Admitted) : Prop where
  spaced : log.Pairwise fun later earlier => earlier.time + cooldown ≤ later.time
  cooled : ∀ event ∈ log, event.time + cooldown ≤ counter.next
  started : counter.window ≤ clock
  latest : ∀ event ∈ log, event.window = counter.window ∨ event.window + length ≤ counter.window
  current : log.countP (fun event => event.window = counter.window) ≤ counter.count
  fixed : FixedWindow length limit log
  opened : ∀ window, window = counter.window ∨ (∃ event ∈ log, event.window = window) →
    window = 0 ∨ ∃ opener ∈ log, opener.window = window ∧ opener.time = window

variable {cooldown length limit : Nat} {counter next : WindowCounter} {clock now : Nat}
  {log : List Admitted}

theorem counts_empty (clock : Nat) : Counts cooldown length limit ⟨0, 0, 0⟩ clock [] := by
  refine ⟨.nil, nofun, Nat.zero_le clock, nofun, le_rfl, ⟨nofun, nofun, fun _ => Nat.zero_le _⟩, ?_⟩
  rintro window (first | ⟨event, member, _⟩)
  · exact .inl first
  · cases member

theorem Counts.mono (counts : Counts cooldown length limit counter clock log)
    (later : clock ≤ now) : Counts cooldown length limit counter now log :=
  { counts with started := counts.started.trans later }

/-- An event in the current window or in a new one keeps the windows of the log apart. -/
theorem Counts.fixed_cons (counts : Counts cooldown length limit counter clock log)
    {event : Admitted} (within : event.window ≤ event.time ∧ event.time < event.window + length)
    (apart : event.window = counter.window ∨ counter.window + length ≤ event.window)
    (room : log.countP (fun other => other.window = event.window) < limit) :
    FixedWindow length limit (event :: log) := by
  have fromLatest : ∀ other ∈ log, event.window = other.window ∨
      event.window + length ≤ other.window ∨ other.window + length ≤ event.window := by
    intro other member
    have := counts.latest other member
    omega
  refine ⟨?_, ?_, fun window => ?_⟩
  · intro other member
    rcases List.mem_cons.mp member with rfl | older
    · exact within
    · exact counts.fixed.within other older
  · intro first firstMember second secondMember
    rcases List.mem_cons.mp firstMember with rfl | firstOlder
    · rcases List.mem_cons.mp secondMember with rfl | secondOlder
      · exact .inl rfl
      · exact fromLatest second secondOlder
    · rcases List.mem_cons.mp secondMember with rfl | secondOlder
      · have := fromLatest first firstOlder
        omega
      · exact counts.fixed.apart first firstOlder second secondOlder
  · rw [List.countP_cons]
    split
    · rename_i own
      rw [← of_decide_eq_true own]
      exact room
    · exact counts.fixed.counted window

/-- An admitted event joins the log. -/
theorem Counts.allow (counts : Counts cooldown length limit counter clock log)
    (later : clock ≤ now) (positive : 0 < length) (some_ : 0 < limit)
    (admitted : counter.allow cooldown length limit now = some next) :
    Counts cooldown length limit next now (⟨now, next.window⟩ :: log) := by
  have started := counts.started
  unfold WindowCounter.allow at admitted
  split at admitted
  · cases admitted
  · rename_i cool
    have spaced : (⟨now, next.window⟩ :: log : List Admitted).Pairwise
        fun later earlier => earlier.time + cooldown ≤ later.time :=
      List.pairwise_cons.mpr ⟨fun event member => by
        have := counts.cooled event member
        change event.time + cooldown ≤ now
        omega, counts.spaced⟩
    split at admitted
    · rename_i fresh
      cases admitted
      have unused : log.countP (fun event => event.window = now) = 0 :=
        List.countP_eq_zero.mpr fun event member => by
          have := counts.latest event member
          simp only [decide_eq_true_eq]
          omega
      refine ⟨spaced, ?_, le_rfl, ?_, ?_, ?_, ?_⟩
      · intro event member
        rcases List.mem_cons.mp member with rfl | older
        · exact le_rfl
        · have := counts.cooled event older
          change event.time + cooldown ≤ now + cooldown
          omega
      · intro event member
        rcases List.mem_cons.mp member with rfl | older
        · exact .inl rfl
        · have := counts.latest event older
          right
          change event.window + length ≤ now
          omega
      · rw [List.countP_cons, if_pos (decide_eq_true rfl)]
        change log.countP (fun event => event.window = now) + 1 ≤ 1
        omega
      · refine counts.fixed_cons ⟨le_rfl, Nat.lt_add_of_pos_right positive⟩ (.inr fresh) ?_
        change log.countP (fun event => event.window = now) < limit
        omega
      · rintro window (rfl | ⟨event, member, rfl⟩)
        · exact .inr ⟨_, List.mem_cons_self, rfl, rfl⟩
        · rcases List.mem_cons.mp member with rfl | older
          · exact .inr ⟨_, List.mem_cons_self, rfl, rfl⟩
          · rcases counts.opened event.window (.inr ⟨event, older, rfl⟩) with zero | found
            · exact .inl zero
            · obtain ⟨opener, openerMember, same⟩ := found
              exact .inr ⟨opener, List.mem_cons_of_mem _ openerMember, same⟩
    · split at admitted
      · cases admitted
      · rename_i running room
        cases admitted
        have current := counts.current
        refine ⟨spaced, ?_, started.trans later, ?_, ?_, ?_, ?_⟩
        · intro event member
          rcases List.mem_cons.mp member with rfl | older
          · exact le_rfl
          · have := counts.cooled event older
            change event.time + cooldown ≤ now + cooldown
            omega
        · intro event member
          rcases List.mem_cons.mp member with rfl | older
          · exact .inl rfl
          · exact counts.latest event older
        · rw [List.countP_cons, if_pos (decide_eq_true rfl)]
          exact Nat.succ_le_succ current
        · refine counts.fixed_cons ⟨started.trans later, Nat.lt_of_not_le running⟩ (.inl rfl) ?_
          exact current.trans_lt (Nat.lt_of_not_le room)
        · rintro window known
          have before : window = counter.window ∨ ∃ event ∈ log, event.window = window := by
            rcases known with same | ⟨event, member, same⟩
            · exact .inl same
            · rcases List.mem_cons.mp member with rfl | older
              · exact .inl same.symm
              · exact .inr ⟨event, older, same⟩
          rcases counts.opened window before with zero | ⟨opener, member, same⟩
          · exact .inl zero
          · exact .inr ⟨opener, List.mem_cons_of_mem _ member, same⟩

end WindowCounter

end Library
