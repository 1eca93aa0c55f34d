import SubtitleTranslator.Construction.ReadCache
import SubtitleTranslator.Library.Versions

namespace SubtitleTranslator.Jobs
open Library Text Versions
open Auth (Role)

/-- The separator of the keys is no digit. -/
theorem colon_notMem_decimal (n : Nat) : 0x3a ∉ decimal n := by
  intro member
  have digit := range_of_mem_decimal member
  revert digit
  decide

theorem HexId.ext_text {a b : HexId} (same : a.text = b.text) : a = b := by
  cases a
  cases b
  cases same
  rfl

/-- The separator of the keys is in no random identifier. -/
theorem HexId.colon_notMem (id : HexId) : 0x3a ∉ id.text := by
  intro member
  have digit := List.all_eq_true.mp id.hex _ member
  revert digit
  decide

theorem colon_notMem_ownerText (owner : Option HexId) : 0x3a ∉ ownerText owner := by
  cases owner with
  | none => decide
  | some user => exact user.colon_notMem

theorem colon_notMem_roleText (role : Role) : 0x3a ∉ roleText role := by
  cases role <;> decide

/-- No account id is the word for all owners. -/
theorem ownerText_injective {a b : Option HexId} (same : ownerText a = ownerText b) : a = b := by
  have length (id : HexId) : (ownerText none).length ≠ id.text.length := by
    rw [id.length_eq]
    decide
  cases a with
  | none =>
      cases b with
      | none => rfl
      | some user => exact absurd (congrArg List.length same) (length user)
  | some user =>
      cases b with
      | none => exact absurd (congrArg List.length same).symm (length user)
      | some other => rw [HexId.ext_text same]

theorem roleText_injective {a b : Role} (same : roleText a = roleText b) : a = b := by
  cases a <;> cases b <;> first | rfl | (revert same; decide)

theorem ofString_colon (rest : Str) : ofString ":" ++ rest = 0x3a :: rest := rfl

/-- The first letter of a scope's text names the read. -/
theorem CacheScope.text_head (scope : CacheScope) :
    scope.text.head? = some (match scope with
      | .settings => 0x61
      | .list .. => 0x6c
      | .counts _ => 0x63
      | .detail .. => 0x64) := by
  cases scope <;> rfl

/-- The scopes of one name have different texts. -/
theorem CacheScope.text_injective {a b : CacheScope} (name : a.name = b.name)
    (same : a.text = b.text) : a = b := by
  have heads := congrArg List.head? same
  rw [text_head, text_head] at heads
  cases a with
  | settings => cases b <;> first | rfl | cases name
  | list owner limit offset =>
      cases b with
      | settings => cases name
      | counts | detail => simp at heads
      | list other otherLimit otherOffset =>
          simp only [CacheScope.text, List.append_assoc, List.append_cancel_left_eq,
            ofString_colon] at same
          obtain ⟨owners, rest⟩ :=
            separated_inj (colon_notMem_ownerText owner) (colon_notMem_ownerText other) same
          obtain ⟨limits, offsets⟩ :=
            separated_inj (colon_notMem_decimal limit) (colon_notMem_decimal otherLimit) rest
          rw [ownerText_injective owners, decimal_injective limits, decimal_injective offsets]
  | counts owner =>
      cases b with
      | settings => cases name
      | list | detail => simp at heads
      | counts other => rw [ownerText_injective (List.append_cancel_left same)]
  | detail role user jobId =>
      cases b with
      | settings => cases name
      | list | counts => simp at heads
      | detail otherRole otherUser otherId =>
          simp only [CacheScope.text, List.append_assoc, List.append_cancel_left_eq,
            ofString_colon] at same
          obtain ⟨roles, rest⟩ :=
            separated_inj (colon_notMem_roleText role) (colon_notMem_roleText otherRole) same
          obtain ⟨users, ids⟩ := separated_inj user.colon_notMem otherUser.colon_notMem rest
          rw [roleText_injective roles, HexId.ext_text users, ids]

/-- A key determines the read and the revision that it was made for. -/
theorem cacheKey_injective {deployment : Str} {a b : CacheScope} {revision other : HexId}
    (same : cacheKey deployment a revision = cacheKey deployment b other) :
    a = b ∧ revision = other := by
  simp only [cacheKey, List.append_assoc, List.append_cancel_left_eq, ofString_colon,
    List.cons_append, List.cons.injEq, true_and] at same
  have absent (name : CacheName) : 0x3a ∉ name.text := by
    cases name <;> decide
  obtain ⟨names, rest⟩ := separated_inj (absent _) (absent _) same
  have sameName : a.name = b.name := by
    revert names
    cases a.name <;> cases b.name <;> decide
  obtain ⟨revisions, scopes⟩ := separated_inj revision.colon_notMem other.colon_notMem rest
  exact ⟨CacheScope.text_injective sameName scopes, HexId.ext_text revisions⟩
/-- A write changed the rows behind a cached read. -/
def Wrote (before after : Tables) : CacheName → Prop
  | .jobs => after.jobs.rows ≠ before.jobs.rows
  | .settings => ∃ key ≠ setupMarker, after.settings.lookup key ≠ before.settings.lookup key

/-- A transaction replaced the revision of a name, if there was one, by a fresh one. -/
def Bumped (fresh : CacheName → HexId) (before after : Tables) (name : CacheName) : Prop :=
  after.revisions name = (before.revisions name).map (fun _ => fresh name) ∨
    after.revisions name = some (fresh name)

/-- A transaction left the revision and the rows of a name alone. -/
def Untouched (before after : Tables) (name : CacheName) : Prop :=
  after.revisions name = before.revisions name ∧ ¬Wrote before after name

theorem not_wrote_self (tables : Tables) (name : CacheName) : ¬Wrote tables tables name := by
  cases name <;> simp [Wrote]

/-- A transaction that writes accounts, jobs and the setup marker bumps the jobs. -/
theorem bumped_jobs (fresh : CacheName → HexId) (before : Tables) (users : List Account)
    (table : JobTable) (settings : List (Str × Str))
    (kept : ∀ key ≠ setupMarker, settings.lookup key = before.settings.lookup key)
    (name : CacheName) :
    let after := bumpCacheRevision .jobs (fresh .jobs)
      { before with users := users, jobs := table, settings := settings }
    Bumped fresh before after name ∨ Untouched before after name := by
  cases name with
  | jobs =>
      refine .inl (.inl ?_)
      simp [bumpCacheRevision]
  | settings =>
      refine .inr ⟨by simp [bumpCacheRevision], ?_⟩
      rintro ⟨key, other, changed⟩
      exact changed (kept key other)

/-- A transaction that writes settings bumps them. -/
theorem bumped_settings (fresh : CacheName → HexId) (before : Tables)
    (settings : List (Str × Str)) (name : CacheName) :
    let after := bumpCacheRevision .settings (fresh .settings) { before with settings := settings }
    Bumped fresh before after name ∨ Untouched before after name := by
  cases name with
  | settings =>
      refine .inl (.inl ?_)
      simp [bumpCacheRevision]
  | jobs =>
      refine .inr ⟨by simp [bumpCacheRevision], ?_⟩
      simp [Wrote, bumpCacheRevision]

/-- Every transaction bumps the revision of what it writes. -/
theorem Write.commit_spec {fresh : CacheName → HexId} {before after : Tables} {write : Write}
    (committed : write.commit fresh before = some after) (name : CacheName) :
    Bumped fresh before after name ∨ Untouched before after name := by
  have unchanged : Bumped fresh before before name ∨ Untouched before before name :=
    .inr ⟨rfl, not_wrote_self before name⟩
  cases write with
  | createJobs jobs =>
      obtain ⟨table, _, rfl⟩ := Option.map_eq_some_iff.mp committed
      exact bumped_jobs fresh before _ _ _ (fun _ _ => rfl) name
  | writeJob jobId statuses fields timestamp =>
      obtain rfl := Option.some.inj committed
      unfold Jobs.writeJob
      dsimp only
      split
      · exact bumped_jobs fresh before _ _ _ (fun _ _ => rfl) name
      · exact unchanged
  | cancelJob jobId role user timestamp =>
      obtain rfl := Option.some.inj committed
      unfold cancelWrite
      dsimp only
      split
      · exact bumped_jobs fresh before _ _ _ (fun _ _ => rfl) name
      · exact unchanged
  | deleteJob jobId =>
      obtain rfl := Option.some.inj committed
      exact bumped_jobs fresh before _ _ _ (fun _ _ => rfl) name
  | deleteUser user =>
      obtain rfl := Option.some.inj committed
      exact bumped_jobs fresh before _ _ _ (fun _ _ => rfl) name
  | setupFirstAdmin admin =>
      rw [Write.commit] at committed
      split at committed
      · cases committed
      · obtain rfl := Option.some.inj committed
        refine bumped_jobs fresh before _ _ _ (fun key other => ?_) name
        rw [List.lookup_append]
        simp [List.lookup_cons, beq_false_of_ne other]
  | saveSettings values =>
      obtain rfl := Option.some.inj committed
      exact bumped_settings fresh before _ name
  | deleteKey key =>
      obtain rfl := Option.some.inj committed
      exact bumped_settings fresh before _ name
  | encryptExistingApiKeys secretKeys encrypt =>
      obtain rfl := Option.some.inj committed
      exact bumped_settings fresh before _ name
  | initializeDatabase defaults recoverJobs timestamp =>
      obtain rfl := Option.some.inj committed
      exact .inl (.inr rfl)
  | writeAccounts users =>
      obtain rfl := Option.some.inj committed
      refine .inr ⟨rfl, ?_⟩
      cases name <;> simp [Wrote]

/-- These are the revisions of a name in the committed versions. -/
def CacheState.mark (s : CacheState) (name : CacheName) (version : Nat) : Option HexId :=
  (s.history version).revisions name

/-- The later state keeps the committed versions of the earlier one. -/
structure Extends (s later : CacheState) : Prop where
  latest : s.latest ≤ later.latest
  history : ∀ version ≤ s.latest, later.history version = s.history version

theorem Extends.mark {s later : CacheState} (extended : Extends s later) (name : CacheName)
    {version : Nat} (bound : version ≤ s.latest) :
    later.mark name version = s.mark name version := by
  rw [CacheState.mark, extended.history version bound, CacheState.mark]

theorem CacheState.install_new (s : CacheState) (tables : Tables) :
    (s.install tables).history (s.latest + 1) = tables := Function.update_self _ _ _

theorem CacheState.install_old (s : CacheState) (tables : Tables) {version : Nat}
    (bound : version ≤ s.latest) : (s.install tables).history version = s.history version :=
  Function.update_of_ne (by omega) _ _

theorem extends_install (s : CacheState) (tables : Tables) : Extends s (s.install tables) where
  latest := Nat.le_succ _
  history _ bound := s.install_old tables bound

/-- The rows were loaded from a version not before one that carries the revision. -/
def Loaded (s : CacheState) (scope : CacheScope) (revision : HexId) (rows : Rows) : Prop :=
  ∃ first taken, first ≤ taken ∧ taken ≤ s.latest ∧ s.mark scope.name first = some revision ∧
    rows = scope.rows (s.history taken)

theorem Loaded.mono {s later : CacheState} {scope : CacheScope} {revision : HexId} {rows : Rows}
    (extended : Extends s later) (loaded : Loaded s scope revision rows) :
    Loaded later scope revision rows := by
  obtain ⟨first, taken, before, bound, marked, same⟩ := loaded
  refine ⟨first, taken, before, bound.trans extended.latest, ?_, ?_⟩
  · rw [extended.mark scope.name (before.trans bound), marked]
  · rw [extended.history taken bound, same]

/-- A payload holds rows of the read and the revision that its key names. -/
def Dated (deployment : Str) (s : CacheState) (stored : Payload) : Prop :=
  ∃ scope revision, stored.key = cacheKey deployment scope revision ∧
    Loaded s scope revision stored.value

/-- The reader saw the revision in a version that is not before its start. -/
def Reader.Observed (s : CacheState) (reader : Reader) (revision : HexId) (observed : Nat) : Prop :=
  reader.since ≤ observed ∧ observed ≤ s.latest ∧
    s.mark reader.scope.name observed = some revision

/-- This is what a reader knows at its stage. -/
def Reader.Fits (s : CacheState) (reader : Reader) : Prop :=
  match reader.stage with
  | .started => reader.since ≤ s.latest
  | .asking revision observed => reader.Observed s revision observed
  | .loading revision observed _ =>
      reader.since ≤ observed ∧ observed ≤ s.latest ∧
        ∀ seen ∈ revision, reader.Observed s seen observed
  | .returned none rows =>
      ∃ taken, reader.since ≤ taken ∧ taken ≤ s.latest ∧ rows = reader.scope.rows (s.history taken)
  | .returned (some revision) rows =>
      Loaded s reader.scope revision rows ∧ ∃ observed, reader.Observed s revision observed

theorem Reader.Observed.mono {s later : CacheState} {reader : Reader} {revision : HexId}
    {observed : Nat} (extended : Extends s later) (seen : reader.Observed s revision observed) :
    reader.Observed later revision observed := by
  obtain ⟨after, bound, marked⟩ := seen
  refine ⟨after, bound.trans extended.latest, ?_⟩
  rw [extended.mark reader.scope.name bound, marked]

/-- A commit leaves what the readers know. -/
theorem Reader.Fits.mono {s later : CacheState} {reader : Reader} (extended : Extends s later)
    (fits : reader.Fits s) : reader.Fits later := by
  unfold Reader.Fits at *
  cases stage : reader.stage with
  | started =>
      simp only [stage] at fits ⊢
      exact fits.trans extended.latest
  | asking revision observed =>
      simp only [stage] at fits ⊢
      exact fits.mono extended
  | loading revision observed store =>
      simp only [stage] at fits ⊢
      exact ⟨fits.1, fits.2.1.trans extended.latest,
        fun seen member => (fits.2.2 seen member).mono extended⟩
  | returned revision rows =>
      cases revision with
      | none =>
          simp only [stage] at fits ⊢
          obtain ⟨taken, after, bound, same⟩ := fits
          refine ⟨taken, after, bound.trans extended.latest, ?_⟩
          rw [extended.history taken bound, same]
      | some revision =>
          simp only [stage] at fits ⊢
          obtain ⟨loaded, observed, seen⟩ := fits
          exact ⟨loaded.mono extended, observed, seen.mono extended⟩

/-- The invariant of the readers and the writers. -/
structure CacheInvariant (deployment : Str) (s : CacheState) : Prop where
  consecutive : ∀ name, Consecutive (s.mark name) s.latest
  moved : ∀ version, 0 < version → version ≤ s.latest → ∀ name,
    Wrote (s.history (version - 1)) (s.history version) name → Moved (s.mark name) version
  produced : ∀ stored ∈ s.produced, Dated deployment s stored
  readers : ∀ reader ∈ s.readers, reader.Fits s

variable {deployment : Str}

theorem CacheInvariant.initial (tables : Tables) :
    CacheInvariant deployment (CacheState.initial tables) where
  consecutive name := consecutive_zero _
  moved version positive bound := by
    have none : version ≤ 0 := bound
    omega
  produced := nofun
  readers := nofun

/-- A reader moves to a stage that fits. -/
theorem CacheInvariant.moveReader {s : CacheState} {reader : Reader} {stage : ReaderStage}
    (holds : CacheInvariant deployment s) (index : Nat)
    (fits : Reader.Fits s { reader with stage := stage }) :
    CacheInvariant deployment (s.moveReader index reader stage) where
  consecutive := holds.consecutive
  moved := holds.moved
  produced := holds.produced
  readers other member := by
    rcases List.mem_or_eq_of_mem_set member with old | rfl
    · exact holds.readers other old
    · exact fits

/-- A reader stores what it loaded. -/
theorem CacheInvariant.store {s : CacheState} {stored : List Payload}
    (holds : CacheInvariant deployment s) (dated : ∀ p ∈ stored, Dated deployment s p) :
    CacheInvariant deployment { s with produced := stored ++ s.produced } where
  consecutive := holds.consecutive
  moved := holds.moved
  produced p member := (List.mem_append.mp member).elim (dated p) (holds.produced p)
  readers := holds.readers

theorem fresh_revision {history : Nat → Tables} {latest : Nat} {fresh : CacheName → HexId}
    (accepted : freshRevisions history latest fresh = true) {version : Nat}
    (bound : version ≤ latest) (name : CacheName) :
    (history version).revisions name ≠ some (fresh name) := by
  have both := List.all_eq_true.mp accepted version (List.mem_range.mpr (by omega))
  rw [Bool.and_eq_true, decide_eq_true_eq, decide_eq_true_eq] at both
  cases name
  · exact both.1
  · exact both.2

/-- A bumped revision is fresh, or there is none. -/
theorem Bumped.cases {fresh : CacheName → HexId} {before after : Tables} {name : CacheName}
    (bumped : Bumped fresh before after name) :
    after.revisions name = some (fresh name) ∨
      (after.revisions name = none ∧ before.revisions name = none) := by
  rcases bumped with mapped | inserted
  · cases revision : before.revisions name with
    | none =>
        rw [revision] at mapped
        exact .inr ⟨mapped, rfl⟩
    | some old =>
        rw [revision] at mapped
        exact .inl mapped
  · exact .inl inserted

/-- The version that a write installs moves the marks of what it wrote and keeps them apart. -/
theorem Write.marks {s : CacheState} {write : Write} {fresh : CacheName → HexId} {tables : Tables}
    (accepted : freshRevisions s.history s.latest fresh = true)
    (committed : write.commit fresh (s.history s.latest) = some tables) (name : CacheName) :
    (tables.revisions name = s.mark name s.latest ∨
      ∀ version ≤ s.latest, ∀ revision, tables.revisions name = some revision →
        s.mark name version ≠ some revision) ∧
    (Wrote (s.history s.latest) tables name →
      tables.revisions name = none ∨ tables.revisions name ≠ s.mark name s.latest) := by
  rcases write.commit_spec committed name with bumped | untouched
  · rcases bumped.cases with installed | missing
    · rw [installed]
      constructor
      · right
        rintro version bound _ ⟨⟩
        exact fresh_revision accepted bound name
      · intro _
        exact .inr (fresh_revision accepted le_rfl name).symm
    · exact ⟨.inl (missing.1.trans missing.2.symm), fun _ => .inl missing.1⟩
  · exact ⟨.inl untouched.1, fun wrote => absurd wrote untouched.2⟩

/-- A commit with fresh revisions keeps the invariant. -/
theorem CacheInvariant.commit {s : CacheState} {write : Write} {fresh : CacheName → HexId}
    {tables : Tables} (holds : CacheInvariant deployment s)
    (accepted : freshRevisions s.history s.latest fresh = true)
    (committed : write.commit fresh (s.history s.latest) = some tables) :
    CacheInvariant deployment (s.install tables) := by
  have extended := extends_install s tables
  have newMark (name : CacheName) :
      (s.install tables).mark name (s.latest + 1) = tables.revisions name := by
    rw [CacheState.mark, s.install_new]
  constructor
  · intro name
    apply (holds.consecutive name).extend fun version bound => extended.mark name bound
    rw [newMark]
    exact (write.marks accepted committed name).1
  · intro version positive bound name wrote
    have within : version ≤ s.latest + 1 := bound
    by_cases last : version = s.latest + 1
    · subst last
      rw [Nat.add_sub_cancel, s.install_old tables le_rfl, s.install_new] at wrote
      rw [Moved, newMark, Nat.add_sub_cancel, extended.mark name le_rfl]
      exact (write.marks accepted committed name).2 wrote
    · rw [s.install_old tables (by omega), s.install_old tables (by omega)] at wrote
      rw [Moved, extended.mark name (by omega), extended.mark name (by omega)]
      exact holds.moved version positive (by omega) name wrote
  · intro stored member
    obtain ⟨scope, revision, key, loaded⟩ := holds.produced stored member
    exact ⟨scope, revision, key, loaded.mono extended⟩
  · intro reader member
    exact (holds.readers reader member).mono extended

/-- A value that `remember` takes from Redis was stored under the reader's key. -/
theorem remember_value {available : Bool} {key : Str} {answer : CacheAnswer} {rows : Rows}
    (taken : remember available key answer = .value rows) : answer = .payload ⟨key, rows⟩ := by
  unfold remember at taken
  split at taken
  · cases taken
  · cases answer with
    | outage | absent | unreadable => cases taken
    | payload stored =>
        simp only at taken
        split at taken
        · next same =>
            cases taken
            rw [← same]
        · cases taken

/-- A payload under the key of a read was loaded for it. -/
theorem Dated.loaded {s : CacheState} {scope : CacheScope} {revision : HexId} {rows : Rows}
    (dated : Dated deployment s ⟨cacheKey deployment scope revision, rows⟩) :
    Loaded s scope revision rows := by
  obtain ⟨other, otherRevision, key, loaded⟩ := dated
  obtain ⟨rfl, rfl⟩ := cacheKey_injective key
  exact loaded

theorem CacheInvariant.step {s next : CacheState} {event : CacheEvent}
    (holds : CacheInvariant deployment s)
    (stepped : CacheState.step deployment s event = some next) :
    CacheInvariant deployment next := by
  cases event with
  | start scope =>
      obtain rfl := Option.some.inj stepped
      refine { holds with readers := fun reader member => ?_ }
      rcases List.mem_append.mp member with old | new
      · exact holds.readers reader old
      · obtain rfl := List.mem_singleton.mp new
        exact (le_rfl : s.latest ≤ s.latest)
  | readRevision index available =>
      simp only [CacheState.step] at stepped
      split at stepped
      · next reader found =>
          have fits := holds.readers reader (List.mem_of_getElem? found)
          split at stepped
          · next stage =>
              simp only [Reader.Fits, stage] at fits
              split at stepped
              · obtain rfl := Option.some.inj stepped
                exact holds.moveReader index ⟨fits, le_rfl, nofun⟩
              · split at stepped
                · obtain rfl := Option.some.inj stepped
                  exact holds.moveReader index ⟨fits, le_rfl, nofun⟩
                · next revision seen =>
                    obtain rfl := Option.some.inj stepped
                    exact holds.moveReader index ⟨fits, le_rfl, seen⟩
          · cases stepped
      · cases stepped
  | ask index available answer =>
      simp only [CacheState.step] at stepped
      split at stepped
      · next reader found =>
          have fits := holds.readers reader (List.mem_of_getElem? found)
          split at stepped
          · next revision observed stage =>
              simp only [Reader.Fits, stage] at fits
              split at stepped
              · next authentic =>
                  split at stepped
                  · next rows taken =>
                      obtain rfl := Option.some.inj stepped
                      rw [remember_value taken] at authentic
                      have dated := holds.produced _ (of_decide_eq_true authentic)
                      exact holds.moveReader index ⟨dated.loaded, observed, fits⟩
                  · next store _ =>
                      obtain rfl := Option.some.inj stepped
                      refine holds.moveReader index ⟨fits.1, fits.2.1, ?_⟩
                      rintro _ ⟨⟩
                      exact fits
              · cases stepped
          · cases stepped
      · cases stepped
  | load index version =>
      simp only [CacheState.step] at stepped
      split at stepped
      · next reader found =>
          have fits := holds.readers reader (List.mem_of_getElem? found)
          split at stepped
          · next revision observed store stage =>
              simp only [Reader.Fits, stage] at fits
              split at stepped
              · next bounds =>
                  obtain rfl := Option.some.inj stepped
                  obtain ⟨after, bound, seen⟩ := fits
                  cases revision with
                  | none =>
                      exact holds.moveReader index
                        ⟨version, after.trans bounds.1, bounds.2, rfl⟩
                  | some revision =>
                      have observes := seen revision rfl
                      have loaded : Loaded s reader.scope revision
                          (reader.scope.rows (s.history version)) :=
                        ⟨observed, version, bounds.1, bounds.2, observes.2.2, rfl⟩
                      have dated : ∀ p ∈ if store then
                          [(⟨cacheKey deployment reader.scope revision,
                            reader.scope.rows (s.history version)⟩ : Payload)] else [],
                          Dated deployment s p := by
                        intro p member
                        split at member
                        · obtain rfl := List.mem_singleton.mp member
                          exact ⟨reader.scope, revision, rfl, loaded⟩
                        · cases member
                      exact (holds.store dated).moveReader index ⟨loaded, observed, observes⟩
              · cases stepped
          · cases stepped
      · cases stepped
  | commit write fresh =>
      simp only [CacheState.step] at stepped
      split at stepped
      · next accepted =>
          obtain ⟨tables, committed, rfl⟩ := Option.map_eq_some_iff.mp stepped
          exact holds.commit accepted committed
      · cases stepped

/-- The version is the commit that installed the revision of a name. -/
def Installs (history : Nat → Tables) (name : CacheName) (revision : HexId) (version : Nat) : Prop :=
  (history version).revisions name = some revision ∧
    (0 < version → (history (version - 1)).revisions name ≠ some revision)

/-- Every cached read returns the rows of its own name and scope from a version that is at least
as new as the commit that installed the revision it observed and as every write of these rows that
had committed when the read began. -/
theorem cache_never_stale (deployment : Str) (tables : Tables) {events : List CacheEvent}
    {last : CacheState}
    (ran : Machine.run (CacheState.step deployment) (.initial tables) events = some last)
    {reader : Reader} (member : reader ∈ last.readers) {revision : Option HexId} {rows : Rows}
    (returned : reader.stage = .returned revision rows) :
    ∃ taken ≤ last.latest, rows = reader.scope.rows (last.history taken) ∧
      (∀ observed ∈ revision, ∀ installed ≤ last.latest,
        Installs last.history reader.scope.name observed installed → installed ≤ taken) ∧
      (∀ written ≤ reader.since, 0 < written →
        Wrote (last.history (written - 1)) (last.history written) reader.scope.name →
        written ≤ taken) := by
  have holds : CacheInvariant deployment last :=
    Machine.run_invariant (CacheInvariant deployment)
      (fun _ _ _ holds stepped => holds.step stepped) (.initial tables) ran
  have fits := holds.readers reader member
  have consecutive := holds.consecutive reader.scope.name
  cases revision with
  | none =>
      simp only [Reader.Fits, returned] at fits
      obtain ⟨taken, after, bound, same⟩ := fits
      exact ⟨taken, bound, same, nofun, fun written before _ _ => before.trans after⟩
  | some revision =>
      simp only [Reader.Fits, returned] at fits
      obtain ⟨⟨first, taken, before, bound, marked, same⟩, observed, after, within, seen⟩ := fits
      refine ⟨taken, bound, same, ?_, ?_⟩
      · rintro _ ⟨⟩ installed latest installs
        by_cases positive : 0 < installed
        · apply consecutive.le_of_moved before le_rfl latest marked installs.1
          right
          rw [CacheState.mark, installs.1]
          exact (installs.2 positive).symm
        · omega
      · intro written early positive wrote
        exact consecutive.le_of_moved before (early.trans after) within marked seen
          (holds.moved written positive (by omega) reader.scope.name wrote)

def oldRevision : HexId := ⟨List.replicate 32 0x31, by decide, by decide⟩

def newRevision : HexId := ⟨List.replicate 32 0x32, by decide, by decide⟩

def registrationEnabled : Str := ofString "registration_enabled"

/-- The panel allows registration, and both revisions are the old one. -/
def openPanel : Tables where
  users := []
  jobs := ⟨[], List.nodup_nil⟩
  settings := [(registrationEnabled, ofString "1")]
  revisions := fun _ => some oldRevision

/-- A fill that is older than a committed change is replayed to a reader that begins after it. -/
def lateFill : List CacheEvent :=
  [.start .settings, .readRevision 0 true, .ask 0 true .absent,
    .commit (.saveSettings [(registrationEnabled, ofString "0")]) (fun _ => newRevision),
    .load 0 0, .start .settings, .readRevision 1 true,
    .ask 1 true (.payload ⟨cacheKey [] .settings oldRevision,
      .settings [(registrationEnabled, ofString "1")]⟩), .load 1 1]

theorem lateFill_run :
    (Machine.run (CacheState.step []) (.initial openPanel) lateFill).map
      (fun s => (s.readers, [(s.history 0).settings, (s.history 1).settings])) =
    some (
      [⟨.settings, 0, .returned (some oldRevision) (.settings [(registrationEnabled, ofString "1")])⟩,
        ⟨.settings, 1, .returned (some newRevision)
          (.settings [(registrationEnabled, ofString "0")])⟩],
      [[(registrationEnabled, ofString "1")], [(registrationEnabled, ofString "0")]]) := by
  decide +kernel

theorem cache_never_stale_example :
    ∃ s, Machine.run (CacheState.step []) (.initial openPanel) lateFill = some s ∧
      ∃ taken ≤ s.latest, 1 ≤ taken ∧
        Rows.settings [(registrationEnabled, ofString "0")] =
          CacheScope.settings.rows (s.history taken) := by
  obtain ⟨s, ran, seen⟩ := Option.map_eq_some_iff.mp lateFill_run
  simp only [Prod.mk.injEq, List.cons.injEq, and_true] at seen
  obtain ⟨readers, before, after⟩ := seen
  have member : (⟨.settings, 1, .returned (some newRevision)
      (.settings [(registrationEnabled, ofString "0")])⟩ : Reader) ∈ s.readers := by
    rw [readers]
    exact List.mem_cons_of_mem _ List.mem_cons_self
  obtain ⟨taken, bound, same, _, newer⟩ := cache_never_stale [] openPanel ran member rfl
  have wrote : Wrote (s.history 0) (s.history 1) .settings := by
    refine ⟨registrationEnabled, by decide, ?_⟩
    rw [before, after]
    decide
  exact ⟨s, ran, taken, bound, newer 1 le_rfl Nat.one_pos wrote, same⟩

end SubtitleTranslator.Jobs
