import SubtitleTranslator.Proof.FactorEffects
import SubtitleTranslator.Proof.SecondFactor
import SubtitleTranslator.Library.Log

namespace SubtitleTranslator.Auth
open Library Library.Text

section SingleUse
variable {Hash Password Secret Digest : Type}

/-- These are the recovery codes that a user was ever given. -/
def issuedDigests (userId : Nat) : List (FactorEntry Secret Digest) → List Digest
  | [] => []
  | .issued user digests :: older =>
      if user = userId then digests ++ issuedDigests userId older else issuedDigests userId older
  | _ :: older => issuedDigests userId older

/-- These are the recovery codes of a user that were accepted, or given before a withdrawal. -/
def retired (userId : Nat) : List (FactorEntry Secret Digest) → List Digest
  | [] => []
  | .accepted user _ (.recovery digest) :: older =>
      if user = userId then digest :: retired userId older else retired userId older
  | .withdrawn user :: older =>
      if user = userId then issuedDigests userId older ++ retired userId older
      else retired userId older
  | _ :: older => retired userId older

/-- Every issued code is among the issued ones. -/
theorem mem_issuedDigests {userId : Nat} {digests : List Digest} {digest : Digest}
    (member : digest ∈ digests) {log : List (FactorEntry Secret Digest)}
    (issued : .issued userId digests ∈ log) : digest ∈ issuedDigests userId log := by
  induction log with
  | nil => cases issued
  | cons entry older ih =>
      rcases List.mem_cons.mp issued with rfl | later
      · rw [issuedDigests, if_pos rfl]
        exact List.mem_append_left _ member
      · have rest := ih later
        cases entry with
        | issued user others =>
            rw [issuedDigests]
            split
            · exact List.mem_append_right _ rest
            · exact rest
        | failed | accepted | withdrawn | unlocked => exact rest

/-- A code that is retired stays retired. -/
theorem retired_mono {userId : Nat} (entry : FactorEntry Secret Digest)
    {older : List (FactorEntry Secret Digest)} {digest : Digest}
    (member : digest ∈ retired userId older) : digest ∈ retired userId (entry :: older) := by
  cases entry with
  | accepted user scope proof =>
      cases proof with
      | recovery other =>
          rw [retired]
          split
          · exact List.mem_cons_of_mem _ member
          · exact member
      | totp | emailed => exact member
  | withdrawn user =>
      rw [retired]
      split
      · exact List.mem_append_right _ member
      · exact member
  | failed | issued | unlocked => exact member

theorem retired_append {userId : Nat} (newer : List (FactorEntry Secret Digest))
    {older : List (FactorEntry Secret Digest)} {digest : Digest}
    (member : digest ∈ retired userId older) : digest ∈ retired userId (newer ++ older) := by
  induction newer with
  | nil => exact member
  | cons entry rest ih => exact retired_mono entry ih

/-- An accepted code is retired. -/
theorem mem_retired_of_accepted {userId : Nat} {scope : Scope} {digest : Digest}
    {log : List (FactorEntry Secret Digest)}
    (accepted : .accepted userId scope (.recovery digest) ∈ log) : digest ∈ retired userId log := by
  induction log with
  | nil => cases accepted
  | cons entry older ih =>
      rcases List.mem_cons.mp accepted with rfl | later
      · rw [retired, if_pos rfl]
        exact List.mem_cons_self
      · exact retired_mono entry (ih later)

/-- The log justifies an entry: an accepted proof was not used before. -/
def UnusedBefore : FactorEntry Secret Digest → List (FactorEntry Secret Digest) → Prop
  | .accepted userId _ (.recovery digest), older => digest ∉ retired userId older
  | .accepted userId _ (.totp secret step), older =>
      ∀ scope earlier, .accepted userId scope (.totp secret earlier) ∈ older → earlier < step
  | .accepted _ _ (.emailed challengeId), older =>
      ∀ userId scope, .accepted userId scope (.emailed challengeId) ∉ older
  | _, _ => True

/-- The entries that say nothing about a proof. -/
def FactorEntry.quiet : FactorEntry Secret Digest → Bool
  | .failed _ _ _ | .unlocked _ => true
  | .accepted _ _ _ | .issued _ _ | .withdrawn _ => false

theorem retired_quiet {entry : FactorEntry Secret Digest} (quiet : entry.quiet = true)
    (userId : Nat) (older : List (FactorEntry Secret Digest)) :
    retired userId (entry :: older) = retired userId older := by
  cases entry with
  | failed | unlocked => rfl
  | accepted | issued | withdrawn => cases quiet

/-- These are the facts about the stored challenges. -/
structure ChallengesFit (challenges : List (Challenge Secret Digest)) (usedIds : List Nat) : Prop where
  ids : (challenges.map Challenge.id).Nodup
  purposes : (challenges.map fun challenge => (challenge.userId, challenge.purpose)).Nodup
  used : ∀ challenge ∈ challenges, challenge.id ∈ usedIds

/-- The later challenges are some of the earlier ones, up to their codes. -/
structure Thinned (before after : List (Challenge Secret Digest)) : Prop where
  ids : (after.map Challenge.id).Sublist (before.map Challenge.id)
  purposes : (after.map fun challenge => (challenge.userId, challenge.purpose)).Sublist
    (before.map fun challenge => (challenge.userId, challenge.purpose))
  members : ∀ later ∈ after, ∃ challenge ∈ before, challenge.id = later.id ∧
    challenge.userId = later.userId ∧ challenge.purpose = later.purpose ∧
    challenge.method = later.method ∧ challenge.secret = later.secret

theorem Thinned.of_sublist {before after : List (Challenge Secret Digest)}
    (part : after.Sublist before) : Thinned before after where
  ids := part.map _
  purposes := part.map _
  members later member := ⟨later, part.subset member, rfl, rfl, rfl, rfl, rfl⟩

theorem ChallengesFit.thin {before after : List (Challenge Secret Digest)} {usedIds later : List Nat}
    (fit : ChallengesFit before usedIds) (thinned : Thinned before after)
    (grown : usedIds ⊆ later) : ChallengesFit after later where
  ids := thinned.ids.nodup fit.ids
  purposes := thinned.purposes.nodup fit.purposes
  used challenge member := by
    obtain ⟨earlier, old, same, _⟩ := thinned.members challenge member
    rw [← same]
    exact grown (fit.used earlier old)

/-- A new challenge has its own id and replaces the one of its purpose. -/
theorem ChallengesFit.replace {challenges : List (Challenge Secret Digest)} {usedIds later : List Nat}
    (fit : ChallengesFit challenges usedIds) {new : Challenge Secret Digest} (now : Nat)
    (fresh : new.id ∉ usedIds) (grown : usedIds ⊆ later) (drawn : new.id ∈ later) :
    ChallengesFit (replaceChallenge new now challenges) later := by
  have part : (challenges.filter fun other =>
      ¬(other.userId = new.userId ∧ (other.purpose = new.purpose ∨ other.expires ≤ now))).Sublist
      challenges := List.filter_sublist
  have kept := fit.thin (.of_sublist part) (List.Subset.refl _)
  refine ⟨?_, ?_, ?_⟩
  · rw [replaceChallenge, List.map_cons, List.nodup_cons]
    refine ⟨fun member => ?_, kept.ids⟩
    obtain ⟨other, old, same⟩ := List.mem_map.mp member
    exact fresh (same ▸ kept.used other old)
  · rw [replaceChallenge, List.map_cons, List.nodup_cons]
    refine ⟨fun member => ?_, kept.purposes⟩
    obtain ⟨other, old, same⟩ := List.mem_map.mp member
    have left := (List.mem_filter.mp old).2
    rw [Prod.mk.injEq] at same
    rw [decide_eq_true_eq] at left
    exact left ⟨same.1, .inl same.2⟩
  · intro challenge member
    rcases List.mem_cons.mp member with rfl | old
    · exact drawn
    · exact grown (kept.used challenge old)

/-- Two stored challenges of one id are the same. -/
theorem ChallengesFit.eq_of_id {challenges : List (Challenge Secret Digest)} {usedIds : List Nat}
    (fit : ChallengesFit challenges usedIds) {first second : Challenge Secret Digest}
    (left : first ∈ challenges) (right : second ∈ challenges) (same : first.id = second.id) :
    first = second :=
  List.inj_on_of_nodup_map fit.ids left right same

/-- The later row has the same method, secret, step and codes. -/
structure SameFactors (before after : MfaAccount Secret Digest) : Prop where
  method : after.method = before.method
  secret : after.secret = before.secret
  lastStep : after.lastStep = before.lastStep
  recoveryHashes : after.recoveryHashes = before.recoveryHashes

theorem SameFactors.refl (row : MfaAccount Secret Digest) : SameFactors row row :=
  ⟨rfl, rfl, rfl, rfl⟩

/-- These are the rows, the challenges, the values drawn so far and the log of a run. -/
structure SingleUseInvariant (rows : Nat → MfaAccount Secret Digest)
    (challenges : List (Challenge Secret Digest)) (usedIds : List Nat) (usedSecrets : List Secret)
    (usedDigests : List Digest) (log : List (FactorEntry Secret Digest)) : Prop where
  justified : Log.Justified UnusedBefore log
  challengesFit : ChallengesFit challenges usedIds
  codes : ∀ userId, (rows userId).recoveryHashes.Nodup ∧
    ∀ digest ∈ (rows userId).recoveryHashes, digest ∈ usedDigests ∧ digest ∉ retired userId log
  retiredUsed : ∀ userId, ∀ digest ∈ retired userId log, digest ∈ usedDigests
  issuedUsed : ∀ userId, ∀ digest ∈ issuedDigests userId log, digest ∈ usedDigests
  enrolled : ∀ userId, (rows userId).method = some .totp → (rows userId).secret ∈ usedSecrets ∧
    ∀ scope step, .accepted userId scope (.totp (rows userId).secret step) ∈ log →
      step ≤ (rows userId).lastStep
  secretsUsed : ∀ userId scope secret step,
    .accepted userId scope (.totp secret step) ∈ log → secret ∈ usedSecrets
  pending : ∀ challenge ∈ challenges, challenge.purpose = .enroll → challenge.method = .totp →
    challenge.secret ∈ usedSecrets ∧
      ((rows challenge.userId).method = some .totp →
        (rows challenge.userId).secret ≠ challenge.secret) ∧
      ∀ scope step, .accepted challenge.userId scope (.totp challenge.secret step) ∉ log
  emailed : ∀ userId scope challengeId,
    .accepted userId scope (.emailed challengeId) ∈ log → challengeId ∈ usedIds ∧
      ∀ challenge ∈ challenges, challenge.id ≠ challengeId

variable {rows later : Nat → MfaAccount Secret Digest} {challenges : List (Challenge Secret Digest)}
  {usedIds : List Nat} {usedSecrets : List Secret} {usedDigests : List Digest}
  {log : List (FactorEntry Secret Digest)}

/-- A change that keeps the factors and thins the challenges keeps the invariant. -/
theorem SingleUseInvariant.idle
    (holds : SingleUseInvariant rows challenges usedIds usedSecrets usedDigests log)
    (same : ∀ userId, SameFactors (rows userId) (later userId))
    {left : List (Challenge Secret Digest)} (thinned : Thinned challenges left)
    {ids : List Nat} {secrets : List Secret} {digests : List Digest} (grownIds : usedIds ⊆ ids)
    (grownSecrets : usedSecrets ⊆ secrets) (grownDigests : usedDigests ⊆ digests) :
    SingleUseInvariant later left ids secrets digests log where
  justified := holds.justified
  challengesFit := holds.challengesFit.thin thinned grownIds
  codes userId := by
    rw [(same userId).recoveryHashes]
    obtain ⟨distinct, fits⟩ := holds.codes userId
    exact ⟨distinct, fun digest member => ⟨grownDigests (fits digest member).1, (fits digest member).2⟩⟩
  retiredUsed userId digest member := grownDigests (holds.retiredUsed userId digest member)
  issuedUsed userId digest member := grownDigests (holds.issuedUsed userId digest member)
  enrolled userId := by
    rw [(same userId).method, (same userId).secret, (same userId).lastStep]
    intro isTotp
    obtain ⟨known, bound⟩ := holds.enrolled userId isTotp
    exact ⟨grownSecrets known, bound⟩
  secretsUsed userId scope secret step accepted :=
    grownSecrets (holds.secretsUsed userId scope secret step accepted)
  pending challenge member enroll isTotp := by
    obtain ⟨earlier, old, _, owner, purpose, method, secret⟩ := thinned.members challenge member
    rw [← purpose] at enroll
    rw [← method] at isTotp
    rw [(same _).method, (same _).secret, ← owner, ← secret]
    obtain ⟨known, apart, unused⟩ := holds.pending earlier old enroll isTotp
    exact ⟨grownSecrets known, apart, unused⟩
  emailed userId scope challengeId accepted := by
    obtain ⟨known, apart⟩ := holds.emailed userId scope challengeId accepted
    refine ⟨grownIds known, fun challenge member => ?_⟩
    obtain ⟨earlier, old, id, _⟩ := thinned.members challenge member
    rw [← id]
    exact apart earlier old

/-- A quiet entry keeps the invariant. -/
theorem SingleUseInvariant.quiet
    (holds : SingleUseInvariant rows challenges usedIds usedSecrets usedDigests log)
    {entry : FactorEntry Secret Digest} (quiet : entry.quiet = true) :
    SingleUseInvariant rows challenges usedIds usedSecrets usedDigests (entry :: log) := by
  have old {userId : Nat} {scope : Scope} {proof : FactorProof Secret Digest}
      (member : .accepted userId scope proof ∈ entry :: log) :
      .accepted userId scope proof ∈ log := by
    rcases List.mem_cons.mp member with rfl | older
    · cases quiet
    · exact older
  have issued (userId : Nat) :
      issuedDigests userId (entry :: log) = issuedDigests userId log := by
    cases entry with
    | failed | unlocked => rfl
    | accepted | issued | withdrawn => cases quiet
  constructor
  · refine ⟨?_, holds.justified⟩
    cases entry with
    | failed | unlocked => trivial
    | accepted | issued | withdrawn => cases quiet
  · exact holds.challengesFit
  · intro userId
    rw [retired_quiet quiet]
    exact holds.codes userId
  · intro userId
    rw [retired_quiet quiet]
    exact holds.retiredUsed userId
  · intro userId
    rw [issued]
    exact holds.issuedUsed userId
  · intro userId isTotp
    obtain ⟨known, bound⟩ := holds.enrolled userId isTotp
    exact ⟨known, fun scope step accepted => bound scope step (old accepted)⟩
  · intro userId scope secret step accepted
    exact holds.secretsUsed userId scope secret step (old accepted)
  · intro challenge member enroll isTotp
    obtain ⟨known, apart, unused⟩ := holds.pending challenge member enroll isTotp
    exact ⟨known, apart, fun scope step accepted => unused scope step (old accepted)⟩
  · intro userId scope challengeId accepted
    exact holds.emailed userId scope challengeId (old accepted)

/-- A new challenge with fresh values keeps the invariant. -/
theorem SingleUseInvariant.challenge
    (holds : SingleUseInvariant rows challenges usedIds usedSecrets usedDigests log)
    {new : Challenge Secret Digest} (now : Nat) {secret : Secret} (freshId : new.id ∉ usedIds)
    (freshSecret : secret ∉ usedSecrets)
    (drawn : new.purpose = .enroll → new.method = .totp → new.secret = secret) :
    SingleUseInvariant rows (replaceChallenge new now challenges) (new.id :: usedIds)
      (secret :: usedSecrets) usedDigests log where
  justified := holds.justified
  challengesFit := holds.challengesFit.replace now freshId (List.subset_cons_self _ _)
    List.mem_cons_self
  codes := holds.codes
  retiredUsed := holds.retiredUsed
  issuedUsed := holds.issuedUsed
  enrolled userId isTotp := by
    obtain ⟨known, bound⟩ := holds.enrolled userId isTotp
    exact ⟨List.mem_cons_of_mem _ known, bound⟩
  secretsUsed userId scope other step accepted :=
    List.mem_cons_of_mem _ (holds.secretsUsed userId scope other step accepted)
  pending challenge member enroll isTotp := by
    rcases List.mem_cons.mp member with rfl | old
    · rw [drawn enroll isTotp]
      refine ⟨List.mem_cons_self, fun enrolled same => ?_, fun scope step accepted => ?_⟩
      · exact freshSecret (same ▸ (holds.enrolled _ enrolled).1)
      · exact freshSecret (holds.secretsUsed _ scope secret step accepted)
    · obtain ⟨known, apart⟩ := holds.pending challenge (List.mem_filter.mp old).1 enroll isTotp
      exact ⟨List.mem_cons_of_mem _ known, apart⟩
  emailed userId scope challengeId accepted := by
    obtain ⟨known, apart⟩ := holds.emailed userId scope challengeId accepted
    refine ⟨List.mem_cons_of_mem _ known, fun challenge member => ?_⟩
    rcases List.mem_cons.mp member with rfl | old
    · intro same
      exact freshId (same ▸ known)
    · exact apart challenge (List.mem_filter.mp old).1

/-- An update at one user by a row with the same factors. -/
theorem SameFactors.update {before after : MfaAccount Secret Digest}
    (same : SameFactors before after) (rows : Nat → MfaAccount Secret Digest) (userId other : Nat) :
    SameFactors (Function.update rows userId before other)
      (Function.update rows userId after other) := by
  by_cases here : other = userId
  · subst here
    rw [Function.update_self, Function.update_self]
    exact same
  · rw [Function.update_of_ne here, Function.update_of_ne here]
    exact .refl _

/-- A recovery code is accepted and erased. -/
theorem SingleUseInvariant.acceptRecovery [DecidableEq Digest]
    (holds : SingleUseInvariant rows challenges usedIds usedSecrets usedDigests log)
    (userId : Nat) (scope : Scope) {digest : Digest}
    (stored : digest ∈ (rows userId).recoveryHashes) :
    SingleUseInvariant (Function.update rows userId
      { rows userId with recoveryHashes := (rows userId).recoveryHashes.erase digest })
      challenges usedIds usedSecrets usedDigests
      (.accepted userId scope (.recovery digest) :: log) := by
  obtain ⟨distinct, fits⟩ := holds.codes userId
  have here : retired userId (.accepted userId scope (.recovery digest) :: log) =
      digest :: retired userId log := by
    rw [retired, if_pos rfl]
  have elsewhere {other : Nat} (apart : other ≠ userId) :
      retired other (.accepted userId scope (.recovery digest) :: log) = retired other log := by
    rw [retired, if_neg (Ne.symm apart)]
  have factors (other : Nat) : ∀ row, row = Function.update rows userId
      { rows userId with recoveryHashes := (rows userId).recoveryHashes.erase digest } other →
      row.method = (rows other).method ∧ row.secret = (rows other).secret ∧
        row.lastStep = (rows other).lastStep := by
    rintro row rfl
    by_cases same : other = userId
    · subst same
      rw [Function.update_self]
      exact ⟨rfl, rfl, rfl⟩
    · rw [Function.update_of_ne same]
      exact ⟨rfl, rfl, rfl⟩
  constructor
  · exact ⟨(fits digest stored).2, holds.justified⟩
  · exact holds.challengesFit
  · intro other
    by_cases same : other = userId
    · subst same
      rw [Function.update_self, here]
      refine ⟨distinct.erase digest, fun left member => ?_⟩
      obtain ⟨apart, old⟩ := distinct.mem_erase_iff.mp member
      obtain ⟨known, unused⟩ := fits left old
      refine ⟨known, fun again => ?_⟩
      rcases List.mem_cons.mp again with same | earlier
      · exact apart same
      · exact unused earlier
    · rw [Function.update_of_ne same, elsewhere same]
      exact holds.codes other
  · intro other
    by_cases same : other = userId
    · subst same
      rw [here]
      intro left member
      rcases List.mem_cons.mp member with rfl | old
      · exact (fits left stored).1
      · exact holds.retiredUsed other left old
    · rw [elsewhere same]
      exact holds.retiredUsed other
  · exact holds.issuedUsed
  · intro other
    obtain ⟨method, secret, lastStep⟩ := factors other _ rfl
    rw [method, secret, lastStep]
    simpa using holds.enrolled other
  · simpa using holds.secretsUsed
  · intro challenge member
    obtain ⟨method, secret, _⟩ := factors challenge.userId _ rfl
    rw [method, secret]
    simpa using holds.pending challenge member
  · simpa using holds.emailed

/-- A step of the enrolled secret is accepted and recorded. -/
theorem SingleUseInvariant.acceptTotp
    (holds : SingleUseInvariant rows challenges usedIds usedSecrets usedDigests log)
    (userId : Nat) (scope : Scope) {step : Int} (enrolled : (rows userId).method = some .totp)
    (increases : (rows userId).lastStep < step) :
    SingleUseInvariant (Function.update rows userId { rows userId with lastStep := step })
      challenges usedIds usedSecrets usedDigests
      (.accepted userId scope (.totp (rows userId).secret step) :: log) := by
  obtain ⟨known, bound⟩ := holds.enrolled userId enrolled
  have retires (other : Nat) :
      retired other (.accepted userId scope (.totp (rows userId).secret step) :: log) =
        retired other log := rfl
  constructor
  · refine ⟨fun earlierScope earlier accepted => ?_, holds.justified⟩
    have := bound earlierScope earlier accepted
    omega
  · exact holds.challengesFit
  · intro other
    rw [retires]
    by_cases same : other = userId
    · subst same
      rw [Function.update_self]
      exact holds.codes other
    · rw [Function.update_of_ne same]
      exact holds.codes other
  · exact holds.retiredUsed
  · exact holds.issuedUsed
  · intro other
    by_cases same : other = userId
    · subst same
      rw [Function.update_self]
      refine fun _ => ⟨known, fun earlierScope earlier accepted => ?_⟩
      rcases List.mem_cons.mp accepted with now | old
      · cases now
        exact Int.le_refl _
      · have := bound earlierScope earlier old
        show earlier ≤ step
        omega
    · rw [Function.update_of_ne same]
      intro isTotp
      obtain ⟨used, older⟩ := holds.enrolled other isTotp
      refine ⟨used, fun earlierScope earlier accepted => ?_⟩
      rcases List.mem_cons.mp accepted with now | old
      · cases now
        exact absurd rfl same
      · exact older earlierScope earlier old
  · intro other earlierScope secret earlier accepted
    rcases List.mem_cons.mp accepted with now | old
    · cases now
      exact known
    · exact holds.secretsUsed other earlierScope secret earlier old
  · intro challenge member enroll isTotp
    obtain ⟨used, apart, unused⟩ := holds.pending challenge member enroll isTotp
    refine ⟨used, ?_, fun earlierScope earlier accepted => ?_⟩
    · by_cases same : challenge.userId = userId
      · rw [same, Function.update_self]
        rw [same] at apart
        exact apart
      · rw [Function.update_of_ne same]
        exact apart
    · rcases List.mem_cons.mp accepted with now | old
      · injection now with owner _ proof
        injection proof with secret
        rw [owner] at apart
        exact apart enrolled secret.symm
      · exact unused earlierScope earlier old
  · simpa using holds.emailed

/-- The code of a challenge that is no longer stored is accepted. -/
theorem SingleUseInvariant.acceptEmailed
    (holds : SingleUseInvariant rows challenges usedIds usedSecrets usedDigests log)
    (userId : Nat) (scope : Scope) {challengeId : Nat} (used : challengeId ∈ usedIds)
    (removed : ∀ challenge ∈ challenges, challenge.id ≠ challengeId)
    (unused : ∀ userId scope, .accepted userId scope (.emailed challengeId) ∉ log) :
    SingleUseInvariant rows challenges usedIds usedSecrets usedDigests
      (.accepted userId scope (.emailed challengeId) :: log) := by
  constructor
  · exact ⟨unused, holds.justified⟩
  · exact holds.challengesFit
  · exact holds.codes
  · exact holds.retiredUsed
  · exact holds.issuedUsed
  · simpa using holds.enrolled
  · simpa using holds.secretsUsed
  · simpa using holds.pending
  · intro other earlierScope earlier accepted
    rcases List.mem_cons.mp accepted with now | old
    · cases now
      exact ⟨used, removed⟩
    · exact holds.emailed other earlierScope earlier old

/-- A proof of an operation is accepted with its challenge removed. -/
theorem SingleUseInvariant.accept [DecidableEq Digest]
    (holds : SingleUseInvariant rows challenges usedIds usedSecrets usedDigests log)
    {userId : Nat} (scope : Scope) {proof : FactorProof Secret Digest}
    {found : Option (Challenge Secret Digest)} (accepts : Accepts (rows userId) found proof)
    (stored : ∀ challenge ∈ found, challenge ∈ challenges)
    (left : List (Challenge Secret Digest)) (part : left.Sublist challenges)
    (removed : ∀ challenge ∈ found, ∀ other ∈ left, other.id ≠ challenge.id) :
    SingleUseInvariant
      (Function.update rows userId (proof.change (rows userId) (rows userId))) left
      usedIds usedSecrets usedDigests (.accepted userId scope proof :: log) := by
  have thinned : SingleUseInvariant rows left usedIds usedSecrets usedDigests log :=
    holds.idle (fun _ => .refl _) (.of_sublist part) (List.Subset.refl _) (List.Subset.refl _)
      (List.Subset.refl _)
  cases accepts with
  | recovery digest member => exact thinned.acceptRecovery userId scope member
  | totp step enrolled increases => exact thinned.acceptTotp userId scope enrolled increases
  | emailed challenge named =>
      have member := stored challenge named
      show SingleUseInvariant (Function.update rows userId (rows userId)) left _ _ _ _
      rw [Function.update_eq_self]
      apply thinned.acceptEmailed userId scope (holds.challengesFit.used challenge member)
        (removed challenge named)
      intro other earlierScope accepted
      exact (holds.emailed other earlierScope challenge.id accepted).2 challenge member rfl

/-- The recovery codes of a user are withdrawn. -/
theorem SingleUseInvariant.withdraw
    (holds : SingleUseInvariant rows challenges usedIds usedSecrets usedDigests log)
    (userId : Nat) (row : MfaAccount Secret Digest) (emptied : row.recoveryHashes = [])
    (kept : row.method = some .totp → (rows userId).method = some .totp ∧
      row.secret = (rows userId).secret ∧ row.lastStep = (rows userId).lastStep)
    {left : List (Challenge Secret Digest)} (part : left.Sublist challenges)
    (removed : ∀ other ∈ left, other.userId ≠ userId) :
    SingleUseInvariant (Function.update rows userId row) left usedIds usedSecrets usedDigests
      (.withdrawn userId :: log) := by
  have thinned : SingleUseInvariant rows left usedIds usedSecrets usedDigests log :=
    holds.idle (fun _ => .refl _) (.of_sublist part) (List.Subset.refl _) (List.Subset.refl _)
      (List.Subset.refl _)
  have elsewhere {other : Nat} (apart : other ≠ userId) :
      retired other (.withdrawn userId :: log) = retired other log := by
    rw [retired, if_neg (Ne.symm apart)]
  constructor
  · exact ⟨trivial, holds.justified⟩
  · exact thinned.challengesFit
  · intro other
    by_cases same : other = userId
    · subst same
      rw [Function.update_self, emptied]
      exact ⟨List.nodup_nil, nofun⟩
    · rw [Function.update_of_ne same, elsewhere same]
      exact holds.codes other
  · intro other
    by_cases same : other = userId
    · subst same
      rw [retired, if_pos rfl]
      intro digest member
      rcases List.mem_append.mp member with issued | old
      · exact holds.issuedUsed other digest issued
      · exact holds.retiredUsed other digest old
    · rw [elsewhere same]
      exact holds.retiredUsed other
  · exact holds.issuedUsed
  · intro other
    by_cases same : other = userId
    · subst same
      rw [Function.update_self]
      intro isTotp
      obtain ⟨enrolled, secret, lastStep⟩ := kept isTotp
      rw [secret, lastStep]
      simpa using holds.enrolled other enrolled
    · rw [Function.update_of_ne same]
      simpa using holds.enrolled other
  · simpa using holds.secretsUsed
  · intro challenge member
    rw [Function.update_of_ne (removed challenge member)]
    simpa using thinned.pending challenge member
  · simpa using thinned.emailed

/-- A proof is accepted and the recovery codes and the challenges of its user are withdrawn. -/
theorem SingleUseInvariant.withdrawAccepted [DecidableEq Digest]
    (holds : SingleUseInvariant rows challenges usedIds usedSecrets usedDigests log)
    {userId : Nat} (scope : Scope) {proof : FactorProof Secret Digest}
    {found : Option (Challenge Secret Digest)} (accepts : Accepts (rows userId) found proof)
    (stored : ∀ challenge ∈ found, challenge ∈ challenges ∧ challenge.userId = userId)
    {left : List (Challenge Secret Digest)}
    (removed : left = challenges.filter fun other => other.userId ≠ userId)
    (row : MfaAccount Secret Digest) (emptied : row.recoveryHashes = [])
    (kept : row.method = some .totp →
      (proof.change (rows userId) (rows userId)).method = some .totp ∧
      row.secret = (proof.change (rows userId) (rows userId)).secret ∧
      row.lastStep = (proof.change (rows userId) (rows userId)).lastStep) :
    SingleUseInvariant (Function.update rows userId row) left usedIds usedSecrets usedDigests
      (.withdrawn userId :: .accepted userId scope proof :: log) := by
  have part : left.Sublist challenges := by
    rw [removed]
    exact List.filter_sublist
  have apart : ∀ other ∈ left, other.userId ≠ userId := by
    intro other member
    rw [removed] at member
    exact of_decide_eq_true (List.mem_filter.mp member).2
  have accepted := holds.accept scope accepts (fun challenge same => (stored challenge same).1) left
    part (by
      intro challenge same other member again
      obtain ⟨here, owner⟩ := stored challenge same
      have equal := holds.challengesFit.eq_of_id (part.subset member) here again
      exact apart other member (equal ▸ owner))
  have withdrawn := accepted.withdraw userId row emptied
    (by rw [Function.update_self]; exact kept) (List.Sublist.refl _) apart
  rwa [Function.update_idem] at withdrawn

/-- New recovery codes replace the codes of a user. -/
theorem SingleUseInvariant.issue
    (holds : SingleUseInvariant rows challenges usedIds usedSecrets usedDigests log)
    (userId : Nat) (row : MfaAccount Secret Digest) {fresh : List Digest}
    (replaced : row.recoveryHashes = fresh) (method : row.method = (rows userId).method)
    (secret : row.secret = (rows userId).secret) (lastStep : row.lastStep = (rows userId).lastStep)
    (distinct : fresh.Nodup) (unused : ∀ digest ∈ fresh, digest ∉ usedDigests) :
    SingleUseInvariant (Function.update rows userId row) challenges usedIds usedSecrets
      (fresh ++ usedDigests) (.issued userId fresh :: log) := by
  have retires (other : Nat) :
      retired other (.issued userId fresh :: log) = retired other log := rfl
  have factors (other : Nat) : ∀ later, later = Function.update rows userId row other →
      later.method = (rows other).method ∧ later.secret = (rows other).secret ∧
        later.lastStep = (rows other).lastStep := by
    rintro later rfl
    by_cases same : other = userId
    · subst same
      rw [Function.update_self]
      exact ⟨method, secret, lastStep⟩
    · rw [Function.update_of_ne same]
      exact ⟨rfl, rfl, rfl⟩
  constructor
  · exact ⟨trivial, holds.justified⟩
  · exact holds.challengesFit
  · intro other
    rw [retires]
    by_cases same : other = userId
    · subst same
      rw [Function.update_self, replaced]
      refine ⟨distinct, fun digest member => ⟨List.mem_append_left _ member, fun old => ?_⟩⟩
      exact unused digest member (holds.retiredUsed other digest old)
    · rw [Function.update_of_ne same]
      obtain ⟨apart, fits⟩ := holds.codes other
      refine ⟨apart, fun digest member => ?_⟩
      exact ⟨List.mem_append_right _ (fits digest member).1, (fits digest member).2⟩
  · intro other digest member
    exact List.mem_append_right _ (holds.retiredUsed other digest member)
  · intro other digest member
    rw [issuedDigests] at member
    split at member
    · rcases List.mem_append.mp member with new | old
      · exact List.mem_append_left _ new
      · exact List.mem_append_right _ (holds.issuedUsed other digest old)
    · exact List.mem_append_right _ (holds.issuedUsed other digest member)
  · intro other
    obtain ⟨sameMethod, sameSecret, sameStep⟩ := factors other _ rfl
    rw [sameMethod, sameSecret, sameStep]
    simpa using holds.enrolled other
  · simpa using holds.secretsUsed
  · intro challenge member
    obtain ⟨sameMethod, sameSecret, _⟩ := factors challenge.userId _ rfl
    rw [sameMethod, sameSecret]
    simpa using holds.pending challenge member
  · simpa using holds.emailed

/-- A confirmed enrollment starts the steps of its secret. -/
theorem SingleUseInvariant.confirm
    (holds : SingleUseInvariant rows challenges usedIds usedSecrets usedDigests log)
    (scope : Scope) {challenge : Challenge Secret Digest} (stored : challenge ∈ challenges)
    (purpose : challenge.purpose = .enroll) {proof : FactorProof Secret Digest} {step : Int}
    (enrolls : Enrolls challenge proof step) (row : MfaAccount Secret Digest)
    (method : row.method = some challenge.method) (secret : row.secret = challenge.secret)
    (lastStep : row.lastStep = step)
    (codes : row.recoveryHashes = (rows challenge.userId).recoveryHashes)
    {left : List (Challenge Secret Digest)} (part : left.Sublist challenges)
    (removed : ∀ other ∈ left, other.userId ≠ challenge.userId) :
    SingleUseInvariant (Function.update rows challenge.userId row) left usedIds usedSecrets
      usedDigests (.accepted challenge.userId scope proof :: log) := by
  have thinned : SingleUseInvariant rows left usedIds usedSecrets usedDigests log :=
    holds.idle (fun _ => .refl _) (.of_sublist part) (List.Subset.refl _) (List.Subset.refl _)
      (List.Subset.refl _)
  have sameCodes (other : Nat) :
      (Function.update rows challenge.userId row other).recoveryHashes =
        (rows other).recoveryHashes := by
    by_cases same : other = challenge.userId
    · rw [same, Function.update_self, codes]
    · rw [Function.update_of_ne same]
  cases enrolls with
  | totp _ isTotp =>
      obtain ⟨known, _, unused⟩ := holds.pending challenge stored purpose isTotp
      constructor
      · exact ⟨fun earlierScope earlier accepted =>
          absurd accepted (unused earlierScope earlier), holds.justified⟩
      · exact thinned.challengesFit
      · intro other
        rw [sameCodes]
        exact holds.codes other
      · exact holds.retiredUsed
      · exact holds.issuedUsed
      · intro other
        by_cases same : other = challenge.userId
        · rw [same, Function.update_self, secret, lastStep]
          refine fun _ => ⟨known, fun earlierScope earlier accepted => ?_⟩
          rcases List.mem_cons.mp accepted with now | old
          · cases now
            exact Int.le_refl _
          · exact absurd old (unused earlierScope earlier)
        · rw [Function.update_of_ne same]
          simpa [same] using holds.enrolled other
      · intro other earlierScope earlierSecret earlier accepted
        rcases List.mem_cons.mp accepted with now | old
        · cases now
          exact known
        · exact holds.secretsUsed other earlierScope earlierSecret earlier old
      · intro other member
        rw [Function.update_of_ne (removed other member)]
        simpa [removed other member] using thinned.pending other member
      · simpa using thinned.emailed
  | emailed isEmail =>
      have accepted := thinned.acceptEmailed challenge.userId scope
        (holds.challengesFit.used challenge stored)
        (fun other member same => removed other member
          (congrArg _ (holds.challengesFit.eq_of_id (part.subset member) stored same)))
        (fun other earlierScope old =>
          (holds.emailed other earlierScope challenge.id old).2 challenge stored rfl)
      constructor
      · exact accepted.justified
      · exact accepted.challengesFit
      · intro other
        rw [sameCodes]
        exact accepted.codes other
      · exact accepted.retiredUsed
      · exact accepted.issuedUsed
      · intro other
        by_cases same : other = challenge.userId
        · rw [same, Function.update_self, method, isEmail]
          exact nofun
        · rw [Function.update_of_ne same]
          exact accepted.enrolled other
      · exact accepted.secretsUsed
      · intro other member
        rw [Function.update_of_ne (removed other member)]
        exact accepted.pending other member
      · exact accepted.emailed

/-- A change of a budget keeps the factors. -/
theorem SameFactors.setBudget (row : MfaAccount Secret Digest) (scope : Scope)
    (failures lockedUntil : Nat) : SameFactors row (row.setBudget scope failures lockedUntil) := by
  cases scope <;> exact ⟨rfl, rfl, rfl, rfl⟩

theorem SameFactors.spend (row : MfaAccount Secret Digest) (scope : Scope) (now : Nat) :
    SameFactors row (row.spend scope now) := by
  unfold MfaAccount.spend
  split
  · exact .setBudget ..
  · exact .setBudget ..

theorem KeepsFactors.same {before after : MfaAccount Secret Digest}
    (keeps : KeepsFactors before after) : SameFactors before after :=
  ⟨keeps.method, keeps.secret, keeps.lastStep, keeps.recoveryHashes⟩

/-- An update at one user by a row with the same factors changes no factor. -/
theorem SameFactors.update_self {rows : Nat → MfaAccount Secret Digest} {userId : Nat}
    {after : MfaAccount Secret Digest} (same : SameFactors (rows userId) after) (other : Nat) :
    SameFactors (rows other) (Function.update rows userId after other) := by
  have moved := same.update rows userId other
  rwa [Function.update_eq_self] at moved

variable [Inhabited Secret] [DecidableEq Hash] [DecidableEq Secret] [DecidableEq Digest]
  {keys : MfaKeys Hash Password Secret Digest}

namespace FactorState

/-- This is the invariant of a run. -/
def SingleUse (s : FactorState Hash Secret Digest) : Prop :=
  SingleUseInvariant s.db.row s.db.challenges s.usedIds s.usedSecrets s.usedDigests s.log

omit [Inhabited Secret] [DecidableEq Hash] [DecidableEq Secret] [DecidableEq Digest] in
/-- The draws of an operation are only added. -/
theorem addDraws_grows (s : FactorState Hash Secret Digest)
    (keys : MfaKeys Hash Password Secret Digest) (draws? : Option (MfaDraws Secret)) :
    s.usedIds ⊆ (s.addDraws keys draws?).usedIds ∧
      s.usedSecrets ⊆ (s.addDraws keys draws?).usedSecrets ∧
      s.usedDigests ⊆ (s.addDraws keys draws?).usedDigests := by
  cases draws? with
  | none => exact ⟨List.Subset.refl _, List.Subset.refl _, List.Subset.refl _⟩
  | some draws =>
      exact ⟨List.subset_cons_self _ _, List.subset_cons_self _ _, List.subset_append_right _ _⟩

omit [Inhabited Secret] [DecidableEq Hash] in
theorem freshDraws_iff {s : FactorState Hash Secret Digest} {draws : MfaDraws Secret} :
    s.freshDraws keys draws = true ↔
      draws.challengeId ∉ s.usedIds ∧ draws.secret ∉ s.usedSecrets ∧
        (draws.recoveryCodes.map keys.digestRecovery).Nodup ∧
        ∀ digest ∈ draws.recoveryCodes.map keys.digestRecovery, digest ∉ s.usedDigests := by
  simp [freshDraws, and_assoc]

/-- An operation keeps the invariant. -/
theorem SingleUse.operation {s : FactorState Hash Secret Digest} (holds : s.SingleUse)
    {operation : FactorOperation Hash Password Secret} (now : Nat)
    (fresh : operation.draws?.all (s.freshDraws keys) = true) :
    SingleUseInvariant (operation.run keys now s.db).1.row (operation.run keys now s.db).1.challenges
      (s.addDraws keys operation.draws?).usedIds (s.addDraws keys operation.draws?).usedSecrets
      (s.addDraws keys operation.draws?).usedDigests
      (entries keys now s.db operation ++ s.log) := by
  have effect := operation.effect keys now s.db
  rw [entries_eq]
  generalize operation.check keys now s.db = verdict at effect
  generalize operation.run keys now s.db = outcome at effect
  generalize operation.consequences keys = consequences at effect
  generalize operation.draws? = draws? at effect fresh
  generalize operation.userId = userId at effect
  generalize operation.scope = scope at effect
  obtain ⟨grownIds, grownSecrets, grownDigests⟩ := s.addDraws_grows keys draws?
  cases effect with
  | unchanged next reply row same answer =>
      show SingleUseInvariant next.row next.challenges _ _ _ s.log
      rw [row, same]
      exact holds.idle (fun _ => .refl _) (.of_sublist (List.Sublist.refl _)) grownIds grownSecrets
        grownDigests
  | challenged next claims method code warning draws drawn sent keeps row new owner id secret
      replaced =>
      subst drawn
      obtain ⟨freshId, freshSecret, _⟩ := freshDraws_iff.mp (Option.all_some.symm.trans fresh)
      show SingleUseInvariant next.row next.challenges _ _ _ s.log
      rw [row, replaced]
      have created := SingleUseInvariant.challenge holds now (id ▸ freshId) freshSecret secret
      apply created.idle keeps.same.update_self (.of_sublist (List.Sublist.refl _))
      · rw [id]
        exact List.Subset.refl _
      · exact List.Subset.refl _
      · exact grownDigests
  | failed next error unlocked row revoked =>
      show SingleUseInvariant next.row next.challenges _ _ _ (_ :: s.log)
      rw [row, revoked]
      refine (SingleUseInvariant.quiet holds rfl).idle
        (SameFactors.spend (s.db.row userId) scope now).update_self (.of_sublist ?_) grownIds
        grownSecrets grownDigests
      unfold spendChallenges
      split
      · exact List.filter_sublist
      · exact List.Sublist.refl _
  | verified next user transport login unlocked challenge stored proof accepts row removed =>
      show SingleUseInvariant next.row next.challenges _ _ _ (_ :: s.log)
      rw [row]
      have part : next.challenges.Sublist s.db.challenges := by
        rw [removed]
        exact List.filter_sublist
      have accepted := SingleUseInvariant.accept holds scope accepts
        (fun found same => by cases same; exact stored) next.challenges part
        (fun found same other member => by
          cases same
          rw [removed] at member
          exact of_decide_eq_true (List.mem_filter.mp member).2)
      exact accepted.idle ((SameFactors.setBudget _ _ _ _).update _ userId)
        (.of_sublist (List.Sublist.refl _)) grownIds grownSecrets grownDigests
  | enrolled next reply accepted manage unlocked draws drawn challenge stored owner purpose proof
      step enrolls row removed =>
      subst drawn owner
      obtain ⟨_, _, distinct, unused⟩ := freshDraws_iff.mp (Option.all_some.symm.trans fresh)
      have part : next.challenges.Sublist s.db.challenges := by
        rw [removed]
        exact List.filter_sublist
      have confirmed := SingleUseInvariant.confirm holds scope stored purpose enrolls
        ((s.db.row challenge.userId).enroll challenge step
          (s.db.row challenge.userId).recoveryHashes) rfl rfl rfl rfl part
        (fun other member => by
          rw [removed] at member
          exact of_decide_eq_true (List.mem_filter.mp member).2)
      have issued := confirmed.issue challenge.userId
        ((s.db.row challenge.userId).enroll challenge step
          (draws.recoveryCodes.map keys.digestRecovery)) rfl
        (by rw [Function.update_self]; rfl) (by rw [Function.update_self]; rfl)
        (by rw [Function.update_self]; rfl) distinct unused
      rw [Function.update_idem, ← row] at issued
      exact issued.idle (fun _ => .refl _) (.of_sublist (List.Sublist.refl _)) grownIds grownSecrets
        (List.Subset.refl _)
  | regenerated next reply accepted manage unlocked draws drawn found stored proof accepts row
      removed =>
      subst drawn
      obtain ⟨_, _, distinct, unused⟩ := freshDraws_iff.mp (Option.all_some.symm.trans fresh)
      have withdrawn := SingleUseInvariant.withdrawAccepted holds scope accepts stored removed
        { (proof.change (s.db.row userId) (s.db.row userId)).setBudget .manage 0 0 with
          recoveryHashes := [] } rfl (fun isTotp => ⟨isTotp, rfl, rfl⟩)
      have issued := withdrawn.issue userId
        { (proof.change (s.db.row userId) (s.db.row userId)).setBudget .manage 0 0 with
          recoveryHashes := draws.recoveryCodes.map keys.digestRecovery } rfl
        (by rw [Function.update_self]) (by rw [Function.update_self])
        (by rw [Function.update_self]) distinct unused
      rw [Function.update_idem, ← row] at issued
      exact issued.idle (fun _ => .refl _) (.of_sublist (List.Sublist.refl _)) grownIds grownSecrets
        (List.Subset.refl _)
  | disabled next reply accepted manage unlocked found stored proof accepts row removed =>
      have withdrawn := SingleUseInvariant.withdrawAccepted holds scope accepts stored removed
        ((proof.change (s.db.row userId) (s.db.row userId)).setBudget .manage 0 0).disable rfl
        nofun
      rw [← row] at withdrawn
      exact withdrawn.idle (fun _ => .refl _) (.of_sublist (List.Sublist.refl _)) grownIds
        grownSecrets grownDigests

omit [Inhabited Secret] [DecidableEq Hash] [DecidableEq Secret] [DecidableEq Digest] in
theorem sublist_map {β : Type} {f g : Challenge Secret Digest → β}
    (same : ∀ challenge, f challenge = g challenge) (challenges : List (Challenge Secret Digest)) :
    (challenges.map f).Sublist (challenges.map g) := by
  rw [funext same]

omit [DecidableEq Hash] [DecidableEq Secret] [Inhabited Secret] in
/-- A forgotten code keeps the challenges up to their codes. -/
theorem thinned_forgetUnsentCode (challengeId : Nat) (code : Str)
    (db : MfaDb Hash Secret Digest) :
    Thinned db.challenges (forgetUnsentCode keys challengeId code db).challenges := by
  have each (challenge : Challenge Secret Digest) :
      ∀ later, later = (if challenge.id = challengeId ∧
          challenge.codeHash = some (keys.digestCode challengeId code) then
        { challenge with codeHash := none } else challenge) →
      challenge.id = later.id ∧ challenge.userId = later.userId ∧
        challenge.purpose = later.purpose ∧ challenge.method = later.method ∧
        challenge.secret = later.secret := by
    rintro later rfl
    split <;> exact ⟨rfl, rfl, rfl, rfl, rfl⟩
  unfold forgetUnsentCode
  constructor
  · rw [List.map_map]
    apply sublist_map
    intro challenge
    exact (each challenge _ rfl).1.symm
  · rw [List.map_map]
    apply sublist_map
    intro challenge
    obtain ⟨_, owner, purpose, _⟩ := each challenge _ rfl
    exact Prod.ext owner.symm purpose.symm
  · intro later member
    obtain ⟨challenge, old, rfl⟩ := List.mem_map.mp member
    exact ⟨challenge, old, each challenge _ rfl⟩

omit [DecidableEq Secret] [DecidableEq Hash] [DecidableEq Digest] in
/-- An administrator changes no factor and no challenge. -/
theorem updateAccount_same (userId : Nat) (change : UserChange Hash)
    (db : MfaDb Hash Secret Digest) (other : Nat) :
    SameFactors (db.row other) ((updateAccount userId change db).row other) ∧
      (updateAccount userId change db).challenges = db.challenges := by
  unfold updateAccount
  dsimp only
  split
  · refine ⟨?_, rfl⟩
    by_cases same : other = userId
    · subst same
      simp only [MfaDb.row, MfaDb.changeAccount, Function.update_self]
      cases db.accounts other with
      | none => exact .refl _
      | some row => exact ⟨rfl, rfl, rfl, rfl⟩
    · simp only [MfaDb.row, MfaDb.changeAccount, Function.update_of_ne same]
      exact .refl _
  · exact ⟨.refl _, rfl⟩

/-- Each step keeps the invariant. -/
theorem SingleUse.step {s next : FactorState Hash Secret Digest}
    {event : Nat × FactorEvent Hash Password Secret} (holds : s.SingleUse)
    (stepped : FactorState.step keys s event = some next) : next.SingleUse := by
  obtain ⟨now, event⟩ := event
  simp only [FactorState.step] at stepped
  split at stepped
  · cases stepped
  · cases event with
    | operation operation =>
        dsimp only at stepped
        split at stepped <;> cases stepped
        next fresh => exact holds.operation now fresh
    | forgetUnsentCode challengeId code =>
        cases stepped
        exact SingleUseInvariant.idle holds (fun _ => .refl _)
          (thinned_forgetUnsentCode challengeId code s.db) (List.Subset.refl _)
          (List.Subset.refl _) (List.Subset.refl _)
    | purgeExpiredChallenges =>
        cases stepped
        exact SingleUseInvariant.idle holds (fun _ => .refl _) (.of_sublist List.filter_sublist)
          (List.Subset.refl _) (List.Subset.refl _) (List.Subset.refl _)
    | updateUser userId change =>
        cases stepped
        have same := (updateAccount_same userId change s.db userId).2
        have kept : SingleUseInvariant (updateAccount userId change s.db).row
            (updateAccount userId change s.db).challenges s.usedIds s.usedSecrets s.usedDigests
            s.log := by
          rw [same]
          exact SingleUseInvariant.idle holds
            (fun other => (updateAccount_same userId change s.db other).1)
            (.of_sublist (List.Sublist.refl _)) (List.Subset.refl _) (List.Subset.refl _)
            (List.Subset.refl _)
        show SingleUseInvariant _ _ _ _ _ (if change.unlock = true then _ else s.log)
        split
        · exact kept.quiet rfl
        · exact kept
    | writeUsers users =>
        cases stepped
        exact holds

omit [DecidableEq Hash] [DecidableEq Secret] [DecidableEq Digest] in
/-- An installation has no challenge, no factor and an empty log. -/
theorem singleUse_initial (users : Nat → Option (UserRow Hash)) :
    (initial users : FactorState Hash Secret Digest).SingleUse where
  justified := trivial
  challengesFit := ⟨List.nodup_nil, List.nodup_nil, nofun⟩
  codes _ := ⟨List.nodup_nil, nofun⟩
  retiredUsed _ := nofun
  issuedUsed _ := nofun
  enrolled _ := nofun
  secretsUsed _ _ _ _ := nofun
  pending := nofun
  emailed _ _ _ := nofun

end FactorState

omit [Inhabited Secret] [DecidableEq Hash] [DecidableEq Secret] [DecidableEq Digest] in
/-- A code that was given before a withdrawal is retired. -/
theorem mem_retired_of_withdrawn {userId : Nat} {digests : List Digest} {digest : Digest}
    (member : digest ∈ digests) (middle : List (FactorEntry Secret Digest))
    {older : List (FactorEntry Secret Digest)} (issued : .issued userId digests ∈ older) :
    digest ∈ retired userId (middle ++ .withdrawn userId :: older) := by
  apply retired_append
  rw [retired, if_pos rfl]
  exact List.mem_append_left _ (mem_issuedDigests member issued)

/-- In every run, no recovery code, no step of a secret and no emailed code is accepted twice, no
recovery code is accepted after its withdrawal, and no purpose has two challenges. -/
theorem factor_proofs_single_use {users : Nat → Option (UserRow Hash)}
    {events : List (Nat × FactorEvent Hash Password Secret)} {s : FactorState Hash Secret Digest}
    (ran : Machine.run (FactorState.step keys) (.initial users) events = some s) :
    (∀ now (operation : FactorOperation Hash Password Secret), operation.passwordOnly = false →
      ∀ userId user transport codes,
        (operation.run keys now s.db).2 = .signedIn userId user transport codes →
        ∃ proof, .accepted operation.userId operation.scope proof ∈
          FactorState.entries keys now s.db operation) ∧
    (∀ newer userId scope digest older,
      s.log = newer ++ .accepted userId scope (.recovery digest) :: older →
        (∀ earlierScope, .accepted userId earlierScope (.recovery digest) ∉ older) ∧
        ∀ middle oldest digests, older = middle ++ .withdrawn userId :: oldest →
          .issued userId digests ∈ oldest → digest ∉ digests) ∧
    (∀ newer userId scope secret step older,
      s.log = newer ++ .accepted userId scope (.totp secret step) :: older →
        ∀ earlierScope earlier, .accepted userId earlierScope (.totp secret earlier) ∈ older →
          earlier < step) ∧
    (∀ newer userId scope challengeId older,
      s.log = newer ++ .accepted userId scope (.emailed challengeId) :: older →
        ∀ earlierUser earlierScope,
          .accepted earlierUser earlierScope (.emailed challengeId) ∉ older) ∧
    (s.db.challenges.map fun challenge => (challenge.userId, challenge.purpose)).Nodup := by
  have invariant : s.SingleUse := Machine.run_invariant FactorState.SingleUse
    (fun _ _ _ holds stepped => holds.step stepped) (FactorState.singleUse_initial users) ran
  have justified := invariant.justified
  refine ⟨?_, ?_, ?_, ?_, invariant.challengesFit.purposes⟩
  · intro now operation factor userId user transport codes signedIn
    obtain ⟨proof, passed⟩ := operation.signedIn_passed keys factor signedIn
    refine ⟨proof, ?_⟩
    rw [FactorState.entries_eq, passed]
    exact List.mem_append_right _ List.mem_cons_self
  · intro newer userId scope digest older same
    rw [same] at justified
    have unused : digest ∉ retired userId older := justified.split
    constructor
    · exact fun earlierScope accepted => unused (mem_retired_of_accepted accepted)
    · rintro middle oldest digests rfl issued member
      exact unused (mem_retired_of_withdrawn member middle issued)
  · intro newer userId scope secret step older same
    rw [same] at justified
    exact justified.split
  · intro newer userId scope challengeId older same
    rw [same] at justified
    exact justified.split

/-- User `1` enrolls an authenticator and logs in with the password. -/
def factorEnrollment : List (Nat × FactorEvent Nat Nat Nat) :=
  [(0, .operation (.setup true false true passwordToken (some .totp) [] 7 ⟨40, [], 9, []⟩)),
    (0, .operation (.confirm passwordToken ⟨1, 0, 40, .enroll, 0, 600, some .cookies⟩
      (some (ofString "123456")) .cookies ⟨41, [], 10, [ofString "aa", ofString "bb"]⟩)),
    (30, .operation (.beginLogin false 1 (rotateVersion (insertUser 7 .user)) .cookies
      ⟨42, [], 11, []⟩))]

/-- The user signs in with a code and with a recovery code and then replaces the recovery codes. -/
def factorEvents : List (Nat × FactorEvent Nat Nat Nat) :=
  factorEnrollment ++
    [(60, .operation (.verifyLogin ⟨1, 1, 42, .login, 30, 330, some .cookies⟩
      (some (ofString "123456")))),
    (90, .operation (.beginLogin false 1 (rotateVersion (insertUser 7 .user)) .cookies
      ⟨43, [], 12, []⟩)),
    (90, .operation (.verifyLogin ⟨1, 1, 43, .login, 90, 390, some .cookies⟩
      (some (ofString "aa")))),
    (120, .operation (.changeMethod true ⟨1, 1, 32, some 30, some 0, 0, 1800⟩ none 7
      (some (ofString "123456")) .cookies ⟨44, [], 13, [ofString "cc"]⟩))]

theorem factorEvents_run :
    (Machine.run (FactorState.step exampleKeys)
      (.initial fun userId => if userId = 1 then some (insertUser 7 .user) else none)
      factorEvents).map FactorState.log =
        some [.issued 1 [(0, ofString "cc")], .withdrawn 1, .accepted 1 .manage (.totp 9 4),
          .accepted 1 .login (.recovery (0, ofString "aa")), .accepted 1 .login (.totp 9 2),
          .issued 1 [(0, ofString "aa"), (0, ofString "bb")],
          .accepted 1 .manage (.totp 9 0)] := by
  decide +kernel

theorem factor_proofs_single_use_example :
    ∃ s, Machine.run (FactorState.step exampleKeys)
        (.initial fun userId => if userId = 1 then some (insertUser 7 .user) else none)
        factorEvents = some s ∧
      s.log = [.issued 1 [(0, ofString "cc")], .withdrawn 1, .accepted 1 .manage (.totp 9 4),
        .accepted 1 .login (.recovery (0, ofString "aa")), .accepted 1 .login (.totp 9 2),
        .issued 1 [(0, ofString "aa"), (0, ofString "bb")], .accepted 1 .manage (.totp 9 0)] ∧
      (∀ newer userId scope digest older,
        s.log = newer ++ .accepted userId scope (.recovery digest) :: older →
          (∀ earlierScope, .accepted userId earlierScope (.recovery digest) ∉ older) ∧
          ∀ middle oldest digests, older = middle ++ .withdrawn userId :: oldest →
            .issued userId digests ∈ oldest → digest ∉ digests) ∧
      (∀ newer userId scope secret step older,
        s.log = newer ++ .accepted userId scope (.totp secret step) :: older →
          ∀ earlierScope earlier, .accepted userId earlierScope (.totp secret earlier) ∈ older →
            earlier < step) ∧
      (s.db.challenges.map fun challenge => (challenge.userId, challenge.purpose)).Nodup := by
  obtain ⟨s, ran, log⟩ := Option.map_eq_some_iff.mp factorEvents_run
  obtain ⟨_, recovery, totp, _, purposes⟩ := factor_proofs_single_use ran
  exact ⟨s, ran, log, recovery, totp, purposes⟩

end SingleUse

end SubtitleTranslator.Auth
