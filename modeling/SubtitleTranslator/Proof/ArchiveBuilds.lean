import SubtitleTranslator.Construction.ArchiveBuilds

namespace SubtitleTranslator.Jobs
open Library Text

section Names
variable {format : ArchiveFormat}

theorem temporaryName_injective {first second : Str}
    (same : temporaryName first = temporaryName second) : first = second := by
  rw [temporaryName, temporaryName] at same
  exact List.append_cancel_left (List.append_cancel_right same)

theorem archiveName_digest {first second : List Str}
    (same : format.archiveName first = format.archiveName second) :
    format.digest first = format.digest second :=
  List.append_cancel_left (List.append_cancel_right same)

theorem archiveName_getLast (names : List Str) :
    (format.archiveName names).getLast? = some 0x70 := by
  rw [ArchiveFormat.archiveName, List.getLast?_append_of_ne_nil _ (by decide)]
  decide

theorem temporaryName_getLast (token : Str) : (temporaryName token).getLast? = some 0x6c := by
  rw [temporaryName, List.getLast?_append_of_ne_nil _ (by decide)]
  decide

theorem isOutputName_getLast {name : Str} (output : isOutputName name = true) :
    name.getLast? = some 0x74 ∨ name.getLast? = some 0x73 ∨ name.getLast? = some 0x61 := by
  obtain ⟨extension, listed, ends⟩ := List.any_eq_true.mp output
  obtain ⟨front, rfl⟩ := List.isSuffixOf_iff_suffix.mp ends
  simp only [supportedExtensions, List.map_cons, List.map_nil, List.mem_cons, List.not_mem_nil,
    or_false] at listed
  rcases listed with rfl | rfl | rfl | rfl <;>
    rw [List.getLast?_append_of_ne_nil _ (by decide)] <;> decide

theorem archiveName_ne_temporaryName (names : List Str) (token : Str) :
    format.archiveName names ≠ temporaryName token := by
  intro same
  have last := (archiveName_getLast names : (format.archiveName names).getLast? = some 0x70)
  rw [same, temporaryName_getLast] at last
  exact absurd last (by decide)

theorem archiveName_ne_output (names : List Str) {name : Str} (output : isOutputName name = true) :
    name ≠ format.archiveName names := by
  rintro rfl
  have last := isOutputName_getLast output
  rw [archiveName_getLast] at last
  exact absurd last (by decide)

theorem temporaryName_ne_output (token : Str) {name : Str} (output : isOutputName name = true) :
    name ≠ temporaryName token := by
  rintro rfl
  have last := isOutputName_getLast output
  rw [temporaryName_getLast] at last
  exact absurd last (by decide)

/-- A hidden file is not the source of a job. -/
theorem source_not_hidden (original : Str) (source : List UInt8) (rest : Str) :
    Folder.single (storedName original) (some source) (archivePrefix ++ rest) = none := by
  refine if_neg fun same => ?_
  have heads := congrArg List.head? same
  rw [storedName, List.head?_append_of_ne_nil _ (by decide),
    List.head?_append_of_ne_nil _ (by decide)] at heads
  exact absurd heads (by decide)

end Names

/-- A request knows some first outputs of the row by their names. -/
def Listed (s : ArchiveState) (names : List Str) (parts : List (Str × List UInt8)) : Prop :=
  parts <+: s.outputs ∧ names = parts.map Prod.fst

/-- What holds of a request. -/
def StageHolds (format : ArchiveFormat) (s : ArchiveState) : ArchiveStage → Prop
  | .idle => True
  | .listed names | .missing names | .serving names | .cleaning names _ _ =>
      ∃ parts, Listed s names parts
  | .building names _ parts rest =>
      ∃ all, Listed s names all ∧ parts <+: all ∧ names = parts.map Prod.fst ++ rest
  | .bundled names token =>
      ∃ parts, Listed s names parts ∧
        ∀ content, s.files (temporaryName token) = some content → content = format.zip parts

/-- This is a complete archive of some first outputs, under the name for the listed outputs. -/
def ArchiveOf (format : ArchiveFormat) (s : ArchiveState) (names : List Str)
    (content : List UInt8) : Prop :=
  ∃ parts, parts <+: s.outputs ∧
    format.archiveName names = format.archiveName (parts.map Prod.fst) ∧ content = format.zip parts

/-- Archives are complete, and each temporary file belongs to one request. -/
structure ArchiveInvariant (format : ArchiveFormat) (s : ArchiveState) : Prop where
  outputs : ∀ part ∈ s.outputs, isOutputName part.1 = true ∧
    (s.files part.1 = some part.2 ∨ s.files part.1 = none)
  archives : ∀ names content, s.files (format.archiveName names) = some content →
    ArchiveOf format s names content
  stages : ∀ request, StageHolds format s (s.requests request)
  owned : ∀ first second token, (s.requests first).token? = some token →
    (s.requests second).token? = some token → first = second
  known : ∀ request token, (s.requests request).token? = some token → token ∈ s.used
  leftover : ∀ token, s.files (temporaryName token) ≠ none →
    ∃ request, (s.requests request).token? = some token
  served : ∀ names content, (names, content) ∈ s.served →
    ArchiveOf format s names content ∧ ∃ parts, Listed s names parts

variable {format : ArchiveFormat} {s next : ArchiveState}

theorem Listed.mono {t : ArchiveState} {names : List Str} {parts : List (Str × List UInt8)}
    (listed : Listed s names parts) (grown : s.outputs <+: t.outputs) : Listed t names parts :=
  ⟨listed.1.trans grown, listed.2⟩

theorem ArchiveOf.mono {t : ArchiveState} {names : List Str} {content : List UInt8}
    (archived : ArchiveOf format s names content) (grown : s.outputs <+: t.outputs) :
    ArchiveOf format t names content := by
  obtain ⟨parts, first, named, complete⟩ := archived
  exact ⟨parts, first.trans grown, named, complete⟩

/-- A request stays as it is while the outputs grow and its temporary file is left or removed. -/
theorem StageHolds.mono {t : ArchiveState} {stage : ArchiveStage} (holds : StageHolds format s stage)
    (grown : s.outputs <+: t.outputs)
    (kept : ∀ names token content, stage = .bundled names token →
      t.files (temporaryName token) = some content → s.files (temporaryName token) = some content) :
    StageHolds format t stage := by
  cases stage with
  | idle => trivial
  | listed names | missing names | serving names | cleaning names token published =>
      obtain ⟨parts, listed⟩ := holds
      exact ⟨parts, listed.mono grown⟩
  | building names token parts rest =>
      obtain ⟨all, listed, added, split⟩ := holds
      exact ⟨all, listed.mono grown, added, split⟩
  | bundled names token =>
      obtain ⟨parts, listed, complete⟩ := holds
      exact ⟨parts, listed.mono grown, fun content file =>
        complete content (kept names token content rfl file)⟩

namespace ArchiveInvariant

theorem initial (format : ArchiveFormat) (original : Str) (source : List UInt8) :
    ArchiveInvariant format (.initial original source) where
  outputs := nofun
  archives names content file := by
    have absent := source_not_hidden original source (format.digest names ++ ofString ".zip")
    rw [← List.append_assoc] at absent
    cases absent.symm.trans file
  stages _ := trivial
  owned := nofun
  known := nofun
  leftover token file := by
    have absent := source_not_hidden original source (token ++ ofString ".partial")
    rw [← List.append_assoc] at absent
    exact absurd absent file
  served := nofun

/-- A request goes on with its temporary file, or without it when the file is gone. -/
theorem setStage (before : ArchiveInvariant format s) {request : Nat} {stage : ArchiveStage}
    (holds : StageHolds format s stage)
    (token : stage.token? = (s.requests request).token? ∨ stage.token? = none ∧
      ∀ token, (s.requests request).token? = some token → s.files (temporaryName token) = none) :
    ArchiveInvariant format (s.setRequest request stage) := by
  have tokens {other : Nat} {token' : Str}
      (has : ((s.setRequest request stage).requests other).token? = some token') :
      (s.requests other).token? = some token' := by
    simp only [ArchiveState.setRequest] at has
    by_cases same : other = request
    · subst same
      rw [Function.update_self] at has
      rcases token with kept | ⟨none_, _⟩
      · exact kept ▸ has
      · cases none_.symm.trans has
    · rwa [Function.update_of_ne same] at has
  refine ⟨before.outputs, before.archives, fun other => ?_, fun first second token' one two =>
    before.owned first second token' (tokens one) (tokens two),
    fun other token' has => before.known other token' (tokens has), fun token' file => ?_,
    before.served⟩
  · simp only [ArchiveState.setRequest]
    by_cases same : other = request
    · subst same
      rw [Function.update_self]
      exact holds.mono (List.prefix_refl _) fun _ _ _ _ file => file
    · rw [Function.update_of_ne same]
      exact (before.stages other).mono (List.prefix_refl _) fun _ _ _ _ file => file
  · obtain ⟨owner, has⟩ := before.leftover token' file
    refine ⟨owner, ?_⟩
    simp only [ArchiveState.setRequest]
    by_cases same : owner = request
    · subst same
      rw [Function.update_self]
      rcases token with kept | ⟨_, gone⟩
      · exact kept.trans has
      · exact absurd (gone token' has) file
    · rwa [Function.update_of_ne same]

/-- Files that are removed, or that are no output, archive or temporary file, change nothing. -/
theorem withFiles (before : ArchiveInvariant format s) {files : Str → Option (List UInt8)}
    (changed : ∀ name, files name = s.files name ∨ files name = none ∨
      name ∉ s.outputs.map Prod.fst ∧ (∀ names, name ≠ format.archiveName names) ∧
        ∀ token, name ≠ temporaryName token) :
    ArchiveInvariant format { s with files := files } := by
  have archive {names : List Str} {content : List UInt8}
      (file : files (format.archiveName names) = some content) :
      s.files (format.archiveName names) = some content := by
    rcases changed (format.archiveName names) with same | gone | ⟨_, other, _⟩
    · exact same ▸ file
    · cases gone.symm.trans file
    · exact absurd rfl (other names)
  have temporary {token : Str} {content : List UInt8}
      (file : files (temporaryName token) = some content) :
      s.files (temporaryName token) = some content := by
    rcases changed (temporaryName token) with same | gone | ⟨_, _, other⟩
    · exact same ▸ file
    · cases gone.symm.trans file
    · exact absurd rfl (other token)
  refine ⟨fun part member => ⟨(before.outputs part member).1, ?_⟩,
    fun names content file => before.archives names content (archive file),
    fun request => (before.stages request).mono (List.prefix_refl _) fun _ _ _ _ file =>
      temporary file, before.owned, before.known, fun token file => ?_, before.served⟩
  · rcases changed part.1 with same | gone | ⟨unrecorded, _⟩
    · dsimp only
      rw [same]
      exact (before.outputs part member).2
    · exact .inr gone
    · exact absurd (List.mem_map_of_mem member) unrecorded
  · obtain ⟨content, there⟩ := Option.ne_none_iff_exists'.mp file
    exact before.leftover token (by rw [temporary there]; exact Option.some_ne_none _)

theorem removeFile (before : ArchiveInvariant format s) (name : Str) :
    ArchiveInvariant format { s with files := Function.update s.files name none } := by
  refine before.withFiles fun other => ?_
  by_cases same : other = name
  · subst same
    exact .inr (.inl (Function.update_self _ _ _))
  · exact .inl (Function.update_of_ne same _ _)

/-- A request makes its temporary file under a name that no request has used. -/
theorem makeTemporary (before : ArchiveInvariant format s) {request : Nat} {names : List Str}
    {token : Str} (at_ : s.requests request = .missing names) (fresh : token ∉ s.used) :
    ArchiveInvariant format
      { s.setRequest request (.building names token [] names) with
        files := Function.update s.files (temporaryName token) (some [])
        used := token :: s.used } := by
  obtain ⟨parts, listed⟩ : StageHolds format s (.missing names) := at_ ▸ before.stages request
  have unowned : ∀ other, (s.requests other).token? ≠ some token := fun other has =>
    fresh (before.known other token has)
  have tokens {other : Nat} {token' : Str}
      (has : ((s.setRequest request (.building names token [] names)).requests other).token? =
        some token') :
      other = request ∧ token' = token ∨ other ≠ request ∧ (s.requests other).token? = some token' := by
    simp only [ArchiveState.setRequest] at has
    by_cases same : other = request
    · subst same
      rw [Function.update_self] at has
      exact .inl ⟨rfl, (Option.some.inj has).symm⟩
    · rw [Function.update_of_ne same] at has
      exact .inr ⟨same, has⟩
  refine ⟨fun part member => ?_, fun other content file => ?_, fun other => ?_,
    fun first second token' has has' => ?_, fun other token' has => ?_, fun token' file => ?_,
    before.served⟩
  · have output := (before.outputs part member).1
    refine ⟨output, ?_⟩
    dsimp only
    rw [Function.update_of_ne (temporaryName_ne_output token output)]
    exact (before.outputs part member).2
  · dsimp only at file
    rw [Function.update_of_ne (archiveName_ne_temporaryName other token)] at file
    exact before.archives other content file
  · simp only [ArchiveState.setRequest]
    by_cases same : other = request
    · subst same
      rw [Function.update_self]
      exact ⟨parts, listed, List.nil_prefix, rfl⟩
    · rw [Function.update_of_ne same]
      refine (before.stages other).mono (List.prefix_refl _) fun names' token' content is file => ?_
      dsimp only at file
      rwa [Function.update_of_ne] at file
      intro equal
      refine unowned other ?_
      rw [is, ← temporaryName_injective equal]
      rfl
  · rcases tokens has with ⟨rfl, rfl⟩ | ⟨_, old⟩
    · rcases tokens has' with ⟨rfl, _⟩ | ⟨_, old'⟩
      · rfl
      · exact absurd old' (unowned second)
    · rcases tokens has' with ⟨rfl, rfl⟩ | ⟨_, old'⟩
      · exact absurd old (unowned first)
      · exact before.owned first second token' old old'
  · rcases tokens has with ⟨_, rfl⟩ | ⟨_, old⟩
    · exact List.mem_cons_self
    · exact List.mem_cons_of_mem _ (before.known other token' old)
  · dsimp only at file ⊢
    by_cases same : token' = token
    · exact ⟨request, by simp only [ArchiveState.setRequest, Function.update_self, same]; rfl⟩
    · rw [Function.update_of_ne fun equal => same (temporaryName_injective equal)] at file
      obtain ⟨owner, has⟩ := before.leftover token' file
      refine ⟨owner, ?_⟩
      simp only [ArchiveState.setRequest]
      rw [Function.update_of_ne]
      · exact has
      · rintro rfl
        rw [at_] at has
        cases has

/-- A complete archive is put under its name. -/
theorem publish (before : ArchiveInvariant format s)
    {names : List Str} {parts : List (Str × List UInt8)} (listed : Listed s names parts) :
    ArchiveInvariant format
      { s with
        files := Function.update s.files (format.archiveName names) (some (format.zip parts)) } where
  outputs part member := by
    have output := (before.outputs part member).1
    refine ⟨output, ?_⟩
    dsimp only
    rw [Function.update_of_ne (archiveName_ne_output names output)]
    exact (before.outputs part member).2
  archives other content file := by
    dsimp only at file
    by_cases same : format.archiveName other = format.archiveName names
    · rw [same, Function.update_self] at file
      exact ⟨parts, listed.1, listed.2 ▸ same, (Option.some.inj file).symm⟩
    · rw [Function.update_of_ne same] at file
      exact before.archives other content file
  stages request := by
    refine (before.stages request).mono (List.prefix_refl _) fun _ token content _ file => ?_
    dsimp only at file
    rwa [Function.update_of_ne (archiveName_ne_temporaryName names token).symm] at file
  owned := before.owned
  known := before.known
  leftover token file := by
    dsimp only at file
    rw [Function.update_of_ne (archiveName_ne_temporaryName names token).symm] at file
    exact before.leftover token file
  served := before.served

/-- The owner of a temporary file that it has not closed writes to it. -/
theorem writeTemporary (before : ArchiveInvariant format s) {request : Nat} {names rest : List Str}
    {token : Str} {parts : List (Str × List UInt8)}
    (building : s.requests request = .building names token parts rest) (content : List UInt8) :
    ArchiveInvariant format (s.writeTemporary token content) := by
  have own : (s.requests request).token? = some token := by rw [building]; rfl
  refine ⟨fun part member => ?_, fun other archived file => ?_, fun other => ?_, before.owned,
    before.known, fun token' file => ?_, before.served⟩
  · have output := (before.outputs part member).1
    refine ⟨output, ?_⟩
    simp only [ArchiveState.writeTemporary]
    rw [Function.update_of_ne (temporaryName_ne_output token output)]
    exact (before.outputs part member).2
  · simp only [ArchiveState.writeTemporary] at file
    rw [Function.update_of_ne (archiveName_ne_temporaryName other token)] at file
    exact before.archives other archived file
  · refine (before.stages other).mono (List.prefix_refl _) fun names' token' written at_ file => ?_
    simp only [ArchiveState.writeTemporary] at file
    by_cases same : temporaryName token' = temporaryName token
    · -- The two requests would be one, and it has not closed its archive.
      have one := before.owned other request token (by
        rw [at_, ← temporaryName_injective same]
        rfl) own
      rw [one, building] at at_
      cases at_
    · rwa [Function.update_of_ne same] at file
  · simp only [ArchiveState.writeTemporary] at file
    by_cases same : temporaryName token' = temporaryName token
    · exact ⟨request, temporaryName_injective same ▸ own⟩
    · rw [Function.update_of_ne same] at file
      exact before.leftover token' file

/-- The file that is added next is the output that the worker recorded. -/
theorem addPart (before : ArchiveInvariant format s) {names rest : List Str} {token name : Str}
    {parts : List (Str × List UInt8)} {content : List UInt8}
    (holds : StageHolds format s (.building names token parts (name :: rest)))
    (file : s.files name = some content) :
    StageHolds format s (.building names token (parts ++ [(name, content)]) rest) := by
  obtain ⟨all, listed, ⟨tail, rfl⟩, split⟩ := holds
  have same := listed.2.symm.trans split
  rw [List.map_append] at same
  have names_ := List.append_cancel_left same
  cases tail with
  | nil => cases names_
  | cons part tail =>
      obtain ⟨rfl, rfl⟩ := List.cons.inj names_
      have recorded := listed.1.subset (List.mem_append_right parts List.mem_cons_self)
      have content_ : content = part.2 := by
        rcases (before.outputs part recorded).2 with there | gone
        · exact Option.some.inj (file.symm.trans there)
        · cases gone.symm.trans file
      subst content_
      refine ⟨_, listed, ⟨tail, List.append_assoc ..⟩, ?_⟩
      rw [split, List.map_append, List.append_assoc]
      rfl

/-- When all files are added, the archive is that of the listed outputs. -/
theorem closeBundle {names : List Str} {token : Str} {parts : List (Str × List UInt8)}
    (holds : StageHolds format s (.building names token parts [])) : Listed s names parts := by
  obtain ⟨all, listed, added, split⟩ := holds
  rw [List.append_nil] at split
  have lengths := congrArg List.length (listed.2.symm.trans split)
  rw [List.length_map, List.length_map] at lengths
  exact added.eq_of_length lengths.symm ▸ listed

theorem step (before : ArchiveInvariant format s)
    {event : ArchiveEvent} (stepped : s.step format event = some next) :
    ArchiveInvariant format next := by
  cases event with
  | writeOutput name content =>
      simp only [ArchiveState.step] at stepped
      split at stepped
      · next new =>
          cases stepped
          refine before.withFiles fun other => ?_
          by_cases same : other = name
          · subst same
            exact .inr (.inr ⟨new.2, fun names => archiveName_ne_output names new.1,
              fun token => temporaryName_ne_output token new.1⟩)
          · exact .inl (Function.update_of_ne same _ _)
      · cases stepped
  | recordOutput name =>
      simp only [ArchiveState.step] at stepped
      split at stepped
      · next new =>
          obtain ⟨content, file, rfl⟩ := Option.map_eq_some_iff.mp stepped
          have grown : s.outputs <+: s.outputs ++ [(name, content)] := List.prefix_append _ _
          refine ⟨fun part member => ?_, fun names archived there => ?_, fun request =>
            (before.stages request).mono grown fun _ _ _ _ file => file, before.owned, before.known,
            before.leftover, fun names archived sent => ?_⟩
          · rcases List.mem_append.mp member with old | last
            · exact before.outputs part old
            · rw [List.mem_singleton.mp last]
              exact ⟨new.1, .inl file⟩
          · exact (before.archives names archived there).mono grown
          · obtain ⟨complete, parts, listed⟩ := before.served names archived sent
            exact ⟨complete.mono grown, parts, listed.mono grown⟩
      · cases stepped
  | removeFile name =>
      cases stepped
      exact before.removeFile name
  | listOutputs request =>
      simp only [ArchiveState.step] at stepped
      split at stepped
      · next at_ =>
          split at stepped
          · cases stepped
            exact before.setStage ⟨s.outputs, List.prefix_refl _, rfl⟩ (.inl (by rw [at_]; rfl))
          · cases stepped
      · cases stepped
  | archiveExists request =>
      simp only [ArchiveState.step] at stepped
      split at stepped
      · next names at_ =>
          have holds := at_ ▸ before.stages request
          split at stepped <;> cases stepped <;>
            exact before.setStage holds (.inl (by rw [at_]; rfl))
      · cases stepped
  | makeTemporary request token =>
      simp only [ArchiveState.step] at stepped
      split at stepped
      · next names at_ =>
          split at stepped
          · next free =>
              cases stepped
              exact before.makeTemporary at_ free.1
          · cases stepped
      · cases stepped
  | addPart request flushed =>
      simp only [ArchiveState.step] at stepped
      split at stepped
      · next names token parts name rest at_ =>
          have holds := at_ ▸ before.stages request
          split at stepped
          · next content file =>
              cases stepped
              have written := before.writeTemporary at_ flushed
              refine written.setStage ?_ (.inl (by rw [ArchiveState.writeTemporary, at_]; rfl))
              exact (before.addPart holds file).mono (List.prefix_refl _) nofun
          · cases stepped
            obtain ⟨all, listed, _⟩ := holds
            exact before.setStage ⟨all, listed⟩ (.inl (by rw [at_]; rfl))
      · cases stepped
  | closeBundle request =>
      simp only [ArchiveState.step] at stepped
      split at stepped
      · next names token parts at_ =>
          cases stepped
          have listed := closeBundle (at_ ▸ before.stages request)
          have written := before.writeTemporary at_ (format.zip parts)
          refine written.setStage ⟨parts, listed, fun content file => ?_⟩
            (.inl (by rw [ArchiveState.writeTemporary, at_]; rfl))
          simp only [ArchiveState.writeTemporary, Function.update_self] at file
          obtain ⟨_, _, rfl⟩ := Option.map_eq_some_iff.mp file
          rfl
      · cases stepped
  | replace request refused =>
      simp only [ArchiveState.step] at stepped
      split at stepped
      · next names token at_ =>
          obtain ⟨parts, listed, complete⟩ : StageHolds format s (.bundled names token) :=
            at_ ▸ before.stages request
          split at stepped
          · cases stepped
            exact before.setStage ⟨parts, listed⟩ (.inl (by rw [at_]; rfl))
          · next content file =>
              split at stepped
              · cases stepped
                exact before.setStage ⟨parts, listed⟩ (.inl (by rw [at_]; rfl))
              · cases stepped
                rw [complete content file]
                exact ((before.removeFile (temporaryName token)).publish listed).setStage ⟨parts, listed⟩
                  (.inl (by rw [at_]; rfl))
      · cases stepped
  | unlink request =>
      simp only [ArchiveState.step] at stepped
      split at stepped
      · next names token published at_ =>
          cases stepped
          have listed : StageHolds format s (.cleaning names token published) :=
            at_ ▸ before.stages request
          have gone : ∀ own, (s.requests request).token? = some own →
              Function.update s.files (temporaryName token) none (temporaryName own) = none := by
            intro own has
            rw [at_] at has
            cases has
            exact Function.update_self _ _ _
          have removed := before.removeFile (temporaryName token)
          cases published with
          | true => exact removed.setStage listed (.inr ⟨rfl, gone⟩)
          | false => exact removed.setStage trivial (.inr ⟨rfl, gone⟩)
      · cases stepped
  | send request =>
      simp only [ArchiveState.step] at stepped
      split at stepped
      · next names at_ =>
          split at stepped
          · next content file =>
              cases stepped
              have listed : StageHolds format s (.serving names) := at_ ▸ before.stages request
              have idle : ArchiveInvariant format (s.setRequest request .idle) :=
                before.setStage trivial (.inl (by rw [at_]; rfl))
              exact { idle with
                served := fun other archived sent => by
                  rcases List.mem_cons.mp sent with same | old
                  · cases same
                    exact ⟨before.archives names content file, listed⟩
                  · exact before.served other archived old }
          · cases stepped
            exact before.setStage trivial (.inl (by rw [at_]; rfl))
      · cases stepped
  | fail request =>
      simp only [ArchiveState.step] at stepped
      split at stepped
      · next names token parts rest at_ =>
          cases stepped
          obtain ⟨all, listed, _⟩ : StageHolds format s (.building names token parts rest) :=
            at_ ▸ before.stages request
          exact before.setStage ⟨all, listed⟩ (.inl (by rw [at_]; rfl))
      · next names token at_ =>
          cases stepped
          obtain ⟨parts, listed, _⟩ : StageHolds format s (.bundled names token) :=
            at_ ▸ before.stages request
          exact before.setStage ⟨parts, listed⟩ (.inl (by rw [at_]; rfl))
      · next names token published at_ =>
          cases stepped
          obtain ⟨parts, listed⟩ : StageHolds format s (.cleaning names token published) :=
            at_ ▸ before.stages request
          exact before.setStage ⟨parts, listed⟩ (.inl (by rw [at_]; rfl))
      · next building bundled cleaning =>
          cases stepped
          refine before.setStage trivial (.inl ?_)
          cases at_ : s.requests request with
          | building names token parts rest => exact absurd at_ (building names token parts rest)
          | bundled names token => exact absurd at_ (bundled names token)
          | cleaning names token published => exact absurd at_ (cleaning names token published)
          | _ => rfl

end ArchiveInvariant

/-- Requests build and publish the archive of a job while the worker adds outputs and the job is
removed. When the digest tells the lists of first outputs apart, each archive that is sent holds
the files of exactly the listed outputs, with the content they were recorded with. A recorded
output is unchanged while it is there, and a temporary file remains only with its request. -/
theorem archives_served_complete (original : Str) (source : List UInt8) {events : List ArchiveEvent}
    {last : ArchiveState}
    (ran : Machine.run (ArchiveState.step format) (.initial original source) events = some last)
    (distinct : ∀ first second, first <+: last.outputs → second <+: last.outputs →
      format.digest (first.map Prod.fst) = format.digest (second.map Prod.fst) →
        first.map Prod.fst = second.map Prod.fst) :
    (∀ names content, (names, content) ∈ last.served → ∃ parts, parts <+: last.outputs ∧
      names = parts.map Prod.fst ∧ content = format.zip parts) ∧
    (∀ part ∈ last.outputs, last.files part.1 = some part.2 ∨ last.files part.1 = none) ∧
    ∀ token, last.files (temporaryName token) ≠ none →
      ∃ request, (last.requests request).token? = some token := by
  have holds := Machine.run_invariant (ArchiveInvariant format)
    (fun _ _ _ before stepped => before.step stepped) (.initial format original source) ran
  refine ⟨fun names content sent => ?_, fun part member => (holds.outputs part member).2,
    holds.leftover⟩
  obtain ⟨⟨parts, first, named, complete⟩, listed, listing, rfl⟩ := holds.served names content sent
  exact ⟨parts, first, distinct listed parts listing first (archiveName_digest named), complete⟩

def sampleFormat : ArchiveFormat where
  digest := List.flatten
  zip parts := parts.flatMap Prod.snd

/-- A request builds its archive while the worker adds a third file for the next request. -/
def sampleArchives : List ArchiveEvent :=
  let first := ofString "film.fr.srt"
  let second := ofString "film.de.srt"
  let third := ofString "film.it.srt"
  [.writeOutput first [1], .recordOutput first, .writeOutput second [2], .recordOutput second,
    .listOutputs 0, .archiveExists 0, .makeTemporary 0 (ofString "a"), .addPart 0 [],
    .writeOutput third [3], .recordOutput third, .listOutputs 1, .archiveExists 1,
    .makeTemporary 1 (ofString "b"), .addPart 1 [1], .addPart 0 [1], .closeBundle 0,
    .replace 0 false, .unlink 0, .send 0, .addPart 1 [1], .addPart 1 [1, 2], .closeBundle 1,
    .replace 1 false, .unlink 1, .send 1]

theorem archives_served_complete_example :
    ∃ last, Machine.run (ArchiveState.step sampleFormat)
        (.initial (ofString "film.srt") [0]) sampleArchives = some last ∧
      last.served.map Prod.snd = [[1, 2, 3], [1, 2]] ∧
      ∀ names content, (names, content) ∈ last.served →
        ∃ parts, parts <+: last.outputs ∧ names = parts.map Prod.fst ∧
          content = parts.flatMap Prod.snd := by
  have sends : ((Machine.run (ArchiveState.step sampleFormat)
      (.initial (ofString "film.srt") [0]) sampleArchives).any fun last =>
        decide (last.served.map Prod.snd = [[1, 2, 3], [1, 2]]) &&
          last.outputs.inits.all fun first => last.outputs.inits.all fun second =>
            decide ((first.map Prod.fst).flatten = (second.map Prod.fst).flatten →
              first.map Prod.fst = second.map Prod.fst)) = true := by
    decide +kernel
  obtain ⟨last, ran, holds⟩ := (Option.any_eq_true _ _).mp sends
  obtain ⟨served, apart⟩ := Bool.and_eq_true_iff.mp holds
  refine ⟨last, ran, of_decide_eq_true served, (archives_served_complete _ _ ran ?_).1⟩
  intro first second listed listed'
  exact of_decide_eq_true (List.all_eq_true.mp
    (List.all_eq_true.mp apart first ((List.mem_inits _ _).mpr listed)) second
      ((List.mem_inits _ _).mpr listed'))

end SubtitleTranslator.Jobs
