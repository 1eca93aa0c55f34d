import SubtitleTranslator.Proof.NumberedRoundTrip
import SubtitleTranslator.Proof.ProviderReplies

namespace SubtitleTranslator.Engine
open Library Library.Text Library.Fallible

/-- The texts of a list under a key of a payload. -/
def payloadTexts (key : String) (payload : Json) : Option (List Str) := do
  let entries ← payload.object?
  match Json.find entries key with
  | some (.array items) => items.mapM Json.text?
  | _ => none

/-- The content of a message of the user. -/
def userContent (message : Json) : Option Str := do
  let entries ← message.object?
  if (Json.find entries "role").bind Json.text? = some (ofString "user") then
    (Json.find entries "content").bind Json.text?
  else none

/-- The message of the user in a chat. -/
def userMessage (payload : Json) : Option Str := do
  let entries ← payload.object?
  match Json.find entries "messages" with
  | some (.array messages) => messages.findSome? userContent
  | _ => none

/-- A text has the lines of some entries in any order. -/
def Writes (entries : List EntryText) (out : Str) : Prop :=
  ∃ order : List (Fin entries.length), order.Perm (List.finRange entries.length) ∧
    splitlines out = order.map (entryLine entries)

/-- A list has an item for each text, with its translation under a key. -/
def Lists (key : String) (read : Str → Option Str) (f : Str → Str) (texts : List Str)
    (list : Json) : Prop :=
  ∃ items, list = .array items ∧ List.Forall₂ (fun item text => ∃ written,
    item.item key = .ok (.string written) ∧ read written = some (f text)) items texts

/-- The bytes that a service sends are an object. -/
def Sends (outside : Outside) (exchange : Exchange) (resp : List (Str × Json)) : Prop :=
  ∃ raw, exchange = .answers raw ∧ outside.loads raw = .value (.object resp)

/-- The services that translate each text of a request by a function, in the format of a provider.
A language model answers a numbered prompt with the numbered translations in any order. -/
inductive Translates (outside : Outside) (f : Str → Str) : Str → (HttpRequest → Exchange) → Prop where
  | anthropic {service : HttpRequest → Exchange}
      (answers : ∀ request (entries translated : List EntryText),
        userMessage request.payload = some (numberedPrompt (entries.map EntryText.text)) →
        translated.map EntryText.text = entries.map (f ·.text) →
        ∃ resp blocks found parts, Sends outside (service request) resp ∧
          Json.find resp "content" = some (.array blocks) ∧ textParts blocks = some found ∧
          (found.mapM fun part => part.bind Json.text?) = some parts ∧
          Writes translated parts.flatten) :
      Translates outside f (ofString "anthropic") service
  | openai {service : HttpRequest → Exchange}
      (answers : ∀ request (entries translated : List EntryText),
        userMessage request.payload = some (numberedPrompt (entries.map EntryText.text)) →
        translated.map EntryText.text = entries.map (f ·.text) →
        ∃ resp out, Sends outside (service request) resp ∧ chatContent resp = .ok (.string out) ∧
          Writes translated out) :
      Translates outside f (ofString "openai") service
  | deepl {service : HttpRequest → Exchange}
      (answers : ∀ request texts, payloadTexts "text" request.payload = some texts →
        ∃ resp list, Sends outside (service request) resp ∧
          (Json.object resp).item "translations" = .ok list ∧ Lists "text" some f texts list) :
      Translates outside f (ofString "deepl") service
  | google {service : HttpRequest → Exchange}
      (answers : ∀ request texts, payloadTexts "q" request.payload = some texts →
        ∃ resp list, Sends outside (service request) resp ∧
          ((Json.object resp).item "data" >>= Json.item "translations") = .ok list ∧
          Lists "translatedText" outside.unescape f texts list) :
      Translates outside f (ofString "google") service

/-- A text that can be an entry of the numbered protocol. -/
structure IsEntry (text : Str) : Prop where
  nonempty : text ≠ []
  trimmed : strip text = text
  oneLine : text.any isLineBreak = false

/-- The translation of a text keeps its sentinels. For a language model both are entries, and no
separator starts the translation. -/
structure Suits (f : Str → Str) (name text : Str) : Prop where
  accepted : AcceptedLine text (some (f text))
  lines : name = ofString "anthropic" ∨ name = ofString "openai" →
    IsEntry text ∧ IsEntry (f text) ∧ startsWithSeparator (f text) = false

theorem exists_entries {texts : List Str} (each : ∀ text ∈ texts, IsEntry text) :
    ∃ entries : List EntryText, entries.map EntryText.text = texts := by
  induction texts with
  | nil => exact ⟨[], rfl⟩
  | cons text texts ih =>
      rw [List.forall_mem_cons] at each
      obtain ⟨first, later⟩ := each
      obtain ⟨entries, same⟩ := ih later
      exact ⟨⟨text, first.nonempty, first.trimmed, first.oneLine⟩ :: entries, by
        rw [List.map_cons, same]⟩

/-- What a service writes for some entries is read as their texts. -/
theorem Writes.parseNumbered {entries : List EntryText} {out : Str} (writes : Writes entries out)
    (small : entries.length ≤ 128)
    (plain : ∀ entry ∈ entries, startsWithSeparator entry.text = false) :
    parseNumbered out entries.length = .ok (entries.map EntryText.text) := by
  obtain ⟨order, complete, written⟩ := writes
  have few : entries.length < 10 ^ maxStrDigits :=
    (small.trans_lt (by decide : 128 < 10 ^ 3)).trans_le
      (Nat.pow_le_pow_right (by decide) (by decide))
  rw [parseNumbered_kept entries complete written few, List.map_congr_left]
  exact fun entry member => (keptText_eq_iff entry).mpr (plain entry member)

/-- The texts that a service lists are read as the translations. -/
theorem Lists.itemTexts {key : String} {read : Str → Option Str} {f : Str → Str} {texts : List Str}
    {list : Json} (lists : Lists key read f texts list) :
    itemTexts key read texts.length list = .ok (texts.map f) := by
  obtain ⟨items, rfl, each⟩ := lists
  rw [Engine.itemTexts, if_neg (not_not.mpr each.length_eq), mapM_ok, List.forall₂_map_right_iff]
  refine each.imp fun item text listed => ?_
  obtain ⟨written, found, same⟩ := listed
  simp only [found, Except.mapError, same, bind, Except.bind]

/-- A request whose answer is an object goes on with it. -/
theorem post_sends {outside : Outside} {service : HttpRequest → Exchange} {request : HttpRequest}
    {resp : List (Str × Json)} (sends : Sends outside (service request) resp)
    (next : List (Str × Json) → Except Failure (List Str)) :
    (outside.postJson service request >>= next) = next resp := by
  obtain ⟨raw, ended, object⟩ := sends
  have posted : outside.postJson service request = .ok resp := by
    rw [Outside.postJson, ended]
    dsimp only
    rw [object]
  rw [posted]
  rfl

theorem mapM_text?_string (texts : List Str) :
    (texts.map Json.string).mapM Json.text? = some texts := by
  induction texts with
  | nil => rfl
  | cons text texts ih =>
      rw [List.map_cons, List.mapM_cons, ih]
      rfl

section Client
variable {outside : Outside} {f : Str → Str} {service : HttpRequest → Exchange} {texts : List Str}

/-- The texts of a batch and their translations as entries. -/
theorem exists_translated {name : Str}
    (model : name = ofString "anthropic" ∨ name = ofString "openai")
    (suits : ∀ text ∈ texts, Suits f name text) :
    ∃ entries translated : List EntryText, entries.map EntryText.text = texts ∧
      translated.map EntryText.text = texts.map f ∧
      ∀ entry ∈ translated, startsWithSeparator entry.text = false := by
  obtain ⟨entries, same⟩ := exists_entries fun text member => ((suits text member).lines model).1
  have images : ∀ text ∈ texts.map f, IsEntry text ∧ startsWithSeparator text = false := by
    rw [List.forall_mem_map]
    exact fun text member => ((suits text member).lines model).2
  obtain ⟨translated, written⟩ := exists_entries fun text member => (images text member).1
  refine ⟨entries, translated, same, written, fun entry member => ?_⟩
  have listed : entry.text ∈ texts.map f := by
    rw [← written]
    exact List.mem_map_of_mem member
  exact (images entry.text listed).2

/-- What a model writes is read as the translations of the texts. -/
theorem Writes.translations {translated : List EntryText} {out : Str} (writes : Writes translated out)
    (written : translated.map EntryText.text = texts.map f) (small : texts.length ≤ 128)
    (plain : ∀ entry ∈ translated, startsWithSeparator entry.text = false) :
    Engine.parseNumbered out texts.length = .ok (texts.map f) := by
  have count : translated.length = texts.length := by
    have lengths := congrArg List.length written
    rwa [List.length_map, List.length_map] at lengths
  rw [← count, writes.parseNumbered (count.trans_le small) plain, written]

theorem makeAnthropic_translates
    (translates : Translates outside f (ofString "anthropic") service) (small : texts.length ≤ 128)
    (suits : ∀ text ∈ texts, Suits f (ofString "anthropic") text) (model apiKey src : Str)
    (target : Language) :
    makeAnthropic model apiKey (outside.postJson service) texts src target = .ok (texts.map f) := by
  obtain ⟨entries, translated, rfl, written, plain⟩ := exists_translated (.inl rfl) suits
  cases translates with
  | anthropic answers =>
      unfold makeAnthropic
      generalize sent : HttpRequest.mk _ _ _ = request
      have asked : userMessage request.payload =
          some (numberedPrompt (entries.map EntryText.text)) := by
        rw [← sent]
        rfl
      obtain ⟨resp, blocks, found, parts, sends, content, strings, texts, writes⟩ :=
        answers request entries translated asked (written.trans (List.map_map))
      rw [post_sends sends]
      dsimp only
      rw [content]
      dsimp only
      rw [strings]
      dsimp only
      rw [texts]
      exact writes.translations written small plain

theorem makeOpenai_translates
    (translates : Translates outside f (ofString "openai") service) (small : texts.length ≤ 128)
    (suits : ∀ text ∈ texts, Suits f (ofString "openai") text) (model apiKey baseUrl src : Str)
    (target : Language) :
    makeOpenai model apiKey baseUrl (outside.postJson service) texts src target =
      .ok (texts.map f) := by
  obtain ⟨entries, translated, rfl, written, plain⟩ := exists_translated (.inr rfl) suits
  cases translates with
  | openai answers =>
      unfold makeOpenai
      generalize sent : HttpRequest.mk _ _ _ = request
      have asked : userMessage request.payload =
          some (numberedPrompt (entries.map EntryText.text)) := by
        rw [← sent]
        rfl
      obtain ⟨resp, out, sends, content, writes⟩ :=
        answers request entries translated asked (written.trans (List.map_map))
      rw [post_sends sends, content]
      exact writes.translations written small plain

theorem makeDeepl_translates (translates : Translates outside f (ofString "deepl") service)
    (apiKey src : Str) (target : Language) :
    makeDeepl apiKey (outside.postJson service) texts src target = .ok (texts.map f) := by
  cases translates with
  | deepl answers =>
      unfold makeDeepl
      dsimp only
      generalize sent : HttpRequest.mk _ _ _ = request
      have asked : payloadTexts "text" request.payload = some texts := by
        rw [← sent]
        exact mapM_text?_string texts
      obtain ⟨resp, list, sends, found, lists⟩ := answers request texts asked
      rw [post_sends sends, found]
      dsimp only [Except.mapError, bind, Except.bind]
      rw [lists.itemTexts]

theorem makeGoogle_translates (translates : Translates outside f (ofString "google") service)
    (small : texts.length ≤ 128) (quotedKey src : Str) (target : Language) :
    outside.makeGoogle quotedKey (outside.postJson service) texts src target =
      .ok (texts.map f) := by
  cases translates with
  | google answers =>
      unfold Outside.makeGoogle
      rw [if_neg (Nat.not_lt.mpr small)]
      generalize sent : HttpRequest.mk _ _ _ = request
      have asked : payloadTexts "q" request.payload = some texts := by
        rw [← sent]
        exact mapM_text?_string texts
      obtain ⟨resp, list, sends, found, lists⟩ := answers request texts asked
      rw [post_sends sends, found]
      dsimp only [Except.mapError, bind, Except.bind]
      rw [lists.itemTexts]

/-- A client whose service translates gets the translations in the order of the texts. -/
theorem Translates.client {name : Str} (translates : Translates outside f name service)
    {debug : Bool} {settings : Str → Option Str} {model : Option Str} {client : Client}
    (made : outside.providerFor debug settings name model = .ok client)
    (small : texts.length ≤ 128) (suits : ∀ text ∈ texts, Suits f name text) (src : Str)
    (target : Language) :
    client (outside.postJson service) texts src target = .ok (texts.map f) := by
  have whole := translates
  unfold Outside.providerFor at made
  cases translates with
  | anthropic answers =>
      rw [if_neg (by decide), if_pos rfl] at made
      obtain ⟨key, _, made⟩ := bind_ok.mp made
      obtain ⟨model, _, made⟩ := bind_ok.mp made
      cases made
      exact makeAnthropic_translates whole small suits model key src target
  | openai answers =>
      rw [if_neg (by decide), if_neg (by decide), if_pos rfl] at made
      obtain ⟨key, _, made⟩ := bind_ok.mp made
      obtain ⟨model, _, made⟩ := bind_ok.mp made
      split at made
      · cases made
        exact makeOpenai_translates whole small suits model key _ src target
      · cases made
  | deepl answers =>
      rw [if_neg (by decide), if_neg (by decide), if_neg (by decide), if_pos rfl] at made
      obtain ⟨key, _, made⟩ := bind_ok.mp made
      cases made
      exact makeDeepl_translates whole key src target
  | google answers =>
      rw [if_neg (by decide), if_neg (by decide), if_neg (by decide), if_neg (by decide),
        if_pos rfl] at made
      obtain ⟨key, _, made⟩ := bind_ok.mp made
      split at made
      · cases made
        exact makeGoogle_translates whole small _ src target
      · cases made

end Client

/-- A provider call is within the limit of the clients and has suitable texts. -/
def CallFits (suits : Language → Str → Prop) (call : ProviderCall) : Prop :=
  call.texts.length ≤ 128 ∧ ∀ text ∈ call.texts, suits call.target text

/-- The validation accepts the answer of a call. -/
def ProviderCall.Accepted (call : ProviderCall) : Prop := ∃ output, call.outcome = .ok output

section Driver
variable {request : Request} {suits : Language → Str → Prop}

theorem callWithRetry_fits {texts : List Str} {label : Str} {soft limited : Nat}
    {script : List Attempt} {called : Called (List Str)}
    (ran : callWithRetry request texts label soft limited script = some called)
    (small : texts.length ≤ 128) (each : ∀ text ∈ texts, suits request.target text) :
    ∀ call ∈ called.calls, CallFits suits call := by
  induction script generalizing soft limited called with
  | nil => cases ran
  | cons attempt rest ih =>
      rw [callWithRetry] at ran
      split at ran
      · cases ran
        exact List.forall_mem_nil _
      · dsimp only at ran
        split at ran
        · cases ran
          exact List.forall_mem_singleton.mpr ⟨small, each⟩
        · split at ran
          · cases ran
            exact List.forall_mem_singleton.mpr ⟨small, each⟩
          · split at ran
            · cases ran
              exact List.forall_mem_singleton.mpr ⟨small, each⟩
            · obtain ⟨later, again, rfl⟩ := Option.map_eq_some_iff.mp ran
              exact List.forall_mem_cons.mpr ⟨⟨small, each⟩, ih again⟩

theorem runLines_fits {texts : List Str} {script : List Attempt} {called : Called (List Line)}
    (ran : runLines request texts script = some called)
    (each : ∀ text ∈ texts, suits request.target text) :
    ∀ call ∈ called.calls, CallFits suits call := by
  induction texts generalizing script called with
  | nil =>
      cases ran
      exact List.forall_mem_nil _
  | cons text texts ih =>
      rw [List.forall_mem_cons] at each
      obtain ⟨first, tried, continued⟩ := Option.bind_eq_some_iff.mp ran
      have front := callWithRetry_fits tried (show 1 ≤ 128 by decide)
        (List.forall_mem_singleton.mpr each.1)
      cases lined : lineOf text first.outcome with
      | error met =>
          rw [lined] at continued
          cases continued
          exact front
      | ok line =>
          rw [lined] at continued
          obtain ⟨others, later, whole⟩ := Option.bind_eq_some_iff.mp continued
          cases whole
          exact List.forall_mem_append.mpr ⟨front, ih later each.2⟩

theorem runBatch_fits {texts : List Str} {script : List Attempt} {called : Called (List Line)}
    (ran : runBatch request texts script = some called) (small : texts.length ≤ 128)
    (each : ∀ text ∈ texts, suits request.target text) :
    ∀ call ∈ called.calls, CallFits suits call := by
  obtain ⟨first, tried, continued⟩ := Option.bind_eq_some_iff.mp ran
  have front := callWithRetry_fits tried small each
  split at continued
  · cases continued
    exact front
  · split at continued
    · cases continued
      exact front
    · obtain ⟨others, later, whole⟩ := Option.bind_eq_some_iff.mp continued
      cases whole
      exact List.forall_mem_append.mpr ⟨front, runLines_fits later each⟩
  · cases continued
    exact front

/-- A round in which every call is accepted succeeds, if it is not canceled. -/
theorem callWithRetry_accepted {texts : List Str} {label : Str} {soft limited : Nat}
    {script : List Attempt} {called : Called (List Str)}
    (ran : callWithRetry request texts label soft limited script = some called)
    (accepted : ∀ call ∈ called.calls, call.Accepted) :
    called.outcome = .error .canceled ∨ ∃ output, called.outcome = .ok output := by
  cases script with
  | nil => cases ran
  | cons attempt rest =>
      have refuted {met : Failure} (checked : checkedAnswer texts attempt = .error met)
          (there : ∃ more, called.calls =
            ⟨texts, request.src, request.target, attempt.answer⟩ :: more) : met = .canceled := by
        refine (checkedAnswer_failed checked request.src request.target).resolve_right fun failed => ?_
        obtain ⟨more, calls⟩ := there
        rw [calls] at accepted
        obtain ⟨output, succeeded⟩ := accepted _ List.mem_cons_self
        rw [failed] at succeeded
        cases succeeded
      rw [callWithRetry] at ran
      split at ran
      · cases ran
        exact .inl rfl
      · dsimp only at ran
        split at ran
        · cases ran
          exact .inr ⟨_, rfl⟩
        · next met checked =>
            split at ran
            · next raised counted =>
                cases ran
                have canceled := refuted checked ⟨[], rfl⟩
                rw [canceled] at counted
                cases counted
                exact .inl rfl
            · next budgets counted =>
                have canceled : met = .canceled := by
                  split at ran
                  · cases ran
                    exact refuted checked ⟨[], rfl⟩
                  · obtain ⟨later, _, rfl⟩ := Option.map_eq_some_iff.mp ran
                    exact refuted checked ⟨later.calls, rfl⟩
                rw [canceled] at counted
                cases counted

/-- A batch in which every call is accepted passes no line through. -/
theorem runBatch_accepted {texts : List Str} {script : List Attempt} {called : Called (List Line)}
    {lines : List Line} (ran : runBatch request texts script = some called)
    (accepted : ∀ call ∈ called.calls, call.Accepted) (done : called.outcome = .ok lines) :
    ∀ line ∈ lines, line.passedThrough = false := by
  obtain ⟨first, tried, continued⟩ := Option.bind_eq_some_iff.mp ran
  have retried (message : Str) (outcome : first.outcome = .error (.translation message))
      (front : first.calls ⊆ called.calls) : False := by
    rcases callWithRetry_accepted tried fun call member => accepted call (front member) with
      canceled | ⟨output, succeeded⟩
    · rw [outcome] at canceled
      cases canceled
    · rw [outcome] at succeeded
      cases succeeded
  split at continued
  · cases continued
    cases done
    exact List.forall_mem_map.mpr fun _ _ => rfl
  · next message outcome =>
      split at continued
      · cases continued
        exact (retried message outcome (List.Subset.refl _)).elim
      · obtain ⟨others, later, whole⟩ := Option.bind_eq_some_iff.mp continued
        cases whole
        exact (retried message outcome (List.subset_append_left _ _)).elim
  · cases continued
    cases done

end Driver

section Loop
variable {Key : Type} [DecidableEq Key] {digest : Str → Key} {request : Request}
variable {suits : Language → Str → Prop}

/-- The batches that are left are small, every call fits, and accepted calls leave no fallback. -/
structure LoopState.Fitting (request : Request) (suits : Language → Str → Prop)
    (s : LoopState Key) : Prop where
  small : ∀ batch ∈ s.pending, batch.length ≤ request.batchSize
  calls : ∀ call ∈ s.calls, CallFits suits call
  clean : (∀ call ∈ s.calls, call.Accepted) → s.fallbacks = []

/-- The requests that a run of calls may have. -/
structure Request.Suitable (suits : Language → Str → Prop) (request : Request) : Prop where
  size : request.batchSize ≤ 128
  texts : ∀ seg ∈ request.segs, needsTranslation seg = true → suits request.target seg.text

omit [DecidableEq Key] in
theorem LoopState.start_fitting {cache : Key → Option Str} {calls : List ProviderCall}
    {first : LoopState Key} (started : LoopState.start digest request cache calls = .ok first)
    (fits : ∀ call ∈ calls, CallFits suits call) :
    first.Fitting request suits ∧ first.calls = calls := by
  obtain ⟨results, _, whole⟩ := bind_ok.mp started
  cases whole
  refine ⟨?_, rfl⟩
  exact {
    small := fun batch member => length_of_mem_slices member
    calls := fits
    clean := fun _ => rfl }

theorem LoopState.Fitting.step (suitable : request.Suitable suits) {todo : List Nat}
    {s next : LoopState Key} {event : LoopEvent} (consistent : s.Consistent digest request todo)
    (before : s.Fitting request suits) (stepped : s.step digest request event = some next) :
    next.Fitting request suits := by
  cases event with
  | cancel =>
      rw [LoopState.step] at stepped
      split at stepped <;> cases stepped
      exact { before with }
  | finish batch script =>
      rw [LoopState.step] at stepped
      split at stepped
      · next guard =>
          obtain ⟨called, ran, continued⟩ := Option.bind_eq_some_iff.mp stepped
          have few : (batch.map request.text).length ≤ 128 := by
            rw [List.length_map]
            exact (before.small batch guard.2).trans suitable.size
          have each : ∀ text ∈ batch.map request.text, suits request.target text := by
            rw [List.forall_mem_map]
            intro i member
            have left : i ∈ s.pending.flatten := List.mem_flatten.mpr ⟨batch, guard.2, member⟩
            have inside := consistent.inside i left
            have found : request.segs[i]? = some request.segs[i] := List.getElem?_eq_getElem inside
            rw [Request.text_of_getElem? found]
            exact suitable.texts _ (List.getElem_mem inside)
              (consistent.needed i (consistent.open_ i left) _ found)
          have more : ∀ call ∈ s.calls ++ called.calls, CallFits suits call :=
            List.forall_mem_append.mpr ⟨before.calls, runBatch_fits ran few each⟩
          dsimp only at continued
          split at continued
          · cases continued
            exact {
              small := before.small
              calls := more
              clean := fun all => before.clean (List.forall_mem_append.mp all).1 }
          · next lines done =>
              cases continued
              have calls : (LoopState.collect digest request { s with calls := s.calls ++ called.calls }
                  batch lines).calls = s.calls ++ called.calls :=
                congrArg LoopState.calls (foldl_write_frame digest request (batch.zip lines)
                  { s with calls := s.calls ++ called.calls })
              refine {
                small := fun other member => before.small other (List.mem_of_mem_erase member)
                calls := calls.symm ▸ more
                clean := fun all => ?_ }
              rw [calls] at all
              obtain ⟨earlier, later⟩ := List.forall_mem_append.mp all
              have kept : lines.countP (·.passedThrough) = 0 := by
                rw [List.countP_eq_zero]
                intro line member
                rw [runBatch_accepted ran later done line member]
                exact Bool.false_ne_true
              exact (if_pos kept).trans (before.clean earlier)
      · cases stepped

end Loop

section Shared
variable {Key : Type} [DecidableEq Key] {digest : Str → Key} {suits : Language → Str → Prop}

/-- Over the calls that share a cache: every provider call fits, and accepted calls leave no
fallback. -/
structure SharedState.Fitting (digest : Str → Key) (suits : Language → Str → Prop)
    (s : SharedState Key) : Prop where
  consistent : s.Consistent digest
  calls : ∀ call ∈ s.calls, CallFits suits call
  clean : (∀ call ∈ s.calls, call.Accepted) → ∀ reply ∈ s.replies, reply.fallbacks = []

omit [DecidableEq Key] in
theorem SharedState.initial_fitting : SharedState.Fitting digest suits .initial where
  consistent := SharedState.initial_consistent
  calls := List.forall_mem_nil _
  clean := fun _ => List.forall_mem_nil _

theorem SharedState.Fitting.step (injective : Function.Injective digest) {s next : SharedState Key}
    {call : TranslateCall} (before : s.Fitting digest suits)
    (suitable : call.request.Suitable suits) (stepped : s.step digest call = some next) :
    next.Fitting digest suits := by
  have consistent := before.consistent.step injective stepped
  unfold SharedState.step at stepped
  split at stepped
  · cases stepped
    exact before
  · next first started =>
      obtain ⟨last, ran, continued⟩ := Option.bind_eq_some_iff.mp stepped
      obtain ⟨_, fitting, kept⟩ : last.Consistent digest call.request (missing first.results) ∧
          last.Fitting call.request suits ∧ s.calls ⊆ last.calls := by
        refine Machine.run_invariant (fun loop => loop.Consistent digest call.request
            (missing first.results) ∧ loop.Fitting call.request suits ∧ s.calls ⊆ loop.calls)
          (fun loop event after held moved => ⟨held.1.step moved, held.2.1.step suitable held.1 moved,
            List.Subset.trans held.2.2 (LoopState.step_calls moved)⟩) ?_ ran
        obtain ⟨fitting, calls⟩ := LoopState.start_fitting started before.calls
        exact ⟨LoopState.start_consistent injective before.consistent.cache started, fitting,
          calls.symm ▸ List.Subset.refl _⟩
      split_ifs at continued with raised finished
      · cases continued
        exact {
          consistent := consistent
          calls := fitting.calls
          clean := fun all => before.clean fun call member => all call (kept member) }
      · cases continued
        exact {
          consistent := consistent
          calls := fitting.calls
          clean := fun all => List.forall_mem_cons.mpr
            ⟨fitting.clean all, before.clean fun call member => all call (kept member)⟩ }

omit [DecidableEq Key] in
/-- The validation takes lines that are all accepted. -/
theorem validateLines_accepted {position : Nat} {texts output : List Str}
    (each : List.Forall₂ (fun text line => AcceptedLine text (some line)) texts output) :
    ∃ lines, validateLines position texts (output.map some) = .ok lines := by
  induction each generalizing position with
  | nil => exact ⟨[], rfl⟩
  | @cons text line texts output accepted _ ih =>
      obtain ⟨keeps, same⟩ := accepted
      obtain ⟨lines, later⟩ := @ih (position + 1)
      rw [List.map_cons, validateLines, later, validateLine,
        if_neg (fun lost => lost.2 (keeps lost.1)), same]
      exact ⟨_, rfl⟩

omit [DecidableEq Key] in
/-- The translations of suitable texts are accepted. -/
theorem validateOutput_accepted {f : Str → Str} {name : Str} {texts : List Str}
    (each : ∀ text ∈ texts, Suits f name text) :
    ∃ output, validateOutput texts (some ((texts.map f).map some)) = .ok output := by
  have lengths : ((texts.map f).map some).length = texts.length := by
    rw [List.length_map, List.length_map]
  rw [validateOutput, if_pos lengths]
  refine validateLines_accepted ?_
  rw [List.forall₂_map_right_iff, List.forall₂_same]
  exact fun text member => (each text member).accepted

omit [DecidableEq Key] in
theorem image_of_mem_zip {f : Str → Str} {texts : List Str} {source text : Str}
    (pair : (source, text) ∈ texts.zip (texts.map f)) : text = f source := by
  have pairs : (texts.map id).zip (texts.map f) = texts.map fun text => (text, f text) :=
    List.zip_map'
  rw [List.map_id] at pairs
  rw [pairs] at pair
  obtain ⟨_, _, same⟩ := List.mem_map.mp pair
  cases same
  rfl

omit [DecidableEq Key] in
/-- When the calls that succeed translate by a function, so does each entry that did not fall back. -/
theorem Entry.translated {f : Language → Str → Str} {calls : List ProviderCall} {target : Language}
    {seg : Segment} {text : Str} {fell : Bool} (entry : Entry calls target seg text fell)
    (translated : ∀ call ∈ calls, (∃ failure, call.answer = .raises failure) ∨
      call.answer = .returns (some ((call.texts.map (f call.target)).map some))) :
    text = if needsTranslation seg = true ∧ fell = false then f target seg.text else seg.text := by
  cases entry with
  | own blank same =>
      rw [if_neg fun both => Bool.false_ne_true (blank.symm.trans both.1)]
      exact same
  | provider needed answered =>
      rw [if_pos ⟨needed, rfl⟩]
      obtain ⟨call, there, target, output, returned, _, pair⟩ := answered
      rcases translated call there with ⟨failure, failed⟩ | answer
      · rw [failed] at returned
        cases returned
      · rw [returned, Answer.returns.injEq, Option.some.injEq,
          (List.map_injective_iff.mpr (Option.some_injective Str)).eq_iff] at answer
        rw [answer] at pair
        rw [← target]
        exact image_of_mem_zip pair
  | fallback needed same =>
      rw [if_neg fun both => Bool.noConfusion both.2]
      exact same

end Shared

/-- This service translates every text to the same word. -/
def wordService (request : HttpRequest) : Exchange :=
  .answers (((payloadTexts "text" request.payload).getD []).map fun _ => 0)

/-- Each byte stands for one translation. -/
def wordReply (raw : List UInt8) : List (Str × Json) :=
  [(ofString "translations",
    .array (raw.map fun _ => .object [(ofString "text", .string (ofString "mot"))]))]

def wordOutside : Outside :=
  { plainOutside with loads := fun raw => .value (.object (wordReply raw)) }

theorem wordService_translates :
    Translates wordOutside (fun _ => ofString "mot") (ofString "deepl") wordService := by
  refine .deepl fun request texts asked => ⟨_, _, ⟨_, rfl, rfl⟩, rfl, _, rfl, ?_⟩
  rw [asked, Option.getD_some, List.map_map, List.forall₂_map_left_iff, List.forall₂_same]
  exact fun text member => ⟨_, rfl, rfl⟩

/-- The batch of the sample is answered at once. -/
def wordCalls : List TranslateCall :=
  let word := some (ofString "mot")
  [⟨sampleRequest, [.finish [0, 1] [{ answer := .returns (some [word, word]) }]]⟩]

end SubtitleTranslator.Engine
