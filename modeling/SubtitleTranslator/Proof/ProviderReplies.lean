import SubtitleTranslator.Construction.Providers
import SubtitleTranslator.Proof.BatchDriver
import SubtitleTranslator.Proof.ReplyErrors
import SubtitleTranslator.Proof.RetryBudgets

namespace SubtitleTranslator.Engine
open Library Library.Text Library.Fallible

/-- The text that a language model returns: the text parts of its blocks, or the content of its
first choice. -/
inductive ReplyText : List (Str × Json) → Str → Prop where
  | blocks {resp : List (Str × Json)} {blocks : List Json} {found : List (Option Json)}
      {parts : List Str} (content : Json.find resp "content" = some (.array blocks))
      (texts : textParts blocks = some found)
      (strings : (found.mapM fun part => part.bind Json.text?) = some parts) :
      ReplyText resp parts.flatten
  | chat {resp : List (Str × Json)} {out : Str} (content : chatContent resp = .ok (.string out)) :
      ReplyText resp out

/-- A wait is a number of seconds that is not negative. -/
def Waits (wait : Option Seconds) : Prop := ∀ delay ∈ wait, ∃ value, delay = .finite value ∧ 0 ≤ value

/-- These are the exceptions outside the retried ones that a client call on a number of texts can
raise, with how its request ended. -/
inductive Ends (outside : Outside) (size : Nat) : Exchange → Failure → Prop where
  | canceled : Ends outside size .canceled .canceled
  | raises : Ends outside size .raises .other
  | tooDeep {raw : List UInt8} (deep : outside.loads raw = .tooDeep) :
      Ends outside size (.answers raw) .other
  | refused {e : HttpError} (message : Str) (code : e.code ∈ [400, 401, 403, 404]) :
      Ends outside size (.httpError e) (.fatal message)
  | limited {e : HttpError} {wait : Option Seconds} (message : Str) (code : e.code ∈ [429, 529])
      (waits : Waits wait) : Ends outside size (.httpError e) (.rateLimit message wait)
  | oversized (exchange : Exchange) (message : Str) (large : 128 < size) :
      Ends outside size exchange (.fatal message)
  | longNumber {raw : List UInt8} {resp : List (Str × Json)} {out : Str}
      (object : outside.loads raw = .value (.object resp)) (reply : ReplyText resp out)
      (long : ¬∀ line ∈ splitlines out, ReadableLine line) :
      Ends outside size (.answers raw) .value

theorem Ends.mono {outside : Outside} {exchange : Exchange} {size larger : Nat} {failure : Failure}
    (ends : Ends outside size exchange failure) (most : size ≤ larger) :
    Ends outside larger exchange failure := by
  cases ends with
  | canceled => exact .canceled
  | raises => exact .raises
  | tooDeep deep => exact .tooDeep deep
  | refused message code => exact .refused message code
  | limited message code waits => exact .limited message code waits
  | oversized _ message large => exact .oversized _ message (large.trans_le most)
  | longNumber object reply long => exact .longNumber object reply long

/-- A client call gives one translation for each text, or an exception that is retried, or one of the
others. -/
def Kept (outside : Outside) (size : Nat) (exchange : Exchange) : Except Failure (List Str) → Prop
  | .ok output => output.length = size
  | .error (.translation _) => True
  | .error failure => Ends outside size exchange failure

section Client
variable {outside : Outside} {exchange : Exchange} {size : Nat}

theorem clampSeconds_waits (delay : Seconds) : Waits (clampSeconds delay) := by
  intro wait found
  cases delay with
  | finite value =>
      cases found
      exact ⟨_, rfl, le_max_left _ _⟩
  | _ => cases found

theorem untilMoment_waits (delay : Option ℚ) : Waits (delay.map untilMoment) := by
  intro wait found
  obtain ⟨value, _, rfl⟩ := Option.map_eq_some_iff.mp found
  exact ⟨_, rfl, le_max_left _ _⟩

theorem parseRetryAfter_waits (outside : Outside) (header : Option Str) :
    Waits (outside.parseRetryAfter header) := by
  unfold Outside.parseRetryAfter
  split
  · intro _ found
    cases found
  · intro _ found
    cases found
  · split
    · exact clampSeconds_waits _
    · exact untilMoment_waits _

/-- Whatever a header holds, the wait is a number of seconds that is not negative. -/
theorem parseRateLimitReset_waits (outside : Outside) (header : Option Str) :
    Waits (outside.parseRateLimitReset header) := by
  have first := parseRetryAfter_waits outside header
  unfold Outside.parseRateLimitReset
  cases parsed : outside.parseRetryAfter header with
  | some after => exact fun delay found => first delay (parsed.trans found)
  | none =>
      rw [parsed] at first
      match header with
      | none => exact first
      | some [] => exact first
      | some (c :: rest) =>
          dsimp only
          split
          · exact clampSeconds_waits _
          · exact untilMoment_waits _

theorem retryAfter_waits (outside : Outside) (header : Str → Option Str) :
    Waits (outside.retryAfter header) := by
  unfold Outside.retryAfter
  split
  · next after parsed =>
      intro delay found
      exact parseRetryAfter_waits outside _ delay (parsed.trans found)
  · intro delay found
    obtain ⟨name, _, parsed⟩ := List.exists_of_findSome?_eq_some found
    exact parseRateLimitReset_waits outside _ delay parsed

theorem httpFailure_kept (e : HttpError) :
    Kept outside size (.httpError e) (.error (outside.httpFailure e)) := by
  unfold Outside.httpFailure
  dsimp only
  split_ifs with limited refused
  · exact Ends.limited _ limited (retryAfter_waits outside e.header)
  · exact Ends.refused _ refused
  · trivial

/-- A request gives the object of its answer, or an exception. -/
theorem postJson_cases (outside : Outside) (size : Nat) (exchange : Exchange)
    (request : HttpRequest) :
    (∃ raw resp, exchange = .answers raw ∧ outside.loads raw = .value (.object resp) ∧
        outside.postJson (fun _ => exchange) request = .ok resp) ∨
      ∃ failure, outside.postJson (fun _ => exchange) request = .error failure ∧
        Kept outside size exchange (.error failure) := by
  cases exchange with
  | canceled => exact .inr ⟨_, rfl, Ends.canceled⟩
  | raises => exact .inr ⟨_, rfl, Ends.raises⟩
  | httpError e => exact .inr ⟨_, rfl, httpFailure_kept e⟩
  | urlError reason => exact .inr ⟨_, rfl, trivial⟩
  | dropped kind message => exact .inr ⟨_, rfl, trivial⟩
  | answers raw =>
      simp only [Outside.postJson]
      split
      · next deep => exact .inr ⟨_, rfl, Ends.tooDeep deep⟩
      · exact .inr ⟨_, rfl, trivial⟩
      · next resp object => exact .inl ⟨raw, resp, rfl, object, rfl⟩
      · exact .inr ⟨_, rfl, trivial⟩

/-- What a client makes of each object it gets decides what its call gives. -/
theorem Kept.post {request : HttpRequest} {next : List (Str × Json) → Except Failure (List Str)}
    (each : ∀ raw resp, outside.loads raw = .value (.object resp) →
      Kept outside size (.answers raw) (next resp)) :
    Kept outside size exchange (outside.postJson (fun _ => exchange) request >>= next) := by
  rcases postJson_cases outside size exchange request with
    ⟨raw, resp, rfl, object, posted⟩ | ⟨failure, posted, kept⟩
  · rw [posted]
    exact each raw resp object
  · rw [posted]
    exact kept

theorem parseNumbered_length {out : Str} {expected : Nat} {output : List Str}
    (parsed : parseNumbered out expected = .ok output) : output.length = expected := by
  obtain ⟨state, _, complete⟩ := bind_ok.mp parsed
  dsimp only at complete
  split at complete
  · cases complete
  · cases complete
    simp [expectedNumbers]

/-- A reply text is read as one entry for each text. -/
theorem Kept.parseNumbered {raw : List UInt8} {resp : List (Str × Json)} {out : Str}
    (object : outside.loads raw = .value (.object resp)) (reply : ReplyText resp out) :
    Kept outside size (.answers raw) (parseNumbered out size) := by
  rcases parseNumbered_cases out size with ⟨_, retryable⟩ | ⟨long, raised⟩
  · cases parsed : Engine.parseNumbered out size with
    | error failure =>
        obtain ⟨message, rfl⟩ := retryable failure parsed
        trivial
    | ok output => exact parseNumbered_length parsed
  · rw [raised]
    exact Ends.longNumber object reply long

theorem makeAnthropic_kept (model apiKey : Str) (texts : List Str) (src : Str) (target : Language) :
    Kept outside texts.length exchange
      (makeAnthropic model apiKey (outside.postJson fun _ => exchange) texts src target) := by
  refine Kept.post fun raw resp object => ?_
  dsimp only
  split
  · next blocks content =>
      split
      · trivial
      · next found texts_ =>
          split
          · trivial
          · next parts strings => exact .parseNumbered object (.blocks content texts_ strings)
  · trivial

theorem makeOpenai_kept (model apiKey baseUrl : Str) (texts : List Str) (src : Str)
    (target : Language) :
    Kept outside texts.length exchange
      (makeOpenai model apiKey baseUrl (outside.postJson fun _ => exchange) texts src target) := by
  refine Kept.post fun raw resp object => ?_
  split
  · trivial
  · next out content => exact .parseNumbered object (.chat content)
  · trivial

theorem itemTexts_length {key : String} {read : Str → Option Str} {expected : Nat} {value : Json}
    {output : List Str} (texts : itemTexts key read expected value = .ok output) :
    output.length = expected := by
  cases value with
  | array items =>
      simp only [itemTexts] at texts
      split_ifs at texts with differ
      exact (mapM_ok.mp texts).length_eq.symm.trans (not_not.mp differ)
  | _ => cases texts

theorem makeDeepl_kept (apiKey : Str) (texts : List Str) (src : Str) (target : Language) :
    Kept outside texts.length exchange
      (makeDeepl apiKey (outside.postJson fun _ => exchange) texts src target) := by
  refine Kept.post fun raw resp _ => ?_
  split
  · next result read =>
      obtain ⟨value, _, texts⟩ := bind_ok.mp read
      exact itemTexts_length texts
  · trivial

theorem makeGoogle_kept (quotedKey : Str) (texts : List Str) (src : Str) (target : Language) :
    Kept outside texts.length exchange
      (outside.makeGoogle quotedKey (outside.postJson fun _ => exchange) texts src target) := by
  unfold Outside.makeGoogle
  split
  · next large => exact Ends.oversized exchange _ large
  · refine Kept.post fun raw resp _ => ?_
    dsimp only
    split
    · next result read =>
        obtain ⟨value, _, texts⟩ := bind_ok.mp read
        exact itemTexts_length texts
    · trivial

theorem makeEcho_kept (texts : List Str) (src : Str) (target : Language) :
    Kept outside texts.length exchange (makeEcho (outside.postJson fun _ => exchange) texts src target) :=
  List.length_map _

/-- Each client that a job can get keeps its contract. -/
theorem providerFor_kept {debug : Bool} {settings : Str → Option Str} {name : Str}
    {model : Option Str} {client : Client}
    (made : outside.providerFor debug settings name model = .ok client) (exchange : Exchange)
    (texts : List Str) (src : Str) (target : Language) :
    Kept outside texts.length exchange (client (outside.postJson fun _ => exchange) texts src target) := by
  unfold Outside.providerFor at made
  split_ifs at made
  · cases made
    exact makeEcho_kept texts src target
  · obtain ⟨key, _, made⟩ := bind_ok.mp made
    obtain ⟨model, _, made⟩ := bind_ok.mp made
    cases made
    exact makeAnthropic_kept model key texts src target
  · obtain ⟨key, _, made⟩ := bind_ok.mp made
    obtain ⟨model, _, made⟩ := bind_ok.mp made
    split at made
    · cases made
      exact makeOpenai_kept model key _ texts src target
    · cases made
  · obtain ⟨key, _, made⟩ := bind_ok.mp made
    cases made
    exact makeDeepl_kept key texts src target
  · obtain ⟨key, _, made⟩ := bind_ok.mp made
    split at made
    · cases made
      exact makeGoogle_kept _ texts src target
    · cases made

end Client

/-- The outcome of a provider call as the retries see it. -/
def ProviderCall.outcome (call : ProviderCall) : Except Failure (List Str) :=
  match call.answer with
  | .raises failure => .error failure
  | .returns output => validateOutput call.texts output

/-- An exception that the retries let through is the one they met, or the last of several rate
limits. -/
inductive StemsFrom : Failure → Failure → Prop where
  | fatal (message : Str) : StemsFrom (.fatal message) (.fatal message)
  | rateLimit (message giveUp : Str) (wait : Option Seconds) :
      StemsFrom (.rateLimit giveUp wait) (.rateLimit message wait)
  | canceled : StemsFrom .canceled .canceled
  | value : StemsFrom .value .value
  | other : StemsFrom .other .other

/-- The last of some provider calls on at most a number of texts is the source of an exception. -/
def EndsWithCall (size : Nat) (calls : List ProviderCall) (failure : Failure) : Prop :=
  ∃ call cause, calls.getLast? = some call ∧ call.texts.length ≤ size ∧
    call.outcome = .error cause ∧ StemsFrom failure cause

/-- A cancellation, or the last provider call. -/
def HasCause (size : Nat) (calls : List ProviderCall) (failure : Failure) : Prop :=
  failure = .canceled ∨ EndsWithCall size calls failure

theorem HasCause.append {size : Nat} {calls : List ProviderCall} {failure : Failure}
    (cause : HasCause size calls failure) (earlier : List ProviderCall) :
    HasCause size (earlier ++ calls) failure := by
  rcases cause with canceled | ⟨call, cause, last, small, raised, stems⟩
  · exact .inl canceled
  · refine .inr ⟨call, cause, ?_, small, raised, stems⟩
    rw [List.getLast?_append, last, Option.some_or]

theorem HasCause.mono {size larger : Nat} {calls : List ProviderCall} {failure : Failure}
    (cause : HasCause size calls failure) (most : size ≤ larger) :
    HasCause larger calls failure :=
  cause.imp id fun ⟨call, cause, last, small, rest⟩ => ⟨call, cause, last, small.trans most, rest⟩

theorem checkedAnswer_failed {texts : List Str} {attempt : Attempt} {met : Failure}
    (checked : checkedAnswer texts attempt = .error met) (src : Str) (target : Language) :
    met = .canceled ∨ ProviderCall.outcome ⟨texts, src, target, attempt.answer⟩ = .error met := by
  unfold checkedAnswer at checked
  unfold ProviderCall.outcome
  split at checked
  · next failure answered =>
      cases checked
      rw [answered]
      exact .inr rfl
  · next output answered =>
      split at checked
      · cases checked
        exact .inl rfl
      · rw [answered]
        exact .inr checked

/-- The failure that ends a round after a call. -/
theorem EndsWith.hasCause {request : Request} {texts : List Str} {attempt : Attempt} {soft limited : Nat}
    {raised met : Failure} (checked : checkedAnswer texts attempt = .error met)
    (ends : EndsWith request soft limited (.error raised) (.error met)) :
    (∃ message, raised = .translation message) ∨
      HasCause texts.length [providerCall request texts attempt] raised := by
  have last := checkedAnswer_failed checked request.src request.target
  have stems (same : raised = met) (is : StemsFrom met met) :
      HasCause texts.length [providerCall request texts attempt] raised := by
    rcases last with canceled | outcome
    · exact .inl (same.trans canceled)
    · exact .inr ⟨_, met, rfl, le_rfl, outcome, same ▸ is⟩
  cases met with
  | translation message => exact .inl ⟨message, Except.error.inj ends.2⟩
  | rateLimit message wait =>
      obtain ⟨_, giveUp, same⟩ := ends
      cases same
      rcases last with canceled | outcome
      · cases canceled
      · exact .inr (.inr ⟨_, _, rfl, le_rfl, outcome, .rateLimit message giveUp wait⟩)
  | fatal message => exact .inr (stems (Except.error.inj ends) (.fatal message))
  | canceled => exact .inr (stems (Except.error.inj ends) .canceled)
  | value => exact .inr (stems (Except.error.inj ends) .value)
  | other => exact .inr (stems (Except.error.inj ends) .other)

theorem Request.softBudget_pos (request : Request) : 0 < request.softBudget := le_max_left 1 _

section Retries
variable {request : Request} (finite : request.Finite)
include finite

/-- A round that fails does so for its last call, and a failure that is not of the retried kind
stems from it. -/
theorem callWithRetry_failed {texts : List Str} {label : Str} {soft limited : Nat}
    {script : List Attempt} {called : Called (List Str)} (softs : soft < request.softBudget)
    (limits : limited ≤ request.rateRetries)
    (ran : callWithRetry request texts label soft limited script = some called) {failure : Failure}
    (failed : called.outcome = .error failure) :
    (∃ message, failure = .translation message) ∨ HasCause texts.length called.calls failure := by
  induction script generalizing soft limited called with
  | nil => cases ran
  | cons attempt rest ih =>
      rw [callWithRetry] at ran
      split at ran
      · cases ran
        cases failed
        exact .inr (.inl rfl)
      · dsimp only at ran
        split at ran
        · cases ran
          cases failed
        · next met checked =>
            have goesOn {soft' limited' : Nat} (softs : soft' < request.softBudget)
                (limits : limited' ≤ request.rateRetries)
                (counted : countFailure request label soft limited met = .ok (soft', limited')) :
                (∃ message, failure = .translation message) ∨
                  HasCause texts.length called.calls failure := by
              rw [counted] at ran
              dsimp only at ran
              split at ran
              · cases ran
                cases failed
                exact .inr (.inl rfl)
              · obtain ⟨later, again, rfl⟩ := Option.map_eq_some_iff.mp ran
                exact (ih softs limits again failed).imp id fun cause => cause.append [_]
            rcases countFailure_cases finite label softs limits met with
              ⟨raised, counted, ends⟩ | ⟨counted, _, room⟩ | ⟨counted, _, _, room⟩
            · rw [counted] at ran
              cases ran
              cases failed
              exact EndsWith.hasCause checked ends
            · exact goesOn room limits counted
            · exact goesOn softs room counted

/-- A failing fallback loop fails for its last call. -/
theorem runLines_failed {texts : List Str} {script : List Attempt} {called : Called (List Line)}
    (ran : runLines request texts script = some called) {failure : Failure}
    (failed : called.outcome = .error failure) : HasCause 1 called.calls failure := by
  induction texts generalizing script called with
  | nil =>
      cases ran
      cases failed
  | cons text texts ih =>
      obtain ⟨first, tried, continued⟩ := Option.bind_eq_some_iff.mp ran
      cases lined : lineOf text first.outcome with
      | error met =>
          rw [lined] at continued
          cases continued
          cases failed
          cases outcome : first.outcome with
          | ok output =>
              obtain ⟨same, _⟩ := (callWithRetry_spec tried).2 output outcome
              rw [outcome] at lined
              cases output with
              | nil => cases same
              | cons line more => cases lined
          | error cause =>
              have raised := @lineOf_error text _ _ outcome
              rcases callWithRetry_failed finite request.softBudget_pos (Nat.zero_le _) tried outcome with
                ⟨message, rfl⟩ | found
              · rw [lined] at raised
                cases raised
              · split_ifs at raised
                · rw [lined] at raised
                  cases raised
                  exact found
                · rw [lined] at raised
                  cases raised
      | ok line =>
          rw [lined] at continued
          obtain ⟨others, later, whole⟩ := Option.bind_eq_some_iff.mp continued
          cases whole
          cases rest : others.outcome with
          | error met =>
              rw [rest] at failed
              cases failed
              exact (ih later rest).append first.calls
          | ok tail =>
              rw [rest] at failed
              cases failed

/-- A failing batch fails for its last call. -/
theorem runBatch_failed {texts : List Str} {script : List Attempt} {called : Called (List Line)}
    (ran : runBatch request texts script = some called) (nonempty : 0 < texts.length)
    {failure : Failure} (failed : called.outcome = .error failure) :
    HasCause texts.length called.calls failure := by
  obtain ⟨first, tried, continued⟩ := Option.bind_eq_some_iff.mp ran
  split at continued
  · cases continued
    cases failed
  · split at continued
    · cases continued
      cases failed
    · obtain ⟨others, later, whole⟩ := Option.bind_eq_some_iff.mp continued
      cases whole
      exact ((runLines_failed finite later failed).mono nonempty).append first.calls
  · next met notRetried outcome =>
      cases continued
      cases failed
      rcases callWithRetry_failed finite request.softBudget_pos (Nat.zero_le _) tried outcome with
        ⟨message, rfl⟩ | found
      · exact absurd rfl (notRetried message)
      · exact found

end Retries

theorem length_of_mem_slices {size : Nat} {todo batch : List Nat} (member : batch ∈ slices size todo) :
    batch.length ≤ size := by
  obtain ⟨k, _, rfl⟩ := List.mem_map.mp member
  exact List.length_take_le _ _

/-- The check of the lines fails with the exception that is retried, or with ValueError. -/
theorem validateLines_failure {position : Nat} {texts : List Str} {output : List (Option Str)}
    {failure : Failure} (failed : validateLines position texts output = .error failure) :
    (∃ message, failure = .translation message) ∨ failure = .value := by
  induction texts generalizing position output with
  | nil => cases failed
  | cons source texts ih =>
      cases output with
      | nil => cases failed
      | cons translated output =>
          rw [validateLines] at failed
          rcases validateLine_cases position source translated with
            ⟨_, _, line, checked⟩ | ⟨_, _, message, checked⟩ | ⟨_, checked⟩
          · rw [checked] at failed
            cases rest : validateLines (position + 1) texts output with
            | ok lines =>
                rw [rest] at failed
                cases failed
            | error met =>
                rw [rest] at failed
                cases failed
                exact ih rest
          · rw [checked] at failed
            cases failed
            exact .inl ⟨message, rfl⟩
          · rw [checked] at failed
            cases failed
            exact .inr rfl

theorem validateOutput_failure {texts : List Str} {output : Option (List (Option Str))}
    {failure : Failure} (failed : validateOutput texts output = .error failure) :
    (∃ message, failure = .translation message) ∨ failure = .value := by
  cases output with
  | none =>
      cases failed
      exact .inl ⟨_, rfl⟩
  | some output =>
      rw [validateOutput] at failed
      split at failed
      · exact validateLines_failure failed
      · cases failed
        exact .inl ⟨_, rfl⟩

/-- A provider call got its answer from a client over HTTP. -/
def Served (outside : Outside) (client : Client) (service : HttpRequest → Exchange)
    (call : ProviderCall) : Prop :=
  call.answer = .ofOutcome (client (outside.postJson service) call.texts call.src call.target)

/-- The texts of an accepted list have a sentinel with a number that is too long for `int`. -/
def LongSentinel (call : ProviderCall) : Prop :=
  ∃ output, call.answer = .returns output ∧ ¬ReadableReply call.texts output

section Loop
variable {Key : Type} [DecidableEq Key] {digest : Str → Key} {request : Request}

/-- The batches that are left are within the batch size, and an exception has its cause. -/
structure LoopState.Explained (request : Request) (s : LoopState Key) : Prop where
  nonempty : ∀ batch ∈ s.pending, 0 < batch.length
  small : ∀ batch ∈ s.pending, batch.length ≤ request.batchSize
  raised : ∀ failure, s.raised = some failure → HasCause request.batchSize s.calls failure

omit [DecidableEq Key] in
theorem LoopState.start_explained {cache : Key → Option Str} {calls : List ProviderCall}
    {first : LoopState Key} (started : LoopState.start digest request cache calls = .ok first) :
    first.Explained request := by
  obtain ⟨results, _, whole⟩ := bind_ok.mp started
  cases whole
  exact {
    nonempty := fun batch member => slices_pos request.batchSize_pos member
    small := fun batch member => length_of_mem_slices member
    raised := fun failure raised => by cases raised }

theorem LoopState.Explained.step (finite : request.Finite) {s next : LoopState Key}
    {event : LoopEvent} (before : s.Explained request)
    (stepped : s.step digest request event = some next) : next.Explained request := by
  cases event with
  | cancel =>
      rw [LoopState.step] at stepped
      split at stepped <;> cases stepped
      refine { before with raised := fun failure raised => ?_ }
      cases raised
      exact .inl rfl
  | finish batch script =>
      rw [LoopState.step] at stepped
      split at stepped
      · next guard =>
          obtain ⟨called, ran, continued⟩ := Option.bind_eq_some_iff.mp stepped
          dsimp only at continued
          split at continued
          · next failure failed =>
              cases continued
              refine { before with raised := fun raised same => ?_ }
              cases same
              have size : (batch.map request.text).length = batch.length := List.length_map _
              have cause := runBatch_failed finite ran (size ▸ before.nonempty batch guard.2) failed
              exact (cause.mono (size.trans_le (before.small batch guard.2))).append s.calls
          · next lines done =>
              cases continued
              have frame := foldl_write_frame digest request (batch.zip lines)
                { s with calls := s.calls ++ called.calls }
              refine {
                nonempty := fun other member => before.nonempty other (List.mem_of_mem_erase member)
                small := fun other member => before.small other (List.mem_of_mem_erase member)
                raised := fun failure raised => ?_ }
              have same := (congrArg LoopState.raised frame).symm.trans raised
              rw [guard.1] at same
              cases same
      · cases stepped

end Loop

/-- The clients with a plain reading of numbers and no dates. -/
def plainOutside : Outside where
  casefold := lower
  unescape := some
  loads := fun _ => .invalid
  float := fun digits => (int? digits).map fun value => .finite value
  times
    | .finite value, unit => .finite (value * unit)
    | other, _ => other
  sum := fun delays => delays.headD (.finite 0)
  untilHttpDate := fun _ => none
  untilIsoDate := fun _ => none

/-- The answer to a request with a wrong key. -/
def wrongKey : HttpError := ⟨401, some (ofString "wrong key"), fun _ => none⟩

end SubtitleTranslator.Engine
