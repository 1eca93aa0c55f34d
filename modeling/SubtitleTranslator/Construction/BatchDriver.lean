import SubtitleTranslator.Construction.Sentinel
import SubtitleTranslator.Library.Machine

namespace SubtitleTranslator.Engine
open Library Library.Text

/-- A request holds the arguments of `translate_segments`. -/
structure Request where
  segs : List Segment
  target : Language
  src : Str
  batchSize : Nat
  batchSize_pos : 0 < batchSize
  retries : Nat
  rateRetries : Nat

/-- The text of a segment index. -/
def Request.text (request : Request) (i : Nat) : Str :=
  (request.segs[i]?.map Segment.text).getD []

/-- A provider call returns any value or raises an exception.
A returned value that is no list is `none`, and so is a list element that is no string. -/
inductive Answer where
  | returns (output : Option (List (Option Str)))
  | raises (failure : Failure)
  deriving DecidableEq

structure ProviderCall where
  texts : List Str
  src : Str
  target : Language
  answer : Answer
  deriving DecidableEq

/-- An attempt gives the answer of one provider call and the outcomes of the cancellation checks
before it, after it and during the sleep that follows a failure. -/
structure Attempt where
  answer : Answer
  canceledBefore : Bool := false
  canceledAfter : Bool := false
  canceledAsleep : Bool := false

/-- This outcome has the provider calls that led to it and the attempts that it left. -/
structure Called (α : Type) where
  outcome : Except Failure α
  calls : List ProviderCall
  rest : List Attempt

/-- This function is `round` to whole seconds, half to even. -/
def roundSeconds (value : ℚ) : ℤ :=
  let below := ⌊value⌋
  if value - below < 1 / 2 then below
  else if 1 / 2 < value - below then below + 1
  else if below % 2 = 0 then below else below + 1

/-- The format `.0f` of a number of seconds. -/
def Seconds.text : Seconds → Str
  | .finite value =>
      (if value < 0 then [0x2d] else []) ++ decimal (roundSeconds |value|).toNat
  | .infinite => ofString "inf"
  | .negativeInfinite => ofString "-inf"
  | .nan => ofString "nan"

/-- The longest wait for a rate limit is `MAX_RATE_LIMIT_WAIT`. -/
def maxRateLimitWait : ℚ := 300

/-- This test is `not delay <= MAX_RATE_LIMIT_WAIT`. -/
def Seconds.tooLong : Seconds → Bool
  | .finite value => ¬value ≤ maxRateLimitWait
  | .infinite => true
  | .negativeInfinite => false
  | .nan => true

/-- The float `2.0 ** exponent` raises OverflowError from this exponent on. -/
def overflowExponent : Nat := 1024

/-- The answer of one attempt after the cancellation check and the validation. -/
def checkedAnswer (texts : List Str) (attempt : Attempt) : Except Failure (List Str) :=
  match attempt.answer with
  | .raises failure => .error failure
  | .returns output => if attempt.canceledAfter then .error .canceled else validateOutput texts output

/-- The handlers of `call_with_retry` raise a failure again or count it in their two budgets. -/
def countFailure (request : Request) (label : Str) (soft limited : Nat) :
    Failure → Except Failure (Nat × Nat)
  | .rateLimit _ retryAfter =>
      let limited := limited + 1
      if request.rateRetries < limited then
        .error (.rateLimit (ofString "rate limited " ++ decimal limited ++
          ofString "x, giving up on " ++ label) retryAfter)
      else match retryAfter with
        | some delay =>
            if delay.tooLong then
              .error (.rateLimit (ofString "rate limited for " ++ delay.text ++
                ofString "s, giving up on " ++ label) (some delay))
            else .ok (soft, limited)
        | none => if overflowExponent ≤ limited then .error .other else .ok (soft, limited)
  | .translation message =>
      let soft := soft + 1
      if request.retries ≤ soft then .error (.translation message)
      else if overflowExponent ≤ soft then .error .other
      else .ok (soft, limited)
  | failure => .error failure

/-- This function is `call_with_retry` from its two counters on; it has no value while the
attempts have not come to an end. -/
def callWithRetry (request : Request) (texts : List Str) (label : Str) :
    Nat → Nat → List Attempt → Option (Called (List Str))
  | _, _, [] => none
  | soft, limited, attempt :: rest =>
      if attempt.canceledBefore then some ⟨.error .canceled, [], rest⟩
      else
        let call : ProviderCall := ⟨texts, request.src, request.target, attempt.answer⟩
        match checkedAnswer texts attempt with
        | .ok output => some ⟨.ok output, [call], rest⟩
        | .error failure =>
            match countFailure request label soft limited failure with
            | .error raised => some ⟨.error raised, [call], rest⟩
            | .ok (soft, limited) =>
                if attempt.canceledAsleep then some ⟨.error .canceled, [call], rest⟩
                else
                  (callWithRetry request texts label soft limited rest).map fun called =>
                    { called with calls := call :: called.calls }

/-- A line of a finished batch; `passedThrough` tells that its position is in that set. -/
structure Line where
  text : Str
  passedThrough : Bool
  deriving DecidableEq

/-- The fallback for one line: its source text passes through. -/
def lineOf (text : Str) : Except Failure (List Str) → Except Failure Line
  | .ok (line :: _) => .ok ⟨line, false⟩
  | .ok [] => .error .other
  | .error (.translation _) => .ok ⟨text, true⟩
  | .error failure => .error failure

/-- The loop of `run` that retries the lines of a batch one by one. -/
def runLines (request : Request) : List Str → List Attempt → Option (Called (List Line))
  | [], script => some ⟨.ok [], [], script⟩
  | text :: texts, script => do
      let called ← callWithRetry request [text] (ofString "single line") 0 0 script
      match lineOf text called.outcome with
      | .error failure => some ⟨.error failure, called.calls, called.rest⟩
      | .ok line => do
          let others ← runLines request texts called.rest
          some ⟨others.outcome.map (line :: ·), called.calls ++ others.calls, others.rest⟩

/-- This function is `run` on the texts of a batch. -/
def runBatch (request : Request) (texts : List Str) (script : List Attempt) :
    Option (Called (List Line)) := do
  let called ← callWithRetry request texts (ofString "batch of " ++ decimal texts.length) 0 0 script
  match called.outcome with
  | .ok output => some ⟨.ok (output.map fun line => ⟨line, false⟩), called.calls, called.rest⟩
  | .error (.translation _) =>
      if texts.length = 1 then
        some ⟨.ok (texts.map fun text => ⟨text, true⟩), called.calls, called.rest⟩
      else do
        let lines ← runLines request texts called.rest
        some { lines with calls := called.calls ++ lines.calls }
  | .error failure => some ⟨.error failure, called.calls, called.rest⟩

section Cache
variable {Key : Type} [DecidableEq Key]

/-- This function is `_cache_key` for the truncated hash of a text. -/
def cacheKey (digest : Str → Key) (target : Language) (text : Str) : Key :=
  digest (target.key ++ [0] ++ text)

/-- The state of a `translate_segments` call; `pending` has the batches of the futures that are
not collected, and `raised` is the exception that ended the call. -/
structure LoopState (Key : Type) where
  cache : Key → Option Str
  calls : List ProviderCall
  results : List (Option Str)
  pending : List (List Nat)
  cached : Nat
  done : Nat
  progress : List (Nat × Nat)
  fallbacks : List Nat
  raised : Option Failure

/-- The first look at a segment: its own text, a usable cache hit, or nothing yet. -/
def cacheHit (digest : Str → Key) (request : Request) (cache : Key → Option Str) (seg : Segment) :
    Except Failure (Option Str) :=
  if needsTranslation seg then
    match cache (cacheKey digest request.target seg.text) with
    | none => pure none
    | some hit => do
        if ← placeholdersMatch seg.text hit then pure (some hit) else pure none
  else pure (some seg.text)

/-- The slices `todo[i:i + size]` in order. -/
def slices (size : Nat) (todo : List Nat) : List (List Nat) :=
  (List.range ((todo.length + size - 1) / size)).map fun k => (todo.drop (k * size)).take size

/-- The indices of the results that are still missing. -/
def missing (results : List (Option Str)) : List Nat :=
  (List.range results.length).filter fun i => results[i]? = some none

/-- The start of a call fills in the cache hits and submits the batches. -/
def LoopState.start (digest : Str → Key) (request : Request) (cache : Key → Option Str)
    (calls : List ProviderCall) : Except Failure (LoopState Key) := do
  let results ← request.segs.mapM (cacheHit digest request cache)
  let todo := missing results
  let cached := request.segs.length - todo.length
  pure {
    cache := cache
    calls := calls
    results := results
    pending := slices request.batchSize todo
    cached := cached
    done := 0
    progress := [(cached, request.segs.length)]
    fallbacks := []
    raised := none }

/-- A finished line is written to the results, and to the cache unless it passed through. -/
def LoopState.write (digest : Str → Key) (request : Request) (s : LoopState Key)
    (entry : Nat × Line) : LoopState Key :=
  { s with
    results := s.results.set entry.1 (some entry.2.text)
    cache :=
      if entry.2.passedThrough then s.cache
      else Function.update s.cache (cacheKey digest request.target (request.text entry.1))
        (some entry.2.text) }

/-- The loop body for one finished future. -/
def LoopState.collect (digest : Str → Key) (request : Request) (s : LoopState Key)
    (batch : List Nat) (lines : List Line) : LoopState Key :=
  let written := (batch.zip lines).foldl (LoopState.write digest request) s
  let passed := lines.countP (·.passedThrough)
  let done := s.done + batch.length
  { written with
    pending := s.pending.erase batch
    fallbacks := if passed = 0 then s.fallbacks else s.fallbacks ++ [passed]
    done := done
    progress := s.progress ++ [(s.cached + done, request.segs.length)] }

/-- A batch finishes with the answers that it got, or a check of the main thread finds the
cancellation. Batches finish in any order, as with any number of workers. -/
inductive LoopEvent where
  | finish (batch : List Nat) (script : List Attempt)
  | cancel

def LoopState.step (digest : Str → Key) (request : Request) (s : LoopState Key) :
    LoopEvent → Option (LoopState Key)
  | .finish batch script =>
      if s.raised = none ∧ batch ∈ s.pending then do
        let called ← runBatch request (batch.map request.text) script
        let s := { s with calls := s.calls ++ called.calls }
        match called.outcome with
        | .error failure => some { s with raised := some failure }
        | .ok lines => some (s.collect digest request batch lines)
      else none
  | .cancel => if s.raised = none then some { s with raised := some .canceled } else none

/-- What a call returns and reports; `todo` has the indices that it sent to the provider. -/
structure Reply where
  request : Request
  todo : List Nat
  results : List Str
  progress : List (Nat × Nat)
  fallbacks : List Nat

/-- Successive calls share a cache; the log has every provider call so far. -/
structure SharedState (Key : Type) where
  cache : Key → Option Str
  calls : List ProviderCall
  replies : List Reply

def SharedState.initial : SharedState Key where
  cache := fun _ => none
  calls := []
  replies := []

/-- One call of `translate_segments` with the events of its main thread. -/
structure TranslateCall where
  request : Request
  events : List LoopEvent

/-- This step is `translate_segments`; a call that raises leaves its cache writes behind. -/
def SharedState.step (digest : Str → Key) (s : SharedState Key) (call : TranslateCall) :
    Option (SharedState Key) :=
  match LoopState.start digest call.request s.cache s.calls with
  | .error _ => some s
  | .ok first => do
      let last ← Machine.run (LoopState.step digest call.request) first call.events
      if last.raised.isSome then some { s with cache := last.cache, calls := last.calls }
      else if last.pending = [] then
        some {
          cache := last.cache
          calls := last.calls
          replies := ⟨call.request, missing first.results, last.results.map (·.getD []),
            last.progress, last.fallbacks⟩ :: s.replies }
      else none

end Cache

end SubtitleTranslator.Engine
