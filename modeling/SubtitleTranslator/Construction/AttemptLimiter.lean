import SubtitleTranslator.Library.Transducer

namespace SubtitleTranslator.Auth
open Library

/-- The limit and the window of an `AttemptLimiter`; times are in microseconds. -/
structure AttemptLimiter where
  limit : Nat
  window : Int

/-- The attributes of an `AttemptLimiter` that its calls change. -/
structure LimiterState (Key : Type) where
  attempts : Key → Option (List Int)
  nextPrune : Option Int

/-- The constant is `ATTEMPT_PRUNE_SECONDS` in microseconds. -/
def attemptPrune : Int := 60000000

/-- The calls with the clock that they read. -/
inductive LimiterCall (Key : Type) where
  | limited (key : Key) (current : Int)
  | reserve (key : Key) (current : Int)
  | release (key : Key) (marker : Int)

/-- A release reads no clock. -/
def LimiterCall.time {Key : Type} : LimiterCall Key → Option Int
  | .limited _ current | .reserve _ current => some current
  | .release _ _ => none

inductive LimiterAnswer where
  | limited (answer : Bool)
  | reserved (marker : Option Int)
  | released
  deriving DecidableEq

/-- The dictionary has no entry for an empty list. -/
def entryOf (values : List Int) : Option (List Int) := if values.isEmpty then none else some values

namespace LimiterState
variable {Key : Type}

def empty : LimiterState Key := ⟨fun _ => none, none⟩

/-- A call prunes when no prune is planned or the planned one is due. -/
def due (s : LimiterState Key) (current : Int) : Bool := s.nextPrune.all fun next => next ≤ current

/-- A prune keeps the attempts of every address after the cutoff. -/
def prune (s : LimiterState Key) (cutoff current : Int) : LimiterState Key where
  attempts := fun address =>
    (s.attempts address).bind fun values => entryOf (values.filter fun value => cutoff < value)
  nextPrune := some (current + attemptPrune)

variable [DecidableEq Key]

def setAttempts (s : LimiterState Key) (key : Key) (values : List Int) : LimiterState Key :=
  { s with attempts := Function.update s.attempts key (entryOf values) }

end LimiterState

namespace AttemptLimiter
variable {Key : Type} [DecidableEq Key]

/-- This function is `_recent`. -/
def recent (limiter : AttemptLimiter) (s : LimiterState Key) (key : Key) (current : Int) :
    LimiterState Key × List Int :=
  let cutoff := current - limiter.window
  let pruned := if s.due current then s.prune cutoff current else s
  let recent := ((pruned.attempts key).getD []).filter fun value => cutoff < value
  (pruned.setAttempts key recent, recent)

def limited (limiter : AttemptLimiter) (s : LimiterState Key) (key : Key) (current : Int) :
    LimiterState Key × Bool :=
  let (next, recent) := limiter.recent s key current
  (next, limiter.limit ≤ recent.length)

def reserve (limiter : AttemptLimiter) (s : LimiterState Key) (key : Key) (current : Int) :
    LimiterState Key × Option Int :=
  let (next, recent) := limiter.recent s key current
  if limiter.limit ≤ recent.length then (next, none)
  else (next.setAttempts key (recent ++ [current]), some current)

/-- The first attempt with the time of the marker is removed. -/
def release (s : LimiterState Key) (key : Key) (marker : Int) : LimiterState Key :=
  match s.attempts key with
  | none => s
  | some recent => if marker ∈ recent then s.setAttempts key (recent.erase marker) else s

def step (limiter : AttemptLimiter) : Transducer (LimiterState Key) (LimiterCall Key) LimiterAnswer
  | s, .limited key current =>
      let (next, answer) := limiter.limited s key current
      (next, .limited answer)
  | s, .reserve key current =>
      let (next, marker) := limiter.reserve s key current
      (next, .reserved marker)
  | s, .release key marker => (release s key marker, .released)

/-- The attempts of an address that a log holds in the window of a time. -/
def inWindow (limiter : AttemptLimiter) (log : Key → List Int) (key : Key) (current : Int) : Nat :=
  (log key).countP fun time => current - limiter.window < time ∧ time ≤ current

/-- The sliding-window log that this step keeps has all attempts that were not released. -/
def logStep (limiter : AttemptLimiter) : Transducer (Key → List Int) (LimiterCall Key) LimiterAnswer
  | log, .limited key current => (log, .limited (limiter.limit ≤ limiter.inWindow log key current))
  | log, .reserve key current =>
      if limiter.limit ≤ limiter.inWindow log key current then (log, .reserved none)
      else (Function.update log key (log key ++ [current]), .reserved (some current))
  | log, .release key marker => (Function.update log key ((log key).erase marker), .released)

end AttemptLimiter

end SubtitleTranslator.Auth
