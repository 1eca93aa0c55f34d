import SubtitleTranslator.Construction.JobTables
import SubtitleTranslator.Library.Machine

namespace SubtitleTranslator.Jobs
open Library Text

/-- The key of a cached read, with the deployment's own start of every key. -/
def cacheKey (deployment : Str) (scope : CacheScope) (revision : HexId) : Str :=
  deployment ++ ofString ":" ++ (scope.name.text ++ ofString ":" ++ revision.text ++ ofString ":" ++
    scope.text)

/-- An authenticated payload carries the key that it was stored under. -/
structure Payload where
  key : Str
  value : Rows
  deriving DecidableEq

/-- These are the answers of Redis to a `get`. -/
inductive CacheAnswer where
  | outage
  | absent
  /-- The bytes are no authenticated payload or an expired one. -/
  | unreadable
  | payload (stored : Payload)
  deriving DecidableEq

/-- Redis can replay the payloads that readers have stored and cannot forge another one. -/
def CacheAnswer.authentic (produced : List Payload) : CacheAnswer → Bool
  | .payload stored => stored ∈ produced
  | .outage | .absent | .unreadable => true

/-- The result of `remember` before it loads: a cached value, or whether the loaded rows are
stored. -/
inductive Remembered where
  | value (rows : Rows)
  | load (store : Bool)
  deriving DecidableEq

/-- This function is `remember` up to its call of the loader. -/
def remember (available : Bool) (key : Str) (answer : CacheAnswer) : Remembered :=
  if ¬available then .load false
  else
    match answer with
    | .outage => .load false
    | .absent | .unreadable => .load true
    | .payload stored => if stored.key = key then .value stored.value else .load true

/-- These are the places of `cached_rows` between two steps; versions count the commits. -/
inductive ReaderStage where
  | started
  /-- The reader saw a revision in the version `observed`. -/
  | asking (revision : HexId) (observed : Nat)
  /-- The rows are loaded from a version that is not before `observed`. -/
  | loading (revision : Option HexId) (observed : Nat) (store : Bool)
  | returned (revision : Option HexId) (rows : Rows)
  deriving DecidableEq

/-- A running call of `cached_rows`; `since` is the version at its start. -/
structure Reader where
  scope : CacheScope
  since : Nat
  stage : ReaderStage
  deriving DecidableEq

/-- The committed versions, the payloads that readers have encrypted and the readers. -/
structure CacheState where
  history : Nat → Tables
  latest : Nat
  produced : List Payload
  readers : List Reader

inductive CacheEvent where
  | start (scope : CacheScope)
  | readRevision (reader : Nat) (available : Bool)
  | ask (reader : Nat) (available : Bool) (answer : CacheAnswer)
  /-- The snapshot of a load is a version between the revision read and the latest commit. -/
  | load (reader version : Nat)
  | commit (write : Write) (fresh : CacheName → HexId)

/-- A revision is fresh when no version has carried it. -/
def freshRevisions (history : Nat → Tables) (latest : Nat) (fresh : CacheName → HexId) : Bool :=
  (List.range (latest + 1)).all fun version =>
    decide ((history version).revisions .settings ≠ some (fresh .settings)) &&
      decide ((history version).revisions .jobs ≠ some (fresh .jobs))

namespace CacheState

/-- The function moves a reader to a stage. -/
def moveReader (s : CacheState) (index : Nat) (reader : Reader) (stage : ReaderStage) : CacheState :=
  { s with readers := s.readers.set index { reader with stage := stage } }

/-- The function appends a committed version. -/
def install (s : CacheState) (tables : Tables) : CacheState :=
  { s with history := Function.update s.history (s.latest + 1) tables, latest := s.latest + 1 }

/-- This step is one SQL statement, one answer of Redis or one commit. -/
def step (deployment : Str) (s : CacheState) : CacheEvent → Option CacheState
  | .start scope => some { s with readers := s.readers ++ [⟨scope, s.latest, .started⟩] }
  | .readRevision index available =>
      match s.readers[index]? with
      | some reader =>
          match reader.stage with
          | .started =>
              if ¬available then some (s.moveReader index reader (.loading none s.latest false))
              else
                match (s.history s.latest).revisions reader.scope.name with
                | none => some (s.moveReader index reader (.loading none s.latest false))
                | some revision => some (s.moveReader index reader (.asking revision s.latest))
          | _ => none
      | none => none
  | .ask index available answer =>
      match s.readers[index]? with
      | some reader =>
          match reader.stage with
          | .asking revision observed =>
              if answer.authentic s.produced then
                match remember available (cacheKey deployment reader.scope revision) answer with
                | .value rows => some (s.moveReader index reader (.returned (some revision) rows))
                | .load store =>
                    some (s.moveReader index reader (.loading (some revision) observed store))
              else none
          | _ => none
      | none => none
  | .load index version =>
      match s.readers[index]? with
      | some reader =>
          match reader.stage with
          | .loading revision observed store =>
              if observed ≤ version ∧ version ≤ s.latest then
                let rows := reader.scope.rows (s.history version)
                let stored := match revision with
                  | some revision =>
                      if store then [⟨cacheKey deployment reader.scope revision, rows⟩] else []
                  | none => []
                some ({ s with produced := stored ++ s.produced }.moveReader index reader
                  (.returned revision rows))
              else none
          | _ => none
      | none => none
  | .commit write fresh =>
      if freshRevisions s.history s.latest fresh then
        (write.commit fresh (s.history s.latest)).map s.install
      else none

/-- A deployment starts with one version, no payload and no reader. -/
def initial (tables : Tables) : CacheState where
  history := fun _ => tables
  latest := 0
  produced := []
  readers := []

end CacheState

end SubtitleTranslator.Jobs
