import SubtitleTranslator.Construction.BatchDriver
import SubtitleTranslator.Construction.JobRequests
import SubtitleTranslator.Construction.JobUpload
import SubtitleTranslator.Construction.Writing
import SubtitleTranslator.Library.Utf8Decoding

namespace SubtitleTranslator.Engine
open Library Library.Text

/-- The entry `suffix` of `LANGS`. -/
def Language.suffix : Language → Str
  | .zhTw => ofString ".zh.tw"
  | .zhCn => ofString ".zh.cn"
  | .ja => ofString ".ja"
  | .ko => ofString ".ko"
  | .es => ofString ".es"
  | .fr => ofString ".fr"
  | .de => ofString ".de"
  | .it => ofString ".it"
  | .ptBr => ofString ".pt.br"
  | .ru => ofString ".ru"
  | .nl => ofString ".nl"
  | .pl => ofString ".pl"
  | .tr => ofString ".tr"
  | .uk => ofString ".uk"
  | .id => ofString ".id"

/-- The entry `name` of `LANGS`. -/
def Language.name : Language → String
  | .zhTw => "Traditional Chinese (Taiwan)"
  | .zhCn => "Simplified Chinese (China)"
  | .ja => "Japanese"
  | .ko => "Korean"
  | .es => "Spanish"
  | .fr => "French"
  | .de => "German"
  | .it => "Italian"
  | .ptBr => "Brazilian Portuguese"
  | .ru => "Russian"
  | .nl => "Dutch"
  | .pl => "Polish"
  | .tr => "Turkish"
  | .uk => "Ukrainian"
  | .id => "Indonesian"

/-- The formats of `SUPPORTED_EXTENSIONS`. -/
def fileFormat? (extension : Str) : Option FileFormat :=
  if extension = ofString ".srt" then some .srt
  else if extension = ofString ".vtt" then some .vtt
  else if extension = ofString ".ass" then some .ass
  else if extension = ofString ".ssa" then some .ssa
  else none

/-- A codec gives the text of bytes, or the message of its exception. -/
abbrev Codecs := Str → List UInt8 → Except Str Str

/-- This function is `load_subtitle` on the bytes of a file with a suffix. -/
def loadSubtitle (codecs : Codecs) (encoding suffix : Str) (raw : List UInt8) :
    Except FormatFailure Document :=
  let extension := lower suffix
  match fileFormat? extension with
  | none =>
      .error (.format (ofString "Unsupported subtitle type " ++
        (if extension = [] then ofString "(none)" else extension) ++
        ofString ". Use SRT, VTT, ASS, or SSA."))
  | some format =>
      let bom := [0xef, 0xbb, 0xbf].isPrefixOf raw
      match codecs (if bom then ofString "utf-8-sig" else encoding) raw with
      | .error reason =>
          .error (.format (ofString "Could not decode subtitle as " ++ encoding ++ ofString ": " ++
            reason))
      | .ok text => parseSubtitle format bom text

end SubtitleTranslator.Engine

namespace SubtitleTranslator.Jobs
open Library Text
open Engine (Language Segment Document LoopState ProviderCall Attempt)

/-- The letters that a pattern with `re.I` takes for the same letter. -/
def ignoreCase (c : CodePoint) : CodePoint :=
  if c = 0x130 ∨ c = 0x131 then 0x69
  else if c = 0x17f then 0x73
  else lowerPoint c

/-- One of the three marks that the pattern of `translated_filename` removes at the end. -/
def dropLanguageMark (s : Str) : Str :=
  match [ofString ".en", ofString ".eng", ofString ".english"].find? fun mark =>
      mark.isSuffixOf (s.map ignoreCase) with
  | some mark => s.take (s.length - mark.length)
  | none => s

/-- This substitution is `re.sub(r"\.(en|eng|english)$", "", stem)`; `$` is also the place before a
newline at the end. -/
def withoutLanguageMark (s : Str) : Str :=
  if s.getLast? = some 0xa then dropLanguageMark s.dropLast ++ [0xa] else dropLanguageMark s

/-- This function is `translated_filename`. -/
def translatedFilename (sourceName languageSuffix : Str) : Str :=
  withoutLanguageMark (stem sourceName) ++ languageSuffix ++ lower (pathSuffix sourceName)

/-- A text of the database; a surrogate has no character. -/
def toText (s : Str) : String := String.ofList (s.map fun c => Char.ofNat c.val)

/-- A job as its worker reads it: its columns, its options, which `create_jobs` has validated, and
what the engine takes from outside. -/
structure JobPlan (Key : Type) where
  filename : Str
  stored : Str
  stored_eq : stored = storedName filename
  encoding : Str
  targets : List Language
  targets_nodup : targets.Nodup
  sourceLanguage : Str
  batchSize : Nat
  batchSize_pos : 0 < batchSize
  width : ℚ
  maxLines : Nat
  codecs : Engine.Codecs
  /-- The function `html.unescape`. -/
  unescape : Str → Str
  wide : CodePoint → Bool
  digest : Str → Key

/-- The document of a job and its segments. -/
structure Work where
  document : Document
  segments : List Segment

section Plan
variable {Key : Type} (plan : JobPlan Key)

/-- The name of the output of a language. -/
def JobPlan.outputName (language : Language) : Str :=
  translatedFilename plan.filename language.suffix

def JobPlan.output (language : Language) : Output :=
  ⟨toText (plan.outputName language), toText language.key⟩

/-- The start of `run_job` reads the source and segments its cues; `none` is an exception. -/
def JobPlan.load (folder : Folder) : Option Work := do
  let raw ← folder plan.stored
  let document ←
    (Engine.loadSubtitle plan.codecs plan.encoding (pathSuffix plan.stored) raw).toOption
  let segments ← (Engine.segmentCues plan.unescape document.cues).toOption
  pure ⟨document, segments⟩

/-- The arguments of `translate_segments` for a language. -/
def JobPlan.request (work : Work) (language : Language) : Engine.Request where
  segs := work.segments
  target := language
  src := plan.sourceLanguage
  batchSize := plan.batchSize
  batchSize_pos := plan.batchSize_pos
  retries := 4
  rateRetries := 10

/-- The bytes of an output; `none` is an exception. -/
def JobPlan.bytes (work : Work) (language : Language) (out : List Str) : Option (List UInt8) :=
  (Engine.translatedBytes plan.wide language plan.width plan.maxLines work.document work.segments
    out).toOption

/-- The percentage `5 + round(... / len(targets) * 90)`. -/
def JobPlan.percent (finished : ℚ) : Nat :=
  5 + (Engine.roundSeconds (finished / plan.targets.length * 90)).toNat

/-- The index of the first of the languages that are left. -/
def JobPlan.index (rest : List Language) : Nat := plan.targets.length - rest.length

end Plan

/-- The fraction `done / total if total else 1`. -/
def fraction (done total : Nat) : ℚ := if total = 0 then 1 else done / total

def startStage (language : Language) : String := "Translating to " ++ language.name

def progressStage (language : Language) (done total : Nat) : String :=
  "Translating to " ++ language.name ++ " (" ++ toString done ++ "/" ++ toString total ++ " segments)"

/-- These are the places of `run_job` with its local variables. In the loop, the languages are the
current one and those after it. -/
inductive Place (Key : Type) where
  | opening
  | reading
  | parsed (work : Work)
  | announcing (work : Work)
  | next (work : Work) (rest : List Language)
  | entering (work : Work) (language : Language) (rest : List Language)
  | calling (work : Work) (language : Language) (rest : List Language)
  | translating (work : Work) (language : Language) (rest : List Language) (loop : LoopState Key)
  | translated (work : Work) (language : Language) (rest : List Language) (out : List Str)
  | rebuilding (work : Work) (language : Language) (rest : List Language) (out : List Str)
  | recording (work : Work) (language : Language) (rest : List Language)
  | closing

/-- The job with the files of its folder and the variables of its worker. -/
structure RunState (Key : Type) where
  job : JobState
  folder : Folder
  place : Place Key
  cache : Key → Option Str
  /-- Every provider call so far. -/
  calls : List ProviderCall

inductive RunEvent where
  /-- A step of the worker outside the translation, or a poll. -/
  | control (event : JobEvent)
  | claim
  | load
  | checkCanceled (seen : Option (Option Status))
  | report
  /-- `translate_segments` checks the cancellation, fills in the cache hits and reports them. -/
  | callTranslate (seen : Option (Option Status))
  /-- A batch finishes; an exception of its thread is raised with a message. -/
  | finishBatch (batch : List Nat) (script : List Attempt) (seen : Option (Option Status))
      (message : String)
  | endTranslate (seen : Option (Option Status))
  | writeOutput
  /-- A write that fails leaves the file with any content or without one. -/
  | failWrite (content : Option (List UInt8)) (message : String)
  | recordOutput
  | complete
  | raise (message : String)
  /-- A request on the job; a failed removal leaves some files. -/
  | request (event : JobEvent) (left : Str → Bool)

def JobEvent.isControl : JobEvent → Bool
  | .start | .readRow | .poll _ | .readCancelEvent | .recordFailure | .recordCancel | .finish => true
  | _ => false

def JobEvent.isRequest : JobEvent → Bool
  | .cancel _ | .signal _ | .delete .. => true
  | _ => false

/-- The folder after a request. -/
def folderAfter (s : JobState) (left : Str → Bool) (folder : Folder) : JobEvent → Folder
  | .delete visible removal _ =>
      let (_, touched, answer) := deleteJob visible removal s.row
      if ¬touched then folder
      else if answer = .ok then fun _ => none
      else fun name => if left name then folder name else none
  | _ => folder

namespace RunState
variable {Key : Type} [DecidableEq Key]

/-- The job takes steps and the worker goes on to a place. -/
def advance (s : RunState Key) (events : List JobEvent) (place : Place Key) :
    Option (RunState Key) :=
  (Machine.run JobState.step s.job events).map fun job => { s with job := job, place := place }

/-- The worker checks the cancellation before it takes steps on the way to a place. -/
def check (s : RunState Key) (seen : Option (Option Status)) (events : List JobEvent)
    (place : Place Key) : Option (RunState Key) := do
  let job ← s.job.step (.checkCanceled seen)
  let s := { s with job := job }
  if job.worker = .canceling then some { s with place := .closing } else s.advance events place

/-- This step is one transaction, one file access or one local step of `run_job`, or a request. -/
def step (plan : JobPlan Key) (s : RunState Key) : RunEvent → Option (RunState Key)
  | .control event => if event.isControl then s.advance [event] s.place else none
  | .claim =>
      match s.place with
      | .opening =>
          (s.job.step .claim).map fun job =>
            { s with job := job, place := if job.claimed then .reading else .closing }
      | _ => none
  | .load =>
      match s.place with
      | .reading => (plan.load s.folder).map fun work => { s with place := .parsed work }
      | _ => none
  | .checkCanceled seen =>
      match s.place with
      | .parsed work => s.check seen [] (.announcing work)
      | .next work (language :: rest) => s.check seen [] (.entering work language rest)
      | .translating work language rest loop =>
          s.check seen [] (.translating work language rest loop)
      | .translated work language rest out => s.check seen [] (.rebuilding work language rest out)
      | _ => none
  | .report =>
      match s.place with
      | .announcing work =>
          s.advance [.report 5 ("Parsed " ++ toString work.document.cues.length ++ " cues")]
            (.next work plan.targets)
      | .entering work language rest =>
          s.advance [.report (plan.percent (plan.index (language :: rest))) (startStage language)]
            (.calling work language rest)
      | _ => none
  | .callTranslate seen =>
      match s.place with
      | .calling work language rest =>
          let request := plan.request work language
          match LoopState.start plan.digest request s.cache s.calls with
          | .error _ => none
          | .ok loop =>
              let total := work.segments.length
              s.check seen
                [.report (plan.percent (plan.index (language :: rest) + fraction loop.cached total))
                  (progressStage language loop.cached total)]
                (.translating work language rest loop)
      | _ => none
  | .finishBatch batch script seen message =>
      match s.place with
      | .translating work language rest loop => do
          let later ← loop.step plan.digest (plan.request work language) (.finish batch script)
          match later.raised with
          | some .canceled => do
              let job ← s.job.step (.checkCanceled seen)
              -- A thread that finds the cancellation raises it.
              if job.worker = .canceling then
                some { s with job := job, place := .closing, calls := later.calls }
              else none
          | some _ =>
              ({ s with calls := later.calls } : RunState Key).advance [.fail message] .closing
          | none =>
              let total := work.segments.length
              let done := later.cached + later.done
              s.advance
                [.countUntranslated (later.fallbacks.sum - loop.fallbacks.sum),
                  .report (plan.percent (plan.index (language :: rest) + fraction done total))
                    (progressStage language done total)]
                (.translating work language rest later)
      | _ => none
  | .endTranslate seen =>
      match s.place with
      | .translating work language rest loop =>
          if loop.pending = [] then
            ({ s with cache := loop.cache, calls := loop.calls } : RunState Key).check seen []
              (.translated work language rest (loop.results.map (·.getD [])))
          else none
      | _ => none
  | .writeOutput =>
      match s.place with
      | .rebuilding work language rest out =>
          (plan.bytes work language out).map fun bytes =>
            { s with
              folder := Function.update s.folder (plan.outputName language) (some bytes)
              place := .recording work language rest }
      | _ => none
  | .failWrite content message =>
      match s.place with
      | .rebuilding _ language _ _ =>
          ({ s with folder := Function.update s.folder (plan.outputName language) content } :
            RunState Key).advance [.fail message] .closing
      | _ => none
  | .recordOutput =>
      match s.place with
      | .recording work language rest =>
          s.advance [.addOutput (plan.output language) (plan.percent (plan.index rest))]
            (.next work rest)
      | _ => none
  | .complete =>
      match s.place with
      | .next work [] =>
          s.advance [.complete work.segments.length plan.targets.length] .closing
      | _ => none
  | .raise message => s.advance [.fail message] .closing
  | .request event left =>
      if event.isRequest then
        ({ s with folder := folderAfter s.job left s.folder event } : RunState Key).advance [event]
          s.place
      else none

/-- A new job has its source in its folder. -/
def initial (plan : JobPlan Key) (source : List UInt8) : RunState Key where
  job := .initial
  folder := Folder.single plan.stored (some source)
  place := .opening
  cache := fun _ => none
  calls := []

end RunState

end SubtitleTranslator.Jobs
