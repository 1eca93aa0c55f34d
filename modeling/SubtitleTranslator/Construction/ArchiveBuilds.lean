import SubtitleTranslator.Construction.JobUpload
import SubtitleTranslator.Library.Machine

namespace SubtitleTranslator.Jobs
open Library Text

/-- The digest of a list of names, and the bytes of the archive that `zipfile` writes. -/
structure ArchiveFormat where
  digest : List Str → Str
  zip : List (Str × List UInt8) → List UInt8

def archivePrefix : Str := ofString ".translations-"

/-- The name of the archive of a list of outputs. -/
def ArchiveFormat.archiveName (format : ArchiveFormat) (names : List Str) : Str :=
  archivePrefix ++ format.digest names ++ ofString ".zip"

/-- The name that `mkstemp` makes of its random letters. -/
def temporaryName (token : Str) : Str := archivePrefix ++ token ++ ofString ".partial"

/-- The outputs of a job are subtitles. -/
def isOutputName (name : Str) : Bool :=
  supportedExtensions.any fun extension => extension.isSuffixOf name

/-- These are the places of `download_all` and `build_archive` with their local variables. -/
inductive ArchiveStage where
  | idle
  /-- The request has read the outputs of the row. -/
  | listed (names : List Str)
  /-- There was no archive. -/
  | missing (names : List Str)
  /-- The request adds the files to its own archive. -/
  | building (names : List Str) (token : Str) (parts : List (Str × List UInt8)) (rest : List Str)
  /-- The archive is complete under its temporary name. -/
  | bundled (names : List Str) (token : Str)
  /-- The temporary file is removed; `published` is false when an exception is raised. -/
  | cleaning (names : List Str) (token : Str) (published : Bool)
  | serving (names : List Str)
  deriving DecidableEq

/-- The temporary file of a request. -/
def ArchiveStage.token? : ArchiveStage → Option Str
  | .building _ token _ _ | .bundled _ token | .cleaning _ token _ => some token
  | _ => none

/-- The folder of a job and the requests for its archive. -/
structure ArchiveState where
  files : Str → Option (List UInt8)
  /-- The outputs of the row in their order, with the content that each was written with. -/
  outputs : List (Str × List UInt8)
  requests : Nat → ArchiveStage
  /-- The random letters that `mkstemp` has used. -/
  used : List Str
  /-- The archives that were sent, with the names that their requests had listed. -/
  served : List (List Str × List UInt8)

inductive ArchiveEvent where
  /-- The worker writes a file that it has not recorded, or a part of it. -/
  | writeOutput (name : Str) (content : List UInt8)
  | recordOutput (name : Str)
  /-- The removal of the job removes a file. -/
  | removeFile (name : Str)
  | listOutputs (request : Nat)
  | archiveExists (request : Nat)
  | makeTemporary (request : Nat) (token : Str)
  /-- The next file is added; a part of the archive may reach the disk. -/
  | addPart (request : Nat) (flushed : List UInt8)
  | closeBundle (request : Nat)
  /-- The temporary file takes the place of the archive, or the system refuses it. -/
  | replace (request : Nat) (refused : Bool)
  | unlink (request : Nat)
  | send (request : Nat)
  /-- A request raises an exception. -/
  | fail (request : Nat)

namespace ArchiveState

def setRequest (s : ArchiveState) (request : Nat) (stage : ArchiveStage) : ArchiveState :=
  { s with requests := Function.update s.requests request stage }

/-- A write to an open temporary file shows while the file has its name. -/
def writeTemporary (s : ArchiveState) (token : Str) (content : List UInt8) : ArchiveState :=
  { s with
    files := Function.update s.files (temporaryName token)
      ((s.files (temporaryName token)).map fun _ => content) }

/-- This step is one file access of a request or of the worker. -/
def step (format : ArchiveFormat) (s : ArchiveState) : ArchiveEvent → Option ArchiveState
  | .writeOutput name content =>
      if isOutputName name ∧ name ∉ s.outputs.map Prod.fst then
        some { s with files := Function.update s.files name (some content) }
      else none
  | .recordOutput name =>
      if isOutputName name ∧ name ∉ s.outputs.map Prod.fst then
        (s.files name).map fun content => { s with outputs := s.outputs ++ [(name, content)] }
      else none
  | .removeFile name => some { s with files := Function.update s.files name none }
  | .listOutputs request =>
      match s.requests request with
      | .idle =>
          if 2 ≤ s.outputs.length then
            some (s.setRequest request (.listed (s.outputs.map Prod.fst)))
          else none
      | _ => none
  | .archiveExists request =>
      match s.requests request with
      | .listed names =>
          if (s.files (format.archiveName names)).isSome then
            some (s.setRequest request (.serving names))
          else some (s.setRequest request (.missing names))
      | _ => none
  | .makeTemporary request token =>
      match s.requests request with
      | .missing names =>
          if token ∉ s.used ∧ s.files (temporaryName token) = none then
            some { s.setRequest request (.building names token [] names) with
              files := Function.update s.files (temporaryName token) (some [])
              used := token :: s.used }
          else none
      | _ => none
  | .addPart request flushed =>
      match s.requests request with
      | .building names token parts (name :: rest) =>
          match s.files name with
          | some content =>
              some ((s.writeTemporary token flushed).setRequest request
                (.building names token (parts ++ [(name, content)]) rest))
          | none => some (s.setRequest request (.cleaning names token false))
      | _ => none
  | .closeBundle request =>
      match s.requests request with
      | .building names token parts [] =>
          some ((s.writeTemporary token (format.zip parts)).setRequest request
            (.bundled names token))
      | _ => none
  | .replace request refused =>
      match s.requests request with
      | .bundled names token =>
          match s.files (temporaryName token) with
          | none => some (s.setRequest request (.cleaning names token false))
          | some content =>
              if refused then
                -- Another request may be sending the archive.
                some (s.setRequest request
                  (.cleaning names token (s.files (format.archiveName names)).isSome))
              else
                some { s.setRequest request (.cleaning names token true) with
                  files := Function.update (Function.update s.files (temporaryName token) none)
                    (format.archiveName names) (some content) }
      | _ => none
  | .unlink request =>
      match s.requests request with
      | .cleaning names token published =>
          some { s.setRequest request (if published then .serving names else .idle) with
            files := Function.update s.files (temporaryName token) none }
      | _ => none
  | .send request =>
      match s.requests request with
      | .serving names =>
          match s.files (format.archiveName names) with
          | some content =>
              some { s.setRequest request .idle with served := (names, content) :: s.served }
          | none => some (s.setRequest request .idle)
      | _ => none
  | .fail request =>
      match s.requests request with
      | .building names token _ _ | .bundled names token =>
          some (s.setRequest request (.cleaning names token false))
      | .cleaning names token _ => some (s.setRequest request (.cleaning names token false))
      | _ => some (s.setRequest request .idle)

/-- A job starts with its source and without outputs. -/
def initial (original : Str) (source : List UInt8) : ArchiveState where
  files := Folder.single (storedName original) (some source)
  outputs := []
  requests := fun _ => .idle
  used := []
  served := []

end ArchiveState

end SubtitleTranslator.Jobs
