import SubtitleTranslator.Construction.ArchiveBuilds
import SubtitleTranslator.Construction.AttemptLimiter
import SubtitleTranslator.Construction.BatchDriver
import SubtitleTranslator.Construction.Calendar
import SubtitleTranslator.Construction.CancelMonitor
import SubtitleTranslator.Construction.EmailSends
import SubtitleTranslator.Construction.EmailedCodes
import SubtitleTranslator.Construction.Engine
import SubtitleTranslator.Construction.FactorRuns
import SubtitleTranslator.Construction.Formats
import SubtitleTranslator.Construction.JobRequests
import SubtitleTranslator.Construction.JobTables
import SubtitleTranslator.Construction.JobUpload
import SubtitleTranslator.Construction.Jobs
import SubtitleTranslator.Construction.Login
import SubtitleTranslator.Construction.Markup
import SubtitleTranslator.Construction.Mfa
import SubtitleTranslator.Construction.Numbered
import SubtitleTranslator.Construction.Providers
import SubtitleTranslator.Construction.Quota
import SubtitleTranslator.Construction.ReadCache
import SubtitleTranslator.Construction.Rebuild
import SubtitleTranslator.Construction.Roster
import SubtitleTranslator.Construction.RunJob
import SubtitleTranslator.Construction.SecondFactor
import SubtitleTranslator.Construction.Sentinel
import SubtitleTranslator.Construction.Server
import SubtitleTranslator.Construction.Session
import SubtitleTranslator.Construction.Settings
import SubtitleTranslator.Construction.Srt
import SubtitleTranslator.Construction.Throttle
import SubtitleTranslator.Construction.UploadNames
import SubtitleTranslator.Construction.Wrapping
import SubtitleTranslator.Construction.Writing
import SubtitleTranslator.Library.Fallible
import SubtitleTranslator.Library.FixedWindow
import SubtitleTranslator.Library.Json
import SubtitleTranslator.Library.Lines
import SubtitleTranslator.Library.Log
import SubtitleTranslator.Library.Machine
import SubtitleTranslator.Library.Packing
import SubtitleTranslator.Library.Paging
import SubtitleTranslator.Library.Pattern
import SubtitleTranslator.Library.Text
import SubtitleTranslator.Library.Transducer
import SubtitleTranslator.Library.Utf8
import SubtitleTranslator.Library.Utf8Decoding
import SubtitleTranslator.Library.Versions
import SubtitleTranslator.Proof.AcceptedSettings
import SubtitleTranslator.Proof.ActiveAdmin
import SubtitleTranslator.Proof.AdminProvenance
import SubtitleTranslator.Proof.ArchiveBuilds
import SubtitleTranslator.Proof.AssFrame
import SubtitleTranslator.Proof.AssReading
import SubtitleTranslator.Proof.AssRereading
import SubtitleTranslator.Proof.AttemptLimiter
import SubtitleTranslator.Proof.BatchDriver
import SubtitleTranslator.Proof.CacheFreshness
import SubtitleTranslator.Proof.Calendar
import SubtitleTranslator.Proof.CalendarWindows
import SubtitleTranslator.Proof.CancelMonitor
import SubtitleTranslator.Proof.CaptchaSettings
import SubtitleTranslator.Proof.CjkBreaks
import SubtitleTranslator.Proof.CjkLines
import SubtitleTranslator.Proof.CjkPunctuation
import SubtitleTranslator.Proof.CjkWidths
import SubtitleTranslator.Proof.CodeIssues
import SubtitleTranslator.Proof.CueWriting
import SubtitleTranslator.Proof.DashedWrapping
import SubtitleTranslator.Proof.Documents
import SubtitleTranslator.Proof.EmailSends
import SubtitleTranslator.Proof.EmailedCodes
import SubtitleTranslator.Proof.FactorBudgets
import SubtitleTranslator.Proof.FactorEffects
import SubtitleTranslator.Proof.FaithfulService
import SubtitleTranslator.Proof.JobLifecycle
import SubtitleTranslator.Proof.JobPages
import SubtitleTranslator.Proof.JobPrivacy
import SubtitleTranslator.Proof.JobScopes
import SubtitleTranslator.Proof.JobUpload
import SubtitleTranslator.Proof.LatinWrapping
import SubtitleTranslator.Proof.LockExpiry
import SubtitleTranslator.Proof.LoginBudget
import SubtitleTranslator.Proof.MaskInverse
import SubtitleTranslator.Proof.Masking
import SubtitleTranslator.Proof.NumberedRoundTrip
import SubtitleTranslator.Proof.ProviderReplies
import SubtitleTranslator.Proof.QuotaAccounting
import SubtitleTranslator.Proof.QuotaRetry
import SubtitleTranslator.Proof.RebuildFidelity
import SubtitleTranslator.Proof.ReplyErrors
import SubtitleTranslator.Proof.RetryBudgets
import SubtitleTranslator.Proof.Revocation
import SubtitleTranslator.Proof.RunJob
import SubtitleTranslator.Proof.RunProgress
import SubtitleTranslator.Proof.SecondFactor
import SubtitleTranslator.Proof.SegmentText
import SubtitleTranslator.Proof.Segments
import SubtitleTranslator.Proof.Sentinels
import SubtitleTranslator.Proof.ServerJobs
import SubtitleTranslator.Proof.ServerSettings
import SubtitleTranslator.Proof.SessionLifetime
import SubtitleTranslator.Proof.SingleUse
import SubtitleTranslator.Proof.SrtCues
import SubtitleTranslator.Proof.SrtNormalForm
import SubtitleTranslator.Proof.SrtReading
import SubtitleTranslator.Proof.StructureFidelity
import SubtitleTranslator.Proof.SubmittedJobs
import SubtitleTranslator.Proof.ThrottleSafety
import SubtitleTranslator.Proof.Timing
import SubtitleTranslator.Proof.UploadNames
import SubtitleTranslator.Proof.VttNormalForm
import SubtitleTranslator.Proof.VttReading
import SubtitleTranslator.Proof.VttTiming
import SubtitleTranslator.Proof.VttTimings
import SubtitleTranslator.Proof.WrapForm
import SubtitleTranslator.Proof.Wrapping
import SubtitleTranslator.Proof.Writing
