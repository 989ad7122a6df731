import NurseryRota.Main
import NurseryRota.Proofs.CachedRuns
import NurseryRota.Proofs.CanonicalSpans
import NurseryRota.Proofs.ConfigurationRead
import NurseryRota.Proofs.ConflictPairs
import NurseryRota.Proofs.CrashRecovery
import NurseryRota.Proofs.EditLines
import NurseryRota.Proofs.FiledOnce
import NurseryRota.Proofs.FrameDamage
import NurseryRota.Proofs.FrameSurplus
import NurseryRota.Proofs.IndependentEdits
import NurseryRota.Proofs.InputOrder
import NurseryRota.Proofs.JournalBound
import NurseryRota.Proofs.NeedBounds
import NurseryRota.Proofs.NeedInWords
import NurseryRota.Proofs.PassCounts
import NurseryRota.Proofs.RejectedRuns
import NurseryRota.Proofs.ReportMerging
import NurseryRota.Proofs.ReportReadBack
import NurseryRota.Proofs.RulesDocuments
import NurseryRota.Proofs.ShortestHistory
import NurseryRota.Proofs.StaffingMonotone
import NurseryRota.Proofs.StaleDays
import NurseryRota.Proofs.TeamTimeline
import NurseryRota.Proofs.Truncation
