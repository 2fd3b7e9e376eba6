import MentorAllocation.Allocation.Proofs.Capacity
import MentorAllocation.Allocation.Proofs.Reported
import MentorAllocation.Allocation.Proofs.Retry
import MentorAllocation.Allocation.Proofs.Unrelated
import MentorAllocation.Audit.Proofs.AgeLimit
import MentorAllocation.Audit.Proofs.NoLoss
import MentorAllocation.Audit.Proofs.SizePlan
import MentorAllocation.Core.Proofs.Greedy
import MentorAllocation.Core.Proofs.Identity
import MentorAllocation.Counter.Proofs.ChunkSizes
import MentorAllocation.Counter.Proofs.Prediction
import MentorAllocation.Counter.Proofs.Rejection
import MentorAllocation.Counter.Proofs.Spelling
import MentorAllocation.Domain.Proofs.RoundRobin
import MentorAllocation.Export.Proofs.Chunking
import MentorAllocation.Export.Proofs.CounterPrefix
import MentorAllocation.Export.Proofs.CsvGuard
import MentorAllocation.Export.Proofs.FormulaGuard
import MentorAllocation.Export.Proofs.SortKey
import MentorAllocation.Export.Proofs.Sorting
import MentorAllocation.Export.Proofs.Submission
import MentorAllocation.Export.Proofs.Validation
import MentorAllocation.Outbox.Proofs.Isolation
import MentorAllocation.Phase3.Proofs.GroupMatching
import MentorAllocation.Readiness.Proofs.Pilot
import MentorAllocation.Readiness.Proofs.Retention
import MentorAllocation.Release.Proofs.Backup
import MentorAllocation.Release.Proofs.CrashSafety
import MentorAllocation.Release.Proofs.Retention
import MentorAllocation.Reliability.Proofs.Retention
import MentorAllocation.Security.Proofs.Climbing
import MentorAllocation.Security.Proofs.RateLimiter
import MentorAllocation.Ui.Proofs.Draining
import MentorAllocation.Ui.Proofs.Paging
import MentorAllocation.Ui.Proofs.TraceStorages
import MentorAllocation.Uploads.Proofs.Crlf
import MentorAllocation.Uploads.Proofs.Leftovers
import MentorAllocation.Uploads.Proofs.Ownership
import MentorAllocation.Xlsx.Proofs.FormulaGuard
import MentorAllocation.Xlsx.Proofs.Overwrites
import MentorAllocation.Xlsx.Proofs.Staleness
