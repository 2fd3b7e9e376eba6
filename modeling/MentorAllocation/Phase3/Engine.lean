import Mathlib.Data.Prod.Lex
import MentorAllocation.Data.Double
import MentorAllocation.Phase3.Policy
import MentorAllocation.Sorting.Stable

namespace Phase3
open Data Sorting

/-- `(occupancy_ratio, current_load, mentor_id)`, compared from the left. -/
abbrev RankingKey := ℚ ×ₗ ℤ ×ₗ ℤ

structure AllocationTraceEntry where
  mentor : Option MentorLike
  normalized : Option NormalizedMentor
  passed : Bool
  trace : List TraceEntry
  rankingKey : Option RankingKey

/-- `_compute_occupancy_ratio`: the quotient of two integers is the nearest double. Mentors that
are ranked have a load of at least 0 that is less than their capacity. -/
def computeOccupancyRatio (mentor : NormalizedMentor) : ℚ :=
  if mentor.capacity ≤ 0 then 1 else nearestDouble (mentor.currentLoad / mentor.capacity)

def NormalizedMentor.rankingKey (mentor : NormalizedMentor) : RankingKey :=
  toLex (computeOccupancyRatio mentor, toLex (mentor.currentLoad, mentor.mentorId))

def NormalizationError.trace (error : NormalizationError) : List TraceEntry :=
  [⟨error.ruleCode, false, ("message", .text error.message) :: error.details⟩]

namespace EligibilityPolicy
variable (P : EligibilityPolicy)

def evaluateMentor (student : NormalizedStudent) (mentor : MentorLike) : AllocationTraceEntry :=
  match P.normalizeMentor mentor with
  | .error error => ⟨some mentor, none, false, error.trace, none⟩
  | .ok normalized =>
    let (passed, trace) := P.runRules student normalized
    ⟨some mentor, some normalized, passed, trace,
      if passed then some normalized.rankingKey else none⟩

def considerMentor (student : NormalizedStudent)
    (found : List AllocationTraceEntry × List (RankingKey × AllocationTraceEntry))
    (mentor : MentorLike) : List AllocationTraceEntry × List (RankingKey × AllocationTraceEntry) :=
  let entry := P.evaluateMentor student mentor
  (found.1 ++ [entry], match entry.rankingKey with
    | some key => found.2 ++ [(key, entry)]
    | none => found.2)

def evaluate (student : StudentLike) (mentors : List MentorLike) :
    Option MentorLike × List AllocationTraceEntry :=
  match P.normalizeStudent student with
  | .error error => (none, [⟨none, none, false, error.trace, none⟩])
  | .ok normalized =>
    let (evaluations, passedCandidates) := mentors.foldl (P.considerMentor normalized) ([], [])
    match stableSort passedCandidates with
    | [] => (none, evaluations)
    | best :: _ => (best.2.mentor, evaluations)

end EligibilityPolicy

end Phase3
