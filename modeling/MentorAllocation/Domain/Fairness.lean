import Mathlib.Data.Prod.Lex
import MentorAllocation.Data.Dict
import MentorAllocation.Data.Interleave
import MentorAllocation.Domain.Entities
import MentorAllocation.Sorting.Stable

namespace Domain
open Data Sorting

inductive FairnessStrategy where
  | none
  | deterministicJitter
  | bucketRoundRobin
  deriving DecidableEq, Repr

/-- What the planner is made from, with the arithmetic of doubles and the hash it uses: `bucketKey`
is `int(mentor.occupancy_ratio / bucket_size)`, and `addJitter` adds the millionths that a hash
gives. -/
structure FairnessConfig (ρ : Type) where
  strategy : FairnessStrategy := .none
  occupancyRatio : Mentor → ρ
  bucketKey : Mentor → Int
  addJitter : ρ → Nat → ρ
  stableCounterHash : String → Nat

/-- `_round_robin_state`: the mentor that came first when the key was last ranked. -/
abbrev RoundRobinState := Dict String Int

/-- `academic_year or "default"` -/
def fairnessKey (academicYear : Option String) : String :=
  match academicYear with
  | some year => if year.isEmpty then "default" else year
  | none => "default"

namespace FairnessConfig
variable {ρ τ : Type} (C : FairnessConfig ρ)

def withDeterministicJitter [LinearOrder ρ] (items : List (Mentor × τ)) (key : String) :
    List (Mentor × τ) :=
  let jittered := items.map fun (mentor, trace) =>
    let seed := key ++ ":" ++ toString mentor.mentorId
    (mentor, trace, C.stableCounterHash seed % 10000)
  let sorted := sortedBy (fun entry => (toLex (C.addJitter (C.occupancyRatio entry.1) entry.2.2,
    toLex (entry.1.currentLoad, entry.1.mentorId)) : ρ ×ₗ ℤ ×ₗ ℤ)) jittered
  sorted.map fun (mentor, trace, _) => (mentor, trace)

def addToBucket (key : String) (buckets : Dict Int (List (Mentor × τ × Nat)))
    (item : Mentor × τ) : Dict Int (List (Mentor × τ × Nat)) :=
  let bucketKey := C.bucketKey item.1
  let seed := C.stableCounterHash
    (key ++ ":" ++ toString bucketKey ++ ":" ++ toString item.1.mentorId)
  buckets.set bucketKey ((buckets.get? bucketKey).getD [] ++ [(item.1, item.2, seed)])

/-- The buckets in order of their keys, each sorted. -/
def orderedBuckets (items : List (Mentor × τ)) (key : String) : List (List (Mentor × τ × Nat)) :=
  let buckets := items.foldl (C.addToBucket key) Dict.empty
  (sortedBy id buckets.keys).map fun bucketKey =>
    sortedBy (fun entry => (toLex (entry.1.currentLoad, toLex (entry.1.mentorId, entry.2.2)) :
      ℤ ×ₗ ℤ ×ₗ ℕ)) ((buckets.get? bucketKey).getD [])

/-- `_with_bucket_round_robin`, up to the rotation. -/
def interleaved (items : List (Mentor × τ)) (key : String) : List (Mentor × τ) :=
  (interleave (C.orderedBuckets items key)).map fun (mentor, trace, _) => (mentor, trace)

/-- Where the list begins when it begins after the mentor that came first last time. -/
def startIndex (interleaved : List (Mentor × τ)) (lastMentor : Option Int) : Nat :=
  match lastMentor with
  | none => 0
  | some lastMentor =>
    match interleaved.findIdx? (·.1.mentorId == lastMentor) with
    | some index => (index + 1) % interleaved.length
    | none => 0

def withBucketRoundRobin (state : RoundRobinState) (items : List (Mentor × τ)) (key : String) :
    List (Mentor × τ) × RoundRobinState :=
  if (C.orderedBuckets items key).isEmpty then (items, state)
  else
    let interleaved := C.interleaved items key
    let start := startIndex interleaved (state.get? key)
    let rotated := interleaved.drop start ++ interleaved.take start
    match rotated with
    | first :: _ => (rotated, state.set key first.1.mentorId)
    | [] => (rotated, state)

def rank [LinearOrder ρ] (state : RoundRobinState) (items : List (Mentor × τ))
    (academicYear : Option String) : List (Mentor × τ) × RoundRobinState :=
  if items.length ≤ 1 ∨ C.strategy = .none then (items, state)
  else
    let key := fairnessKey academicYear
    match C.strategy with
    | .deterministicJitter => (C.withDeterministicJitter items key, state)
    | .bucketRoundRobin => C.withBucketRoundRobin state items key
    | .none => (items, state)

end FairnessConfig

end Domain
