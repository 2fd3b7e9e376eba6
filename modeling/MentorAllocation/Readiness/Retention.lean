import Mathlib
import MentorAllocation.Data.Dict
import MentorAllocation.Data.Double
import MentorAllocation.Sorting.Stable

namespace Readiness
open Data Sorting

/-- A backup; its times are doubles. -/
structure RetentionEntry where
  path : String
  sizeBytes : Nat
  modifiedAt : ℚ
  createdAt : ℚ

/-- A policy that the model accepts. -/
structure RetentionPolicy where
  maxAgeDays : Nat
  maxTotalSizeMb : Nat
  keepLatest : Nat
  enforce : Bool
  age_bounds : maxAgeDays ≤ 365
  size_bounds : 1 ≤ maxTotalSizeMb ∧ maxTotalSizeMb ≤ 4096
  keep_bounds : 1 ≤ keepLatest ∧ keepLatest ≤ 100

abbrev Removals := Dict String (List String)

/-- `removals.setdefault(path, set()).add(reason)`. -/
def Removals.add (removals : Removals) (path reason : String) : Removals :=
  let reasons := (removals.get? path).getD []
  removals.set path (if reason ∈ reasons then reasons else reasons ++ [reason])

namespace RetentionPolicy
variable (policy : RetentionPolicy)

/-- `timedelta(days=...).total_seconds()`. -/
def ageLimit : ℚ := policy.maxAgeDays * 86400

def sizeLimitBytes : Nat := policy.maxTotalSizeMb * 1024 * 1024

/-- The paths of the entries that were modified last. -/
def keepSet (entries : List RetentionEntry) : List String :=
  ((sortedBy (fun entry => OrderDual.toDual entry.modifiedAt) entries).take policy.keepLatest).map
    RetentionEntry.path

def agePass (keep : List String) (now : ℚ) (entries : List RetentionEntry)
    (removals : Removals) : Removals :=
  entries.foldl (fun removals entry =>
    if entry.path ∈ keep then removals
    else
      let ageDelta := double (now - entry.modifiedAt)
      if policy.ageLimit ≠ 0 ∧ policy.ageLimit < ageDelta then removals.add entry.path "age"
      else removals) removals

def sizePass (keep : List String) : List RetentionEntry → Int → Removals → Removals
  | [], _, removals => removals
  | entry :: entries, bytesOver, removals =>
    if entry.path ∈ keep then sizePass keep entries bytesOver removals
    else
      let removals := removals.add entry.path "size"
      let bytesOver := bytesOver - entry.sizeBytes
      if bytesOver ≤ 0 then removals else sizePass keep entries bytesOver removals

def plan (now : ℚ) (entries : List RetentionEntry) : List RetentionEntry × Removals :=
  let keep := policy.keepSet entries
  let totalBytes : Int := (entries.map RetentionEntry.sizeBytes).sum
  let bytesAllowed : Int := max 0 policy.sizeLimitBytes
  let bytesOver := max 0 (totalBytes - bytesAllowed)
  let removals := policy.agePass keep now entries Dict.empty
  if 0 < bytesOver then
    (entries, sizePass keep (sortedBy RetentionEntry.modifiedAt entries) bytesOver removals)
  else (entries, removals)

end RetentionPolicy

end Readiness
