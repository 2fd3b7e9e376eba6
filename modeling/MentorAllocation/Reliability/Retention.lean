import Mathlib
import MentorAllocation.Data.Dict
import MentorAllocation.Data.Double
import MentorAllocation.Data.Shedding
import MentorAllocation.Sorting.Stable

namespace Reliability
open Data Sorting

/-- An absolute path by its parts. -/
abbrev Path := List String

def Path.str (path : Path) : String := "/" ++ "/".intercalate path

def Path.name (path : Path) : String := path.getLastD ""

/-- What `stat` tells of a file: the time of its last change as a double, and its size. -/
structure FileStat where
  mtime : ℚ
  size : Nat
  deriving DecidableEq

/-- The files of the machine, in the order in which they are listed. -/
abbrev Disk := Dict Path FileStat

/-- `RetentionConfig`: neither limit may be negative. -/
structure RetentionConfig where
  ageDays : Nat
  maxTotalBytes : Nat

structure Item where
  path : Path
  mtime : ℚ
  size : Nat
  ageDays : Int

inductive Reason where
  | age
  | size
  deriving DecidableEq

def Reason.text : Reason → String
  | .age => "age"
  | .size => "size"

structure RetentionFinding where
  path : Path
  reason : Reason
  ageDays : Int
  sizeBytes : Nat

structure Entry where
  path : String
  reason : String
  ageDays : Int
  sizeBytes : Nat

structure Report where
  dryRun : List Entry
  enforced : List Entry

/-- The `RuntimeError` of a deletion that the system refuses, as `persian_error` words it. -/
structure RetentionFailure where
  message : String
  code : String
  correlationId : String
  details : String

/-- An enforcer. `refuses` is what the system answers to a deletion that it refuses. -/
structure RetentionEnforcer where
  artifactsRoot : Path
  backupsRoot : Path
  config : RetentionConfig
  refuses : Path → Option String

/-- `root.rglob("*")` comes upon this path. -/
def Path.under (root path : Path) : Bool := root.isPrefixOf path && path != root

/-- The age of a file in whole days; the difference and the quotient are doubles. -/
def ageDays (now mtime : ℚ) : Int := ⌊max 0 (double (double (now - mtime) / 86400))⌋

def findingToDict (finding : RetentionFinding) : Entry :=
  let pathText := finding.path.str
  let pathText :=
    if ["=", "+", "-", "@"].any fun mark => pathText.startsWith mark then "'" ++ pathText
    else pathText
  { path := pathText
    reason := finding.reason.text
    ageDays := finding.ageDays
    sizeBytes := finding.sizeBytes }

namespace RetentionEnforcer
variable (E : RetentionEnforcer)

def iterFiles (disk : Disk) : List (Path × FileStat) :=
  [E.artifactsRoot, E.backupsRoot].flatMap fun root =>
    disk.entries.filter fun file => root.under file.1

def item (now : ℚ) (file : Path × FileStat) : Item :=
  { path := file.1
    mtime := file.2.mtime
    size := file.2.size
    ageDays := Reliability.ageDays now file.2.mtime }

/-- The files that `_evaluate` goes through, in the order in which they are listed. -/
def items (now : ℚ) (disk : Disk) : List Item := (E.iterFiles disk).map (item now)

def finding (reason : Reason) (item : Item) : RetentionFinding :=
  { path := item.path, reason, ageDays := item.ageDays, sizeBytes := item.size }

/-- The first loop of `_evaluate`: the findings, the items that stay and their bytes. -/
def agePass : List Item → Int → List RetentionFinding × List Item × Int
  | [], totalBytes => ([], [], totalBytes)
  | item :: items, totalBytes =>
    if E.config.ageDays < item.ageDays then
      let (findings, remaining, totalBytes) := agePass items (totalBytes - item.size)
      (finding .age item :: findings, remaining, totalBytes)
    else
      let (findings, remaining, totalBytes) := agePass items totalBytes
      (findings, item :: remaining, totalBytes)

def sizePass : List Item → Int → List RetentionFinding
  | [], _ => []
  | item :: items, totalBytes =>
    if totalBytes ≤ E.config.maxTotalBytes then []
    else finding .size item :: sizePass items (totalBytes - item.size)

def evaluate (now : ℚ) (disk : Disk) : List RetentionFinding :=
  let files := sortedBy Item.mtime (E.items now disk)
  let totalBytes : Int := (files.map Item.size).sum
  let (findings, remaining, totalBytes) := E.agePass files totalBytes
  if E.config.maxTotalBytes < totalBytes then
    let remaining := sortedBy (fun item => OrderDual.toDual item.size) remaining
    findings ++ E.sizePass remaining totalBytes
  else findings

/-- `_enforce`, and the files that are left. -/
def enforce : List RetentionFinding → Disk → Except RetentionFailure (List RetentionFinding) × Disk
  | [], disk => (.ok [], disk)
  | finding :: findings, disk =>
    match E.refuses finding.path with
    | some details =>
      (.error
        { message := "حذف فایل در سیاست نگه‌داری شکست خورد."
          code := "RETENTION_DELETE_FAILED"
          correlationId := finding.path.name
          details }, disk)
    | none =>
      let (removed, disk) := enforce findings (disk.filterKeys (· != finding.path))
      (removed.map (finding :: ·), disk)

/-- `run`, and the files that are left. The reports are written elsewhere. -/
def run (enforce : Bool) (now : ℚ) (disk : Disk) : Except RetentionFailure Report × Disk :=
  let findings := E.evaluate now disk
  let dryPayload := findings.map findingToDict
  if enforce then
    let (enforced, disk) := E.enforce findings disk
    (enforced.map fun enforced =>
      { dryRun := dryPayload, enforced := enforced.map findingToDict }, disk)
  else (.ok { dryRun := dryPayload, enforced := [] }, disk)

end RetentionEnforcer

end Reliability
