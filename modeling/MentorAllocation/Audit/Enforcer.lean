import MentorAllocation.Audit.Archiver

namespace Audit
open Data Effects Files Text Sorting

/-- The month of a partition. `partitions.json` need not give it as a text; another value is kept
by what is written of the values that equal it. -/
inductive MonthKey where
  | text (key : String)
  | nan
  | other (written : String)
  deriving DecidableEq, Repr

structure PartitionInfo where
  monthKey : MonthKey
  start : DateTime
  stop : DateTime
  sizeBytes : Int
  deriving DecidableEq, Repr

inductive Reason where
  | age
  | size
  deriving DecidableEq, Repr

structure RetentionPlanEntry where
  monthKey : MonthKey
  reason : Reason
  start : DateTime
  stop : DateTime
  sizeBytes : Int
  deriving DecidableEq, Repr

def PartitionInfo.entry (reason : Reason) (partition : PartitionInfo) : RetentionPlanEntry :=
  ⟨partition.monthKey, reason, partition.start, partition.stop, partition.sizeBytes⟩

/-- `==` of two months; NaN does not even equal itself. -/
def sameMonth (a b : MonthKey) : Bool := a == b && a != .nan

namespace AuditArchiveConfig
variable (config : AuditArchiveConfig) (now : DateTime)

def olderInDays (partition : PartitionInfo) : Bool :=
  config.retentionAgeDays.any fun days => days < now.daysSince partition.start

def olderInMonths (partition : PartitionInfo) : Bool :=
  config.retentionAgeMonths.any fun months => months < now.monthsSince partition.start

def listed (findings : List RetentionPlanEntry) (partition : PartitionInfo) : Bool :=
  findings.any fun item => sameMonth item.monthKey partition.monthKey

def dayPass (partitions : List PartitionInfo) : List RetentionPlanEntry :=
  (partitions.filter (config.olderInDays now)).map (PartitionInfo.entry .age)

def monthPass (partitions : List PartitionInfo) (findings : List RetentionPlanEntry) :
    List RetentionPlanEntry :=
  partitions.foldl (fun findings partition =>
    if config.olderInMonths now partition && !listed findings partition
    then findings ++ [partition.entry .age] else findings) findings

/-- The loop over the partitions from the oldest on: its total goes down by each of them, also by
one that is listed already. -/
def sizePass (limit : Int) :
    Int → List PartitionInfo → List RetentionPlanEntry → List RetentionPlanEntry
  | _, [], findings => findings
  | totalBytes, partition :: rest, findings =>
    if totalBytes ≤ limit then findings
    else sizePass limit (totalBytes - partition.sizeBytes) rest
      (if listed findings partition then findings else findings ++ [partition.entry .size])

def plan (partitions : List PartitionInfo) : List RetentionPlanEntry :=
  let findings := config.monthPass now partitions (config.dayPass now partitions)
  let findings := match config.retentionSizeBytes with
    | none => findings
    | some limit => sizePass limit (partitions.map PartitionInfo.sizeBytes).sum
        (sortedBy (fun partition => partition.start.instant) partitions) findings
  sortedBy (fun item => item.start.instant) findings

end AuditArchiveConfig

/-- `int(value)`. -/
def intOf (L : Library) : Json → Except Raised Int
  | .int n => .ok n
  | .bool b => .ok (if b then 1 else 0)
  | .float repr => match L.floatInt repr with
    | some n => .ok n
    | none => .error (.valueError "")
  | .str s => match parseInt s with
    | some n => .ok n
    | none => .error (.valueError "")
  | _ => .error .typeError

/-- `"type" in item`. -/
def hasType : Json → Except Raised Bool
  | .obj members => .ok (members.lookup "type").isSome
  | .arr items => .ok (items.any fun item => match item with
    | .str s => s == "type"
    | _ => false)
  | .str s => .ok (contains s "type")
  | _ => .error .typeError

/-- The types by which the artifacts of a manifest are told apart. -/
inductive TypeKey where
  | null
  | number (n : Int)
  | float (repr : String)
  | str (s : String)
  deriving DecidableEq, Repr

def typeKey (L : Library) : Json → Except Raised TypeKey
  | .null => .ok .null
  | .bool b => .ok (.number (if b then 1 else 0))
  | .int n => .ok (.number n)
  | .float repr => match L.floatInteger repr with
    | some n => .ok (.number n)
    | none => .ok (.float repr)
  | .str s => .ok (.str s)
  | _ => .error .typeError

/-- The artifacts of a manifest, the last one of each type. -/
def artifactsOf (L : Library) (payload : Json) : Except Raised (List Json) := do
  let listed := (← member? "artifacts" payload).getD (.arr [])
  let keyed ← (← iterate listed).filterMapM fun item => do
    if ← hasType item then return some (← typeKey L (← member "type" item), item)
    else return none
  return (Dict.ofList keyed).values

mutual
/-- What all values that equal a value have in common: its numbers are integers where they can. -/
def canonical (L : Library) : Json → Json
  | .bool b => .int (if b then 1 else 0)
  | .float repr => match L.floatInteger repr with
    | some n => .int n
    | none => .float repr
  | .arr items => .arr (canonicalItems L items)
  | .obj members => .obj (canonicalMembers L members)
  | value => value

def canonicalItems (L : Library) : List Json → List Json
  | [] => []
  | v :: vs => canonical L v :: canonicalItems L vs

def canonicalMembers (L : Library) : List (String × Json) → List (String × Json)
  | [] => []
  | (key, v) :: rest => (key, canonical L v) :: canonicalMembers L rest
end

def monthKeyOf (L : Library) : Json → MonthKey
  | .str key => .text key
  | .float "nan" => .nan
  | value => .other (Json.dumps { sortKeys := true } (canonical L value))

structure AuditRetentionEnforcer where
  archiver : AuditArchiver
  config : AuditArchiveConfig

namespace AuditRetentionEnforcer
variable (E : AuditRetentionEnforcer)

/-- One partition of `partitions.json`. A start without an offset raises once it is subtracted. -/
def partitionOf (L : Library) (item : Json) : Except Raised PartitionInfo := do
  let monthKey := monthKeyOf L (← member "month" item)
  let .str start ← member "start" item | throw .typeError
  let some start := L.fromisoformat start | throw (.valueError "")
  let .str stop ← member "end" item | throw .typeError
  let some stop := (L.fromisoformat stop).or (L.fromNaive stop) | throw (.valueError "")
  let sizeBytes ← intOf L ((← member? "size_bytes" item).getD (.int 0))
  return ⟨monthKey, start, stop, sizeBytes⟩

def listPartitions : Act (List PartitionInfo) := do
  Act.call .osError
  match (← get).disk.get E.archiver.partitionsPath with
  | none => return []
  | some .directory => throw .osError
  | some (.file bytes) =>
    Act.ofExcept do
      (← iterate (← loadsBytes E.archiver.lib bytes)).mapM (partitionOf E.archiver.lib)

/-- Whether the file of one artifact is there with the digest of the manifest. -/
def intact (L : Library) (disk : Disk) (artifact : Json) : Except Raised Bool := do
  let .str name := (← member? "name" artifact).getD (.str "") | throw .typeError
  match disk.get (PurePath.ofText name) with
  | none => return false
  | some .directory => throw .osError
  | some (.file contents) =>
    match ← member? "sha256" artifact with
    | some (.str digest) => return L.sha256 contents == digest
    | _ => return false

/-- The loop of `_verify_archive`, which ends at the first artifact that is not intact. -/
def allIntact (L : Library) (disk : Disk) : List Json → Except Raised Bool
  | [] => .ok true
  | artifact :: rest => do
    if ← intact L disk artifact then allIntact L disk rest else return false

def checkManifest (L : Library) (disk : Disk) (bytes : List UInt8) : Except Raised Bool := do
  allIntact L disk (← artifactsOf L (← loadsBytes L bytes))

def verifyArchive (monthKey : MonthKey) : Act Bool := do
  let .text key := monthKey | throw .typeError
  let window ← Act.ofExcept (windowOf E.archiver.tz key)
  let manifestPath ← E.archiver.artifactPath window (E.archiver.manifestPath window)
  Act.call .osError
  let disk := (← get).disk
  match disk.get manifestPath with
  | none => return false
  | some .directory => throw .osError
  | some (.file bytes) => Act.ofExcept (checkManifest E.archiver.lib disk bytes)

/-- `_drop_partition`, which takes off the triggers of SQLite alone; those of PostgreSQL refuse
to delete a row. -/
def dropPartition (entry : RetentionPlanEntry) : Act Unit := do
  Act.call (.databaseError "")
  let w ← get
  let gone := AuditArchiver.inWindow entry.start entry.stop
  if E.archiver.dialect = .postgresql ∧ w.events.any gone then
    throw (.databaseError "AUDIT_APPEND_ONLY")
  set { w with events := w.events.filter fun event => !gone event }

def retentionError : String :=
  "AUDIT_RETENTION_ERROR: پاک‌سازی ناممکن است؛ ابتدا آرشیو معتبر تولید کنید."

def runWithRetry {α : Type} (act : Act α) : Act α :=
  retrying (E.config.retryAttempts.toNat - 1) act

def enforceEntries : List RetentionPlanEntry → Act Unit
  | [] => pure ()
  | entry :: rest => do
    let verified ← E.runWithRetry (E.verifyArchive entry.monthKey)
    if !verified then throw (.archiveFailure retentionError)
    E.runWithRetry (E.dropPartition entry)
    enforceEntries rest

def enforce (now : DateTime) (dryRun : Bool) :
    Act (List RetentionPlanEntry × List RetentionPlanEntry) := do
  let partitions ← E.listPartitions
  let plan := E.config.plan now partitions
  if dryRun then return (plan, [])
  else
    E.enforceEntries plan
    return (plan, plan)

end AuditRetentionEnforcer

end Audit
