import Mathlib.Data.Prod.Lex
import MentorAllocation.Audit.Calendar
import MentorAllocation.Data.Effects
import MentorAllocation.Files.Disk
import MentorAllocation.Sorting.Stable
import MentorAllocation.Text.Bytes
import MentorAllocation.Text.Csv
import MentorAllocation.Text.JsonLoads
import MentorAllocation.Text.Numbers

namespace Audit
open Data Effects Files Text Sorting

/-- A row of `audit_events`; `ts` is in microseconds of UTC. -/
structure AuditEvent where
  id : Int
  ts : Int
  actorRole : String
  centerScope : Option String
  action : String
  resourceType : String
  resourceId : String
  jobId : Option String
  requestId : String
  outcome : String
  errorCode : Option String
  artifactSha256 : Option String
  deriving DecidableEq, Repr

structure AuditArchiveConfig where
  archiveRoot : PurePath
  csvBom : Bool
  manifestSchemaVersion : Int
  toolVersion : String
  retentionAgeDays : Option Int
  retentionAgeMonths : Option Int
  retentionSizeBytes : Option Int
  retryAttempts : Int

/-- What the code takes from elsewhere: digests in hexadecimal, normalisation, and the texts of
floats and of times. `floatInt` is `int` of a float and `floatInteger` the integer that it equals;
a time without an offset is read as the database takes it. -/
structure Library where
  sha256 : List UInt8 → String
  sha256_ne : ∀ bytes, sha256 bytes ≠ ""
  blake2b : String → String
  nfkc : String → String
  floatRepr : String → String
  floatInt : String → Option Int
  floatInteger : String → Option Int
  /-- `_normalize_iso` -/
  localIso : Int → String
  fromisoformat : String → Option DateTime
  fromNaive : String → Option DateTime

/-- The databases whose tables refuse to lose a row. -/
inductive Dialect where
  | sqlite
  | postgresql
  deriving DecidableEq, Repr

/-- The disk, the release manifest, which is a file of its own, the table, and which of the calls
of the system that are to come fail by themselves. -/
structure World where
  disk : Disk
  release : Option (List UInt8)
  events : List AuditEvent
  faults : List Bool

abbrev Act := Effect Raised World

namespace Act
variable {α : Type}

def ofExcept : Except Raised α → Act α
  | .ok a => pure a
  | .error e => throw e

/-- A call of the system; past the end of the schedule none fails. -/
def call (raised : Raised) : Act Unit := do
  let w ← get
  match w.faults with
  | [] => return
  | failing :: rest =>
    set { w with faults := rest }
    if failing then throw raised

/-- A call that may also refuse. -/
def onDisk (f : Disk → Option Disk) : Act Unit := do
  call .osError
  let w ← get
  match f w.disk with
  | some disk => set { w with disk := disk }
  | none => throw .osError

end Act

mutual
/-- Whether `json.dumps` writes a value: an integer has at most 4300 digits. -/
def printable : Json → Bool
  | .int n => (intStr n).isSome
  | .arr items => printableItems items
  | .obj members => printableMembers members
  | _ => true

def printableItems : List Json → Bool
  | [] => true
  | v :: vs => printable v && printableItems vs

def printableMembers : List (String × Json) → Bool
  | [] => true
  | (_, v) :: rest => printable v && printableMembers rest
end

/-- `json.loads(path.read_text("utf-8"))`; both errors are `ValueError`s. -/
def loadsBytes (L : Library) (bytes : List UInt8) : Except Raised Json :=
  match (decode bytes).bind (Json.loads L.floatRepr) with
  | some value => .ok value
  | none => .error (.valueError "")

/-- `value.get(key)`, for dicts alone. -/
def member? (key : String) : Json → Except Raised (Option Json)
  | .obj members => .ok (members.lookup key)
  | _ => .error .attributeError

/-- `value[key]`. -/
def member (key : String) : Json → Except Raised Json
  | .obj members => match members.lookup key with
    | some value => .ok value
    | none => .error .keyError
  | _ => .error .typeError

/-- What a `for` goes through. -/
def iterate : Json → Except Raised (List Json)
  | .arr items => .ok items
  | .obj members => .ok (members.map fun m => .str m.1)
  | .str s => .ok (s.toList.map fun c => .str (String.singleton c))
  | _ => .error .typeError

/-- The text under a key, by which a value is sorted. -/
def textUnder (key : String) (item : Json) : Except Raised (String × Json) := do
  match ← member key item with
  | .str text => return (text, item)
  | _ => throw .typeError

def sortByText (key : String) (items : List Json) : Except Raised (List Json) := do
  let keyed ← items.mapM (textUnder key)
  return (sortedBy Prod.fst keyed).map Prod.snd

def unlessText (key text : String) (item : Json) : Except Raised (Option Json) := do
  match ← member? key item with
  | some (.str found) => return if found = text then none else some item
  | _ => return some item

/-- The items that do not have this text under a key. -/
def withoutText (key text : String) (items : List Json) : Except Raised (List Json) :=
  items.filterMapM (unlessText key text)

structure ManifestEntry where
  name : String
  sha256 : String
  size : Nat
  ts : String
  kind : String

/-- The file of the release manifest after `ReleaseManifest.update`. -/
def ReleaseManifest.update (L : Library) (release : Option (List UInt8)) (entry : ManifestEntry) :
    Except Raised (List UInt8) := do
  let manifest ← match release with
    | some bytes => loadsBytes L bytes
    | none => .ok (.obj [("audit", .obj [("artifacts", .arr [])])])
  let .obj sections := manifest | throw .attributeError
  let .obj audit := (sections.lookup "audit").getD (.obj []) | throw .attributeError
  let items ← iterate ((audit.lookup "artifacts").getD (.arr []))
  let kept ← withoutText "name" entry.name items
  let artifacts ← sortByText "name" (kept ++ [.obj [("name", .str entry.name),
    ("sha256", .str entry.sha256), ("size", .int entry.size), ("ts", .str entry.ts),
    ("kind", .str entry.kind)]])
  let written : Json :=
    .obj (upsert "audit" (.obj (upsert "artifacts" (.arr artifacts) audit)) sections)
  return encode (Json.dumps { Json.Style.compact with sortKeys := true } written)

def auditTable : List (Char × Char) :=
  [('۰', '0'), ('۱', '1'), ('۲', '2'), ('۳', '3'), ('۴', '4'),
   ('۵', '5'), ('۶', '6'), ('۷', '7'), ('۸', '8'), ('۹', '9')]

def persianUnify : List (Char × Char) := [('ي', 'ی'), ('ك', 'ک')]

def zwChars : List Char := ['\u200c', '\u200d', '\u200e', '\u200f']

def controlOrds : List Char := ['\u202a', '\u202b', '\u202c', '\u202d', '\u202e']

/-- `_mask_digits`: a run of eight or more digits becomes its digest. -/
def maskDigits (L : Library) (text : String) : String :=
  String.ofList ((text.toList.splitBy fun a b => isDecimal a == isDecimal b).flatMap fun run =>
    if run.all isDecimal && 8 ≤ run.length
    then ("masked:" ++ L.blake2b (String.ofList run)).toList else run)

def sanitizeText (L : Library) (value : Option String) : String :=
  match value with
  | none => ""
  | some text =>
    let text := translate persianUnify (translate auditTable (L.nfkc text))
    let text := String.ofList (text.toList.filter fun c =>
      ' ' ≤ c || c == '\t' || c == '\r' || c == '\n')
    let text := maskDigits L (strip (remove controlOrds (remove zwChars text)))
    match text.toList.head? with
    | some c => if ['=', '+', '-', '@'].contains c then "'" ++ text else text
    | none => text

structure ArchiveRow where
  id : Int
  tsIso : String
  actorRole : String
  centerScope : String
  action : String
  resourceType : String
  resourceId : String
  jobId : String
  requestId : String
  outcome : String
  errorCode : String
  artifactSha256 : String
  deriving DecidableEq, Repr

def prepareRow (L : Library) (event : AuditEvent) : ArchiveRow where
  id := event.id
  tsIso := L.localIso event.ts
  actorRole := event.actorRole
  centerScope := sanitizeText L event.centerScope
  action := event.action
  resourceType := sanitizeText L event.resourceType
  resourceId := sanitizeText L event.resourceId
  jobId := sanitizeText L event.jobId
  requestId := sanitizeText L event.requestId
  outcome := event.outcome
  errorCode := sanitizeText L event.errorCode
  artifactSha256 := sanitizeText L event.artifactSha256

namespace ArchiveRow

def header : List String :=
  ["ts", "actor_role", "center_scope", "action", "resource_type", "resource_id", "job_id",
    "request_id", "outcome", "error_code", "artifact_sha256"]

def fields (row : ArchiveRow) : List String :=
  [row.tsIso, row.actorRole, row.centerScope, row.action, row.resourceType, row.resourceId,
    row.jobId, row.requestId, row.outcome, row.errorCode, row.artifactSha256]

def json (row : ArchiveRow) : Json :=
  .obj (("id", .int row.id) :: (header.zip (row.fields.map Json.str)))

end ArchiveRow

def csvLine (fields : List String) : List Char :=
  Csv.renderRow (fields.map fun field => ⟨true, field⟩) ++ ['\r', '\n']

def csvText (bom : Bool) (rows : List ArchiveRow) : List Char :=
  (if bom then ['\ufeff'] else []) ++
    ((ArchiveRow.header :: rows.map ArchiveRow.fields).map csvLine).flatten

/-- The lines of the JSON file. The file translates line feeds, so that the break that is written
between them comes out with two carriage returns. -/
def jsonText (rows : List ArchiveRow) : String :=
  "\r\r\n".intercalate (rows.map fun row => Json.dumps .compact row.json)

structure AuditArchiveArtifact where
  path : PurePath
  sha256 : String
  sizeBytes : Nat
  deriving DecidableEq, Repr

structure AuditArchiveResult where
  window : AuditArchiveWindow
  csv : AuditArchiveArtifact
  json : AuditArchiveArtifact
  manifest : AuditArchiveArtifact
  rowCount : Nat
  deriving DecidableEq, Repr

/-- An archiver, whose library reads the times of its windows from what they are written as. -/
structure AuditArchiver where
  lib : Library
  tz : ZoneInfo
  config : AuditArchiveConfig
  dialect : Dialect
  fromisoformat_isoformat : ∀ key window, windowOf tz key = .ok window →
    lib.fromisoformat window.start.isoformat = some window.start ∧
      lib.fromisoformat window.stop.isoformat = some window.stop

namespace AuditArchiver
variable (A : AuditArchiver)

def baseOf (window : AuditArchiveWindow) : PurePath :=
  ((A.config.archiveRoot.child "audit").child (zeroPad 4 window.start.year)).child
    (zeroPad 2 window.start.month)

def csvPath (window : AuditArchiveWindow) : PurePath :=
  (A.baseOf window).child ("audit_" ++ window.monthKey ++ ".csv")

def jsonPath (window : AuditArchiveWindow) : PurePath :=
  (A.baseOf window).child ("audit_" ++ window.monthKey ++ ".json")

def manifestPath (window : AuditArchiveWindow) : PurePath :=
  (A.baseOf window).child "archive_manifest.json"

def partitionsPath : PurePath := (A.config.archiveRoot.child "audit").child "partitions.json"

/-- `_artifact_path`, which makes the directory. -/
def artifactPath (window : AuditArchiveWindow) (path : PurePath) : Act PurePath := do
  Act.onDisk fun disk => disk.mkdir (A.baseOf window)
  return path

def isPart (name : String) : Bool := ".part".toList.isSuffixOf name.toList

/-- `_cleanup_parts`; what cannot be removed is left. -/
def cleanupParts (window : AuditArchiveWindow) : Act Unit := do
  let _ ← A.artifactPath window (A.baseOf window)
  tryCatch (Act.onDisk fun disk => some (disk.unlinkIn (A.baseOf window) isPart)) fun _ => return

def inWindow (start stop : DateTime) (event : AuditEvent) : Bool :=
  start.instant ≤ event.ts && event.ts < stop.instant

def countRows (window : AuditArchiveWindow) : Act Nat := do
  Act.call (.databaseError "")
  return (← get).events.countP (inWindow window.start window.stop)

/-- The rows of `_stream_rows`: `ORDER BY ts ASC, id ASC`. -/
def rowsOf (window : AuditArchiveWindow) (events : List AuditEvent) : List ArchiveRow :=
  (sortedBy (fun event => toLex (event.ts, event.id))
    (events.filter (inWindow window.start window.stop))).map (prepareRow A.lib)

/-- `sha256_file` and the size of a file. -/
def artifactOf (path : PurePath) : Act AuditArchiveArtifact := do
  Act.call .osError
  match (← get).disk.read path with
  | some contents => return ⟨path, A.lib.sha256 contents, contents.length⟩
  | none => throw .osError

/-- `_write_artifacts`: the JSON file, whose writer was opened last, is put in place first. -/
def writeArtifacts (window : AuditArchiveWindow) :
    Act (Nat × AuditArchiveArtifact × AuditArchiveArtifact) := do
  Act.call (.databaseError "")
  let rows := A.rowsOf window (← get).events
  Act.onDisk fun disk => disk.atomicWrite (A.jsonPath window) (encode (jsonText rows))
  Act.onDisk fun disk => disk.atomicWrite (A.csvPath window)
    (encode (String.ofList (csvText A.config.csvBom rows)))
  let csv ← A.artifactOf (A.csvPath window)
  let json ← A.artifactOf (A.jsonPath window)
  return (rows.length, csv, json)

def artifactJson (kind : String) (artifact : AuditArchiveArtifact) : Json :=
  .obj [("name", .str artifact.path.asPosix), ("sha256", .str artifact.sha256),
    ("size", .int artifact.sizeBytes), ("type", .str kind)]

def buildManifestPayload (window : AuditArchiveWindow) (csv json : AuditArchiveArtifact)
    (rowCount : Nat) (generatedAt : DateTime) : Json :=
  .obj [("schema_version", .int A.config.manifestSchemaVersion), ("month", .str window.monthKey),
    ("window", .obj [("start", .str window.start.isoformat), ("end", .str window.stop.isoformat)]),
    ("row_count", .int rowCount), ("generated_at", .str generatedAt.isoformat),
    ("tool", .obj [("name", .str "audit_archiver"), ("version", .str A.config.toolVersion)]),
    ("artifacts", .arr [artifactJson "csv" csv, artifactJson "json" json])]

def atomicWriteJson (path : PurePath) (payload : Json) : Act Nat := do
  if !printable payload then throw (.valueError "")
  let data := encode (Json.dumps .compact payload)
  Act.onDisk fun disk => disk.atomicWrite path data
  return data.length

def updateEntry (now : DateTime) (artifact : AuditArchiveArtifact) (kind : String) : Act Unit := do
  let size := (← A.artifactOf artifact.path).sizeBytes
  Act.call .osError
  let w ← get
  let release ← Act.ofExcept (ReleaseManifest.update A.lib w.release
    ⟨artifact.path.asPosix, artifact.sha256, size, now.isoformat, kind⟩)
  set { w with release := some release }

def updateRelease (now : DateTime) (result : AuditArchiveResult) : Act Unit := do
  A.updateEntry now result.csv "audit-archive-csv"
  A.updateEntry now result.json "audit-archive-json"

def partitionJson (window : AuditArchiveWindow) (sizeBytes : Nat) : Json :=
  .obj [("month", .str window.monthKey), ("start", .str window.start.isoformat),
    ("end", .str window.stop.isoformat), ("size_bytes", .int sizeBytes), ("reason", .str "age")]

/-- What `partitions.json` lists already; a file that is no JSON counts for nothing. -/
def existingPartitions (L : Library) : Option (List UInt8) → Except Raised (List Json)
  | none => .ok []
  | some bytes => match decode bytes with
    | none => .error (.valueError "")
    | some text => match Json.loads L.floatRepr text with
      | none => .ok []
      | some value => iterate value

def recordPartitionMetadata (result : AuditArchiveResult) : Act Unit := do
  Act.call .osError
  let contents := (← get).disk.read A.partitionsPath
  let existing ← Act.ofExcept (existingPartitions A.lib contents)
  let entry := partitionJson result.window
    (result.csv.sizeBytes + result.json.sizeBytes + result.manifest.sizeBytes)
  let others ← Act.ofExcept (withoutText "month" result.window.monthKey existing)
  let partitions ← Act.ofExcept (sortByText "start" (others ++ [entry]))
  let _ ← atomicWriteJson A.partitionsPath (.arr partitions)

/-- `_run_with_retry`; the tries follow one another at once. -/
def runWithRetry {α : Type} (act : Act α) : Act α :=
  retrying (A.config.retryAttempts.toNat - 1) act

def archiveMonthDry (now : DateTime) (monthKey : String) : Act AuditArchiveResult := do
  let window ← Act.ofExcept (windowOf A.tz monthKey)
  let csvPath ← A.artifactPath window (A.csvPath window)
  let jsonPath ← A.artifactPath window (A.jsonPath window)
  let manifestPath ← A.artifactPath window (A.manifestPath window)
  A.cleanupParts window
  let rowCount ← A.runWithRetry (countRows window)
  let csv := ⟨csvPath, "", 0⟩
  let json := ⟨jsonPath, "", 0⟩
  let payload := A.buildManifestPayload window csv json rowCount now
  let _ ← A.runWithRetry (atomicWriteJson manifestPath payload)
  let manifest ← A.artifactOf manifestPath
  return ⟨window, csv, json, manifest, rowCount⟩

def archiveWindow (now : DateTime) (window : AuditArchiveWindow) : Act AuditArchiveResult := do
  let (rowCount, csv, json) ← A.runWithRetry (A.writeArtifacts window)
  let payload := A.buildManifestPayload window csv json rowCount now
  let _ ← A.runWithRetry (atomicWriteJson (A.manifestPath window) payload)
  let manifest ← A.artifactOf (A.manifestPath window)
  let result : AuditArchiveResult := ⟨window, csv, json, manifest, rowCount⟩
  A.runWithRetry (A.updateRelease now result)
  A.runWithRetry (A.recordPartitionMetadata result)
  return result

def archiveError : String :=
  "AUDIT_ARCHIVE_ERROR: خطا در ایجاد آرشیو ممیزی؛ لطفاً بعداً دوباره تلاش کنید."

def archiveMonth (now : DateTime) (monthKey : String) : Act AuditArchiveResult := do
  let window ← Act.ofExcept (windowOf A.tz monthKey)
  let _ ← A.artifactPath window (A.csvPath window)
  let _ ← A.artifactPath window (A.jsonPath window)
  let _ ← A.artifactPath window (A.manifestPath window)
  A.cleanupParts window
  tryCatch (A.archiveWindow now window) fun _ => throw (.archiveFailure archiveError)

end AuditArchiver

end Audit
