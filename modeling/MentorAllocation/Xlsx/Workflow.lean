import MentorAllocation.Xlsx.JobStore

namespace Xlsx
open Text Concurrency

def compactSorted : Json.Style :=
  { itemSeparator := ",", keySeparator := ":", sortKeys := true }

def rowCountsJson (counts : List (String × Nat)) : Json :=
  .obj (counts.map fun (sheet, count) => (sheet, .int count))

def Manifest.json (m : Manifest) : Json :=
  .obj [("id", .str m.id), ("format", .str m.format), ("generated_at", .str m.generatedAt),
    ("filters", .obj [("year", .int m.filters.year),
      ("center", (m.filters.center.map Json.int).getD .null)]),
    ("excel_safety", .obj [("normalized", .bool m.excelSafety.normalized),
      ("formula_guard", .bool m.excelSafety.formulaGuard),
      ("sensitive_text", .arr (m.excelSafety.sensitiveText.map .str))]),
    ("snapshot", .obj [("type", .str "full")]),
    ("files", .arr (m.files.map fun file => .obj [("name", .str file.name),
      ("sha256", .str file.sha256), ("row_counts", rowCountsJson file.rowCounts)]))]

structure UploadManifest where
  id : String
  format : String
  profile : String
  year : Int
  excelSafety : Json
  generatedAt : String
  sha256 : String
  rowCounts : List (String × Nat)

def UploadManifest.json (m : UploadManifest) : Json :=
  .obj [("id", .str m.id), ("format", .str m.format), ("profile", .str m.profile),
    ("filters", .obj [("year", .int m.year)]), ("excel_safety", m.excelSafety),
    ("generated_at", .str m.generatedAt), ("sha256", .str m.sha256),
    ("row_counts", rowCountsJson m.rowCounts), ("snapshot", .obj [("type", .str "upload")])]

structure UploadRecord where
  id : String
  status : String
  format : String
  manifestPath : String
  manifest : UploadManifest

def fetchRows (year : Int) (center : Option Int) : Call (List RawRow) :=
  Program.ask (Request.fetchRows year center) Program.ret

def writeFile (name : String) (content : Bytes) : Call Unit :=
  Program.ask (Request.write name content) Program.ret

def readFile (name : String) : Call Bytes := Program.ask (Request.read name) Program.ret

def manifestName (id : String) : String := id ++ "_manifest.json"

structure ImportToSabtWorkflow where
  library : Library
  chunkSize : Nat := 50000

def plainFlow : ImportToSabtWorkflow := { library := plainLibrary }

namespace ImportToSabtWorkflow
variable (W : ImportToSabtWorkflow)

def idOf (kind : String) (counter : Nat) : String :=
  kind ++ "-" ++ ((W.library.uuid5Hex (kind ++ ":" ++ intText counter)).take 12).toString

def nextId (kind : String) : Call String := do
  let counter ← Fallible.call Request.nextCounter
  return W.idOf kind counter

/-- `create_upload`; only its manifest stays in the storage directory. -/
def createUpload (profile : String) (year : Int) : Call UploadRecord := do
  let uploadId ← W.nextId "upload"
  let (result, content) ← (Program.ask Request.readUpload Program.ret : Call (UploadResult × Bytes))
  let generatedAt ← nowIso
  let manifest : UploadManifest := {
    id := uploadId, format := result.format
    profile := Export.normalizeText W.library.nfkc profile, year
    excelSafety := result.excelSafety, generatedAt, sha256 := W.library.sha256 content
    rowCounts := result.rowCounts }
  writeFile (manifestName uploadId) (utf8 (Json.dumps compactSorted manifest.json))
  return {
    id := uploadId, status := "SUCCESS", format := result.format
    manifestPath := manifestName uploadId, manifest }

/-- `_write_artifact`: the name of the file and the rows of its sheets. -/
def writeArtifact (exportId : String) (rows : List Export.Row) (fileFormat : String) :
    Call (String × List (String × Nat)) :=
  if fileFormat == "xlsx" then do
    let sheets := sheets W.library W.chunkSize rows
    writeFile (exportId ++ ".xlsx") (W.library.workbook sheets)
    return (exportId ++ ".xlsx", rowCounts sheets)
  else if fileFormat == "csv" then do
    writeFile (exportId ++ ".csv") (utf8 (csvText rows))
    return (exportId ++ ".csv", [("Sheet_001", rows.length)])
  else Fallible.raise .valueError

def buildFileMetadata (name sha256 : String) (rows : List (String × Nat)) : List FileMetadata :=
  rows.map fun (sheet, count) => { path := name, sheet, rows := count, sha256 }

/-- `sanitize_text(file_format or "xlsx").lower() or "xlsx"` -/
def normalizedFormat (fileFormat : String) : String :=
  let text := W.library.lower (Export.normalizeText W.library.nfkc
    (if fileFormat.isEmpty then "xlsx" else fileFormat))
  if text.isEmpty then "xlsx" else text

def produce (exportId fileFormat : String) (filters : Filters) : Call ExportRecord := do
  let rows ← fetchRows filters.year filters.center
  if rows.isEmpty then Fallible.raise .valueError
  else do
    let (name, counts) ← W.writeArtifact exportId (rows.map (prepareRow W.library)) fileFormat
    let content ← readFile name
    let sha256 := W.library.sha256 content
    let generatedAt ← nowIso
    let manifest : Manifest := {
      id := exportId, format := fileFormat, generatedAt, filters, excelSafety := {}
      files := [⟨name, sha256, counts⟩] }
    writeFile (manifestName exportId) (utf8 (Json.dumps compactSorted manifest.json))
    let payload ← ExportJobStore.complete exportId name (manifestName exportId)
      (buildFileMetadata name sha256 counts) manifest.excelSafety manifest
    -- the size of the artifact, for the metrics
    let _ ← readFile name
    let record : ExportRecord := {
      id := exportId, status := .success, format := fileFormat, artifactPath := name
      manifestPath := manifestName exportId, manifest := some manifest
      files := manifest.files, metadata := payload }
    Fallible.call (Request.setDefault exportId record)
    return record

def errorPayload : Raised → JobError
  | .valueError => ⟨"EXPORT_VALIDATION_ERROR",
      "درخواست نامعتبر است؛ فرمت فایل/محدوده را بررسی کنید."⟩
  | .other => ⟨"EXPORT_IO_ERROR", "خطا در تولید فایل XLSX؛ لطفاً دوباره تلاش کنید."⟩

/-- `create_export` once it has its id; its record could not be begun outside the `try`. -/
def exportAs (exportId fileFormat : String) (filters : Filters) : Call ExportRecord := do
  let _ ← ExportJobStore.begin exportId fileFormat (some filters)
  Fallible.handle (W.produce exportId fileFormat filters) pure fun raised => do
    let _ ← ExportJobStore.fail exportId (errorPayload raised)
    Fallible.raise raised

def createExport (year : Int) (center : Option Int) (fileFormat : String) : Call ExportRecord := do
  let exportId ← W.nextId "export"
  W.exportAs exportId (W.normalizedFormat fileFormat) ⟨year, center⟩

end ImportToSabtWorkflow

/-- The record that `get_export` makes of what the job store has. -/
def recordOf (exportId : String) (payload : JobPayload) : ExportRecord where
  id := payload.id
  status := payload.status
  format := payload.format
  artifactPath :=
    if payload.artifactPath.isEmpty then exportId ++ "." ++ payload.format
    else payload.artifactPath
  manifestPath :=
    if payload.manifestPath.isEmpty then manifestName exportId else payload.manifestPath
  manifest := payload.manifest
  files := (payload.manifest.map Manifest.files).getD []
  metadata := payload

def getExport (exportId : String) : Call (Option ExportRecord) := do
  let known ← Fallible.call (Request.cached exportId)
  match (known : Option ExportRecord) with
  | some record => return some record
  | none =>
    let payload ← load exportId
    match payload with
    | none => return none
    | some payload => do
      Fallible.call (Request.cache exportId (recordOf exportId payload))
      return some (recordOf exportId payload)

/-- What one process keeps: its counter and the exports it has seen. -/
structure Memory where
  counter : Nat := 1
  exports : String → Option ExportRecord := fun _ => none

/-- The job store, the storage directory and the processes that use them. -/
structure World (ω : Type) where
  jobs : String → Option JobPayload := fun _ => none
  files : String → Option Bytes := fun _ => none
  memory : ω → Memory := fun _ => {}

/-- What the surroundings settle about one request: the exception it ends in, if any, and
whether it takes effect all the same, the time, and the data of callers. -/
structure Choice where
  raised : Option Raised := none
  effective : Bool := true
  now : String := ""
  rows : List RawRow := []
  upload : UploadResult × Bytes := (⟨"", .null, []⟩, [])

namespace Choice

def verdict (ch : Choice) {α : Type} (a : α) : Except Raised α :=
  match ch.raised with
  | none => .ok a
  | some e => .error e

def takesEffect (ch : Choice) : Bool := ch.raised.isNone || ch.effective

end Choice

namespace World
variable {ω : Type} [DecidableEq ω]

def setJob (s : World ω) (jobId : String) (payload : Option JobPayload) : World ω :=
  { s with jobs := Function.update s.jobs jobId payload }

def setFile (s : World ω) (name : String) (content : Bytes) : World ω :=
  { s with files := Function.update s.files name (some content) }

def setMemory (s : World ω) (w : ω) (memory : Memory) : World ω :=
  { s with memory := Function.update s.memory w memory }

def cacheExport (s : World ω) (w : ω) (exportId : String) (record : ExportRecord) : World ω :=
  s.setMemory w { s.memory w with
    exports := Function.update (s.memory w).exports exportId (some record) }

def answer (ch : Choice) (w : ω) : (r : Request) → World ω → Option (r.Response × World ω)
  | .nextCounter, s => some ((s.memory w).counter,
      s.setMemory w { s.memory w with counter := (s.memory w).counter + 1 })
  | .now, s => some (ch.now, s)
  | .load jobId, s => some (ch.verdict (s.jobs jobId), s)
  | .put jobId payload, s =>
    some (ch.verdict (), if ch.takesEffect then s.setJob jobId (some payload) else s)
  | .fetchRows _ _, s => some (ch.verdict ch.rows, s)
  | .readUpload, s => some (ch.verdict ch.upload, s)
  | .write name content, s =>
    some (ch.verdict (), if ch.takesEffect then s.setFile name content else s)
  | .read name, s => some (match s.files name with
      | some content => ch.verdict content
      | none => .error .other, s)
  | .cached exportId, s => some ((s.memory w).exports exportId, s)
  | .setDefault exportId record, s => some ((),
      if ((s.memory w).exports exportId).isSome then s else s.cacheExport w exportId record)
  | .cache exportId record, s => some ((), s.cacheExport w exportId record)
  | .forget jobId, s => some ((), s.setJob jobId none)

end World

end Xlsx
