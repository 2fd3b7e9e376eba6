import MentorAllocation.Counter.Rules
import MentorAllocation.Export.ExcelWriter
import MentorAllocation.Export.ExternalSorter
import MentorAllocation.Export.JobRunner
import MentorAllocation.Export.Retry
import MentorAllocation.Files.Directory

namespace Export
open Text Concurrency Files

/-- `NormalizedStudentRow`; the allocation date is told by its `isoformat` in UTC, with
a `Z`. -/
structure NormalizedStudentRow where
  nationalId : String
  counter : String
  firstName : String
  lastName : String
  gender : Int
  mobile : String
  regCenter : Int
  regStatus : Int
  groupCode : Int
  schoolCode : Option Int
  mentorId : Option String
  mentorName : Option String
  mentorMobile : Option String
  allocationDate : String
  yearCode : String
  deriving DecidableEq, Repr

structure ExportProfile where
  name : String
  version : String
  sensitiveColumns : List String

def ExportProfile.fullName (profile : ExportProfile) : String :=
  profile.name ++ "_" ++ profile.version

def sabtV1Profile : ExportProfile where
  name := "SABT"
  version := "V1"
  sensitiveColumns := ["national_id", "counter", "mobile", "mentor_id", "school_code"]

structure ExportConfig where
  format : OutputFormat
  csvBom : Bool
  crlf : Bool

structure ManifestMetadata where
  timestamp : String
  filesOrder : List String
  chunkSize : Int
  sortKeys : List String
  config : ExportConfig

structure ManifestPayload where
  profile : String
  manifest : ExportManifest
  metadata : ManifestMetadata
  excelSafety : Json

inductive Content where
  | blank
  | csv (bom : Bool) (newline : String) (lines : List (List String))
  | workbook (sheets : List (String × List (List String)))
  | manifest (payload : ManifestPayload)
  | chunk (chunk : Chunk)
  /-- A write that broke off. -/
  | torn (content : Content)
  /-- A write over what another handle had written. -/
  | overlaid (upper lower : Content)

namespace Content

def rowCount : Content → Option Nat
  | .csv _ _ lines => some (lines.length - 1)
  | .workbook sheets => some ((rowCounts sheets).map Prod.snd).sum
  | _ => none

def onto (content : Content) : Content → Content
  | .blank => content
  | lower => .overlaid content lower

end Content

/-- The library functions that exports go through: `unicodedata.normalize("NFKC", ·)`,
SHA-256 in hexadecimal, and the length of a file. -/
structure Library where
  nfkc : String → String
  sha256 : Content → String
  byteSize : Content → Nat

/-- A place below the output directory: in it, or in a workspace of the sorter. -/
structure Path where
  workspace : Option Nat
  name : String
  deriving DecidableEq, Repr

/-- `path.with_suffix(path.suffix + ".part")` -/
def Path.part (path : Path) : Path := { path with name := path.name ++ ".part" }

def manifestPath : Path := ⟨none, "export_manifest.json"⟩

/-- An answer of `fetch_rows`: what iterating over it gives, and the exception that ends
it early. -/
structure Fetch where
  rows : List NormalizedStudentRow := []
  ending : Option Raised := none
  deriving DecidableEq, Repr

/-- What `submit` is called with, and the id that `uuid4` gives. -/
structure Submission where
  filters : ExportFilters
  options : ExportOptions
  idempotencyKey : String
  nameSpace : String
  correlationId : String
  jobId : String

inductive Fault where
  | os (text : String)
  | other (typeName text : String)

/-- Why a request fails: a file is missing, or something befalls it. -/
inductive Refusal where
  | missing (name : String)
  | fault (fault : Fault)

def Refusal.raised : Refusal → Raised
  | .missing name => .fileNotFound name
  | .fault (.os text) => .os text
  | .fault (.other typeName text) => .other typeName text

/-- What an export asks of the file system, its data source, the clock and the runner. -/
inductive SystemCall where
  | glob
  | exists (path : Path)
  | unlink (path : Path)
  | openBlank (path : Path)
  | mkstemp (target : String)
  | write (handle : Nat) (content : Content)
  | replace (source target : Path)
  | stat (path : Path)
  | sha256 (path : Path)
  | mkdtemp
  | discard (path : Path)
  | rmtree (workspace : Nat)
  | fetchRows (filters : ExportFilters) (snapshot : ExportSnapshot)
  | now
  | submit (submission : Submission)
  | updateJob (jobId : String) (update : ExportJobRunner.JobUpdate)

@[reducible] def SystemCall.Response : SystemCall → Type
  | .glob => Except Refusal (List Path)
  | .exists _ => Except Refusal Bool
  | .unlink _ => Except Refusal Unit
  | .openBlank _ => Except Refusal Nat
  | .mkstemp _ => Except Refusal (Path × Nat)
  | .write _ _ => Except Refusal Unit
  | .replace _ _ => Except Refusal Unit
  | .stat _ => Except Refusal Nat
  | .sha256 _ => Except Refusal String
  | .mkdtemp => Except Refusal Nat
  | .discard _ => Unit
  | .rmtree _ => Unit
  | .fetchRows _ _ => Fetch
  | .now => Moment
  | .submit _ => Option ExportJob
  | .updateJob _ _ => Unit

abbrev Call (α : Type) := Fallible SystemCall SystemCall.Response Raised α

def raising {α : Type} (answer : Except Refusal α) : Call α :=
  Program.ret (answer.mapError Refusal.raised)

/-- The names of `glob("*.part")` in the output directory. -/
def glob : Call (List Path) := Program.ask SystemCall.glob raising

def exists? (path : Path) : Call Bool := Program.ask (SystemCall.exists path) raising

def unlink (path : Path) : Call Unit := Program.ask (SystemCall.unlink path) raising

def openBlank (path : Path) : Call Nat := Program.ask (SystemCall.openBlank path) raising

def mkstemp (target : String) : Call (Path × Nat) :=
  Program.ask (SystemCall.mkstemp target) raising

def write (handle : Nat) (content : Content) : Call Unit :=
  Program.ask (SystemCall.write handle content) raising

def replace (source target : Path) : Call Unit :=
  Program.ask (SystemCall.replace source target) raising

def stat (path : Path) : Call Nat := Program.ask (SystemCall.stat path) raising

def sha256 (path : Path) : Call String := Program.ask (SystemCall.sha256 path) raising

def mkdtemp : Call Nat := Program.ask SystemCall.mkdtemp raising

/-- `except FileNotFoundError: pass` -/
def ignoringMissing (p : Call Unit) : Call Unit :=
  Fallible.handle p pure fun e => if e.isFileNotFound then pure () else Fallible.raise e

/-- `if path.exists(): ...` -/
def whenExists (path : Path) (action : Call Unit) : Call Unit := do
  let found ← exists? path
  if found then action else pure ()

def atomicWriter (path : Path) (content : Content) : Call Unit := do
  let handle ← openBlank path.part
  Fallible.onError (write handle content) (whenExists path.part (unlink path.part))
  replace path.part path

def writeAtomic (path : Path) (content : Content) : Call Unit := do
  let (temp, handle) ← mkstemp path.name
  Fallible.ensure (do write handle content; replace temp path) (ignoringMissing (unlink temp))

def unlinkAll : List Path → Call Unit
  | [] => pure ()
  | path :: paths => do
    ignoringMissing (unlink path)
    unlinkAll paths

def cleanupPartials : Call Unit := do
  let partials ← glob
  unlinkAll partials

def removeManifest : Call Unit :=
  whenExists manifestPath (ignoringMissing (unlink manifestPath))

def discardAll : List Path → Call Unit
  | [] => pure ()
  | path :: paths => do
    Fallible.call (SystemCall.discard path)
    discardAll paths

/-- `ExternalSorter.cleanup`, with the chunks of its plan. -/
def cleanup (workspace : Nat) (chunkPaths : List Path) : Call Unit := do
  discardAll chunkPaths
  Fallible.call (SystemCall.rmtree workspace)

def spillWriteErrorMessage : String := "نوشتن فایل موقت ناموفق بود؛ لطفاً دوباره تلاش کنید."

/-- `_spill_chunk`, by the stem of the file's name. -/
def spill (workspace : Nat) (stem : String) (chunk : Chunk) : Call Unit := do
  let temp : Path := ⟨some workspace, stem ++ ".part"⟩
  let path : Path := ⟨some workspace, stem ++ ".chunk"⟩
  Fallible.handle (do let handle ← openBlank temp; write handle (.chunk chunk); replace temp path)
    pure fun e =>
      if e.isOSError then do
        whenExists temp (ignoringMissing (unlink temp))
        Fallible.raise (.exportIo spillWriteErrorMessage)
      else Fallible.raise e
  let _ ← stat path
  return ()

def sortKeys : List String :=
  ["year_code", "reg_center", "group_code", "school_code", "national_id"]

/-- `PHONE_RE`: `^09\d{9}$`. -/
def phonePattern (text : String) : Bool :=
  match text.toList with
  | '0' :: '9' :: rest => rest.length == 9 && rest.all isDecimal
  | _ => false

def determineBufferRows (chunkSize : Int) : Nat :=
  if chunkSize ≤ 0 then 10000 else max 10000 (min chunkSize.toNat 20000)

theorem determineBufferRows_pos (chunkSize : Int) : 0 < determineBufferRows chunkSize := by
  unfold determineBufferRows
  split <;> omega

/-- `re.sub(r"[^A-Za-z0-9_-]", "_", correlation_id)[:48] or "export"` -/
def safeId (correlationId : String) : String :=
  let kept := (correlationId.toList.map fun c =>
    if c.isAlphanum || c == '_' || c == '-' then c else '_').take 48
  if kept.isEmpty then "export" else String.ofList kept

def chunkStem (correlationId : String) (index : Nat) : String :=
  safeId correlationId ++ "_" ++ zeroPad 5 index

def chunkPaths (workspace : Nat) (correlationId : String) (plan : SortPlan) : List Path :=
  (List.range plan.chunkCount).map fun index =>
    ⟨some workspace, chunkStem correlationId index ++ ".chunk"⟩

structure ImportToSabtExporter where
  library : Library
  /-- `roster.is_special` -/
  isSpecial : Int → Option Int → Bool
  profile : ExportProfile := sabtV1Profile
  /-- `max_attempts` of the retry policy -/
  maxAttempts : Nat := 3
  retryable : Raised → Bool := Raised.isOSError

namespace ImportToSabtExporter
variable (E : ImportToSabtExporter)

def buildExternalSorter (chunkSize : Int) : ExternalSorter where
  sortKeys := sortKeys
  bufferRows := determineBufferRows chunkSize
  sortKeys_ne := by simp [sortKeys]
  bufferRows_pos := determineBufferRows_pos chunkSize

def sanitizeText (text : String) : String := normalizeText E.library.nfkc text

def normalizeRow (filters : ExportFilters) (row : NormalizedStudentRow) :
    Except Raised (List (String × Cell)) :=
  let studentType := if E.isSpecial filters.year row.schoolCode then 1 else 0
  if row.regCenter ∉ [0, 1, 2] then
    .error (.exportValidation "EXPORT_VALIDATION_ERROR:reg_center")
  else if row.regStatus ∉ [0, 1, 3] then
    .error (.exportValidation "EXPORT_VALIDATION_ERROR:reg_status")
  else
    let mobile := Xlsx.sanitizePhone E.library.nfkc row.mobile
    if !phonePattern mobile then .error (.exportValidation "EXPORT_VALIDATION_ERROR:mobile")
    else match Counter.validateCounter (E.sanitizeText row.counter) with
      | none => .error (.valueError "فرمت شمارنده معتبر نیست.")
      | some counter =>
        if !(Counter.genderPrefix row.gender).any (contains counter) then
          .error (.exportValidation "EXPORT_VALIDATION_ERROR:counter_prefix")
        else .ok [
          ("national_id", .str (E.sanitizeText row.nationalId)),
          ("counter", .str counter),
          ("first_name", .str (E.sanitizeText row.firstName)),
          ("last_name", .str (E.sanitizeText row.lastName)),
          ("gender", .str (intText row.gender)),
          ("mobile", .str mobile),
          ("reg_center", .str (intText row.regCenter)),
          ("reg_status", .str (intText row.regStatus)),
          ("group_code", .str (intText row.groupCode)),
          ("student_type", .str (intText studentType)),
          ("school_code", .str ((row.schoolCode.map (zeroPad 6)).getD "")),
          ("mentor_id", .str (E.sanitizeText (row.mentorId.getD ""))),
          ("mentor_name", .str (E.sanitizeText (row.mentorName.getD ""))),
          ("mentor_mobile", .str (Xlsx.sanitizePhone E.library.nfkc (row.mentorMobile.getD ""))),
          ("allocation_date", .str row.allocationDate),
          ("year_code", .str (E.sanitizeText row.yearCode))]

def entry (filters : ExportFilters) (chunkSize : Int) (row : NormalizedStudentRow) :
    Except Raised (SortKey × Row) :=
  match E.normalizeRow filters row with
  | .error e => .error e
  | .ok record => match (buildExternalSorter chunkSize).keyed E.library.nfkc record with
    | .error e => .error (.exportValidation e.message)
    | .ok entry => .ok entry

/-- The loop of `prepare` over the rows that `_normalize_row` lets through. -/
def prepareRows (filters : ExportFilters) (chunkSize : Int) (workspace : Nat)
    (correlationId : String) (state : Preparation) : List NormalizedStudentRow → Call Preparation
  | [] => pure state
  | row :: rows =>
    let sorter := buildExternalSorter chunkSize
    match E.entry filters chunkSize row with
    | .error e => Fallible.raise e
    | .ok entry =>
      if sorter.bufferRows ≤ state.buffer.length + 1 then do
        spill workspace (chunkStem correlationId state.chunks.length)
          (ExternalSorter.spillChunk (state.buffer ++ [entry])).1
        prepareRows filters chunkSize workspace correlationId (sorter.prepareRow state entry) rows
      else
        prepareRows filters chunkSize workspace correlationId (sorter.prepareRow state entry) rows

/-- `fetch_rows`, consumed by `prepare`. -/
def prepare (filters : ExportFilters) (chunkSize : Int) (snapshot : ExportSnapshot)
    (workspace : Nat) (correlationId : String) : Call SortPlan := do
  let fetch ← Fallible.call (SystemCall.fetchRows filters snapshot)
  let state ← E.prepareRows filters chunkSize workspace correlationId {} (Fetch.rows fetch)
  match (Fetch.ending fetch : Option Raised) with
  | some e => Fallible.raise e
  | none => return {
      chunks := state.chunks, inMemory := Sorting.stableSort state.buffer
      totalRows := state.totalRows, chunkCount := state.chunks.length
      spillBytes := state.spillBytes }

/-- The sorter's workspace and its plan. The sorter of an attempt that failed is no longer
held when the next one begins. -/
def queryPhase (filters : ExportFilters) (chunkSize : Int) (snapshot : ExportSnapshot)
    (correlationId : String) : Call (Nat × SortPlan) := do
  let workspace ← mkdtemp
  let plan ← Fallible.onError (E.prepare filters chunkSize snapshot workspace correlationId)
    (cleanup workspace [])
  if plan.totalRows = 0 then do
    cleanup workspace (chunkPaths workspace correlationId plan)
    Fallible.raise (.exportValidation "EXPORT_EMPTY")
  else return (workspace, plan)

def buildFilename (filters : ExportFilters) (timestamp : String) (seq : Nat)
    (extension : String) : String :=
  let centerPart := (filters.center.map intText).getD "ALL"
  "export_" ++ E.profile.fullName ++ "_" ++ intText filters.year ++ "-" ++ centerPart ++ "_" ++
    timestamp ++ "_" ++ zeroPad 3 seq ++ "." ++ extension

def createWriter (options : ExportOptions) : ExportWriter where
  sensitive := E.profile.sensitiveColumns
  newline := options.newline
  includeBom := options.includeBom
  chunkSize := options.chunkSize.toNat
  formulaGuard := options.excelMode

/-- The loop of `write_csv` from one of its chunks on. -/
def writeCsv (filters : ExportFilters) (options : ExportOptions) (timestamp : String)
    (index : Nat) : List (List Row) → Call (List ExportManifestFile)
  | [] => pure []
  | chunk :: chunks => do
    let name := E.buildFilename filters timestamp index "csv"
    atomicWriter ⟨none, name⟩ (.csv options.includeBom options.newline
      ((E.createWriter options).table E.library.nfkc chunk))
    let byteSize ← stat ⟨none, name⟩
    let digest ← sha256 ⟨none, name⟩
    let files ← writeCsv filters options timestamp (index + 1) chunks
    return { name, sha256 := digest, rowCount := chunk.length, byteSize } :: files

def writeXlsx (filters : ExportFilters) (options : ExportOptions) (timestamp : String)
    (rows : List Row) : Call (List ExportManifestFile) := do
  let name := E.buildFilename filters timestamp 1 "xlsx"
  let sheets := (E.createWriter options).sheets E.library.nfkc rows
  let counts := rowCounts sheets
  writeAtomic ⟨none, name⟩ (.workbook sheets)
  let byteSize ← stat ⟨none, name⟩
  let digest ← sha256 ⟨none, name⟩
  return [{ name, sha256 := digest, rowCount := (counts.map Prod.snd).sum, byteSize,
            sheets := sortedCounts counts }]

def writeExports (filters : ExportFilters) (options : ExportOptions) (timestamp : String)
    (rows : List Row) : Call (List ExportManifestFile) :=
  match options.outputFormat with
  | .csv => E.writeCsv filters options timestamp 1
      (chunkIterable options.chunkSize.toNat [] rows)
  | .xlsx => E.writeXlsx filters options timestamp rows

def writePhase (filters : ExportFilters) (options : ExportOptions) (timestamp : String)
    (plan : SortPlan) : Call (List ExportManifestFile) := do
  cleanupPartials
  E.writeExports filters options timestamp
    (ExternalSorter.iterSorted E.library.nfkc plan).yields

/-- The manifest; its metadata and what the writer says of safety go into the file. -/
def buildManifest (filters : ExportFilters) (options : ExportOptions) (snapshot : ExportSnapshot)
    (clockNow : Moment) (files : List ExportManifestFile) : ExportManifest where
  filters
  snapshot
  generatedAt := clockNow
  totalRows := (files.map ExportManifestFile.rowCount).sum
  files
  format := options.outputFormat

def payload (options : ExportOptions) (manifest : ExportManifest) : ManifestPayload where
  profile := E.profile.fullName
  manifest
  metadata := {
    timestamp := manifest.generatedAt.stamp
    filesOrder := manifest.files.map ExportManifestFile.name
    chunkSize := options.chunkSize
    sortKeys
    config := {
      format := options.outputFormat
      csvBom := options.outputFormat == .csv && options.includeBom
      crlf := options.newline == "\r\n" } }
  excelSafety := match options.outputFormat with
    | .csv => (E.createWriter options).csvSafety
    | .xlsx => (E.createWriter options).xlsxSafety

def run (filters : ExportFilters) (options : ExportOptions) (snapshot : ExportSnapshot)
    (clockNow : Moment) (correlationId : String) : Call ExportManifest :=
  if options.chunkSize ≤ 0 then
    Fallible.raise (.exportValidation "EXPORT_VALIDATION_ERROR:chunk_size")
  else do
    cleanupPartials
    removeManifest
    let (workspace, plan) ← executeWithRetry E.retryable
      (E.queryPhase filters options.chunkSize snapshot correlationId) E.maxAttempts
    let files ← Fallible.ensure
      (executeWithRetry E.retryable
        (E.writePhase filters options clockNow.stamp plan) E.maxAttempts)
      (cleanup workspace (chunkPaths workspace correlationId plan))
    let manifest := buildManifest filters options snapshot clockNow files
    executeWithRetry E.retryable
      (atomicWriter manifestPath (.manifest (E.payload options manifest))) E.maxAttempts
    return manifest

end ImportToSabtExporter

/-- The text of a file stands for its digest. -/
def plainLibrary : Library where
  nfkc := id
  sha256
    | .csv _ _ lines => String.join lines.flatten
    | .workbook _ => "workbook"
    | .manifest _ => "manifest"
    | _ => ""
  byteSize
    | .csv _ _ lines => lines.length
    | _ => 0

def plainExporter : ImportToSabtExporter where
  library := plainLibrary
  isSpecial := fun _ _ => false

/-- A boy whose counter is of the right kind. -/
def sampleRow : NormalizedStudentRow where
  nationalId := "0012345678"
  counter := "023570001"
  firstName := "علی"
  lastName := "رضایی"
  gender := 1
  mobile := "09123456789"
  regCenter := 1
  regStatus := 1
  groupCode := 7
  schoolCode := some 654321
  mentorId := none
  mentorName := none
  mentorMobile := none
  allocationDate := "2023-07-01T00:00:00Z"
  yearCode := "1402"

end Export
