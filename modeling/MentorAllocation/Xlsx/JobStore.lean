import MentorAllocation.Concurrency.Program
import MentorAllocation.Xlsx.Writer

namespace Xlsx
open Text Concurrency

inductive JobStatus where
  | pending
  | success
  | failed
  deriving DecidableEq, Repr

structure Filters where
  year : Int
  center : Option Int
  deriving DecidableEq, Repr

structure ExcelSafety where
  normalized : Bool := true
  formulaGuard : Bool := true
  sensitiveText : List String := sensitiveColumns
  deriving DecidableEq, Repr

structure ManifestFile where
  name : String
  sha256 : String
  rowCounts : List (String × Nat)
  deriving DecidableEq, Repr

/-- The manifest of an export, whose snapshot is always full. -/
structure Manifest where
  id : String
  format : String
  generatedAt : String
  filters : Filters
  excelSafety : ExcelSafety
  files : List ManifestFile
  deriving DecidableEq, Repr

structure FileMetadata where
  path : String
  sheet : String
  rows : Nat
  sha256 : String
  deriving DecidableEq, Repr

structure JobError where
  code : String
  message : String
  deriving DecidableEq, Repr

/-- A job record. An empty `dict` in it is `none`, and a path is told by the name of its
file in the storage directory. -/
structure JobPayload where
  id : String
  status : JobStatus
  format : String
  filters : Option Filters
  createdAt : String
  updatedAt : String
  files : List FileMetadata := []
  artifactPath : String := ""
  manifestPath : String := ""
  excelSafety : Option ExcelSafety := none
  manifest : Option Manifest := none
  error : Option JobError := none
  deriving DecidableEq, Repr

structure ExportRecord where
  id : String
  status : JobStatus
  format : String
  artifactPath : String
  manifestPath : String
  manifest : Option Manifest
  files : List ManifestFile
  metadata : JobPayload
  deriving DecidableEq, Repr

structure UploadResult where
  format : String
  excelSafety : Json
  rowCounts : List (String × Nat)

/-- An exception, by which of the two handlers of `create_export` takes it. -/
inductive Raised where
  | valueError
  | other
  deriving DecidableEq, Repr

/-- What a workflow asks of its own memory, its job store, its storage directory, the
clock and its callers' data. -/
inductive Request where
  | nextCounter
  | now
  | load (jobId : String)
  | put (jobId : String) (payload : JobPayload)
  | fetchRows (year : Int) (center : Option Int)
  | readUpload
  | write (name : String) (content : Bytes)
  | read (name : String)
  | cached (exportId : String)
  | setDefault (exportId : String) (record : ExportRecord)
  | cache (exportId : String) (record : ExportRecord)
  | forget (jobId : String)

@[reducible] def Request.Response : Request → Type
  | .nextCounter => Nat
  | .now => String
  | .load _ => Except Raised (Option JobPayload)
  | .put _ _ => Except Raised Unit
  | .fetchRows _ _ => Except Raised (List RawRow)
  | .readUpload => Except Raised (UploadResult × Bytes)
  | .write _ _ => Except Raised Unit
  | .read _ => Except Raised Bytes
  | .cached _ => Option ExportRecord
  | .setDefault _ _ => Unit
  | .cache _ _ => Unit
  | .forget _ => Unit

abbrev Call (α : Type) := Fallible Request Request.Response Raised α

def nowIso : Call String := Fallible.call Request.now

def load (jobId : String) : Call (Option JobPayload) := Program.ask (Request.load jobId) Program.ret

def put (jobId : String) (payload : JobPayload) : Call Unit :=
  Program.ask (Request.put jobId payload) Program.ret

namespace ExportJobStore

def begin (jobId fileFormat : String) (filters : Option Filters) : Call JobPayload := do
  let createdAt ← nowIso
  let updatedAt ← nowIso
  let payload : JobPayload := {
    id := jobId, status := .pending, format := fileFormat, filters, createdAt, updatedAt }
  put jobId payload
  return payload

/-- `load(job_id) or begin(job_id, file_format="unknown", filters={})` -/
def loadOrBegin (jobId : String) : Call JobPayload := do
  match ← load jobId with
  | some payload => return payload
  | none => begin jobId "unknown" none

def complete (jobId artifactPath manifestPath : String) (files : List FileMetadata)
    (excelSafety : ExcelSafety) (manifest : Manifest) : Call JobPayload := do
  let payload ← loadOrBegin jobId
  let updatedAt ← nowIso
  let payload := { payload with
    status := .success, updatedAt, artifactPath, manifestPath, files,
    excelSafety := some excelSafety, manifest := some manifest, error := none }
  put jobId payload
  return payload

def fail (jobId : String) (error : JobError) : Call JobPayload := do
  let payload ← loadOrBegin jobId
  let updatedAt ← nowIso
  let payload := { payload with status := .failed, updatedAt, error := some error }
  put jobId payload
  return payload

end ExportJobStore

end Xlsx
