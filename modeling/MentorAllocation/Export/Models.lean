import MentorAllocation.Text.Python

namespace Export
open Text

/-- A reading of the clock, by what exports take from it. -/
structure Moment where
  instant : Int
  isoformat : String
  /-- `strftime("%Y%m%d%H%M%S")` -/
  stamp : String
  deriving DecidableEq, Repr

structure ExportSnapshot where
  marker : String
  createdAt : Moment
  deriving DecidableEq, Repr

/-- A window; the watermark is told by its `isoformat`. -/
structure ExportDeltaWindow where
  createdAtWatermark : String
  idWatermark : Int
  deriving DecidableEq, Repr

structure ExportFilters where
  year : Int
  center : Option Int := none
  delta : Option ExportDeltaWindow := none
  deriving DecidableEq, Repr

inductive OutputFormat where
  | csv
  | xlsx
  deriving DecidableEq, Repr

def OutputFormat.text : OutputFormat → String
  | .csv => "csv"
  | .xlsx => "xlsx"

/-- `ExportOptions` past its `__post_init__`, which admits two formats. -/
structure ExportOptions where
  chunkSize : Int := 50000
  includeBom : Bool := false
  newline : String := "\r\n"
  excelMode : Bool := true
  outputFormat : OutputFormat := .xlsx
  deriving DecidableEq, Repr

structure ExportManifestFile where
  name : String
  sha256 : String
  rowCount : Nat
  byteSize : Nat
  sheets : List (String × Nat) := []
  deriving DecidableEq, Repr

structure ExportManifest where
  filters : ExportFilters
  snapshot : ExportSnapshot
  generatedAt : Moment
  totalRows : Nat
  files : List ExportManifestFile
  format : OutputFormat
  deriving DecidableEq, Repr

inductive ExportJobStatus where
  | pending
  | running
  | success
  | failed
  deriving DecidableEq, Repr

def ExportJobStatus.text : ExportJobStatus → String
  | .pending => "PENDING"
  | .running => "RUNNING"
  | .success => "SUCCESS"
  | .failed => "FAILED"

/-- `make_error(...).as_dict()` with the detail the runner adds. -/
structure ErrorPayload where
  errorCode : String
  message : String
  detail : String
  deriving DecidableEq, Repr

structure ExportJob where
  id : String
  status : ExportJobStatus
  filters : ExportFilters
  options : ExportOptions
  snapshot : ExportSnapshot
  nameSpace : String
  correlationId : String
  queuedAt : Moment
  startedAt : Option Moment := none
  finishedAt : Option Moment := none
  manifest : Option ExportManifest := none
  error : Option ErrorPayload := none
  deriving DecidableEq, Repr

end Export
