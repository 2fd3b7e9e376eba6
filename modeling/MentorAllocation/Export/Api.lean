import MentorAllocation.Export.JobRunner

namespace Export
open Text

/-- What `_submit_job` is given: the request's correlation id and `X-Request-ID`, the
payload's year, center and key, the window and the options. -/
structure Request where
  correlationId : Option String
  requestId : Option String
  year : Int
  center : Option Int
  candidate : Option String
  delta : Option ExportDeltaWindow
  options : ExportOptions
  deriving DecidableEq, Repr

def orElseText (a b : Option String) : Option String := (a.filter (!·.isEmpty)).or b

/-- `_derive_idempotency_key`; `digest` is the hexadecimal BLAKE2b of a text. -/
def deriveIdempotencyKey (digest : String → String) (request : Request) : String :=
  match request.candidate.filter (!·.isEmpty) with
  | some candidate => candidate
  | none =>
    let correlationId := (orElseText (orElseText request.correlationId request.requestId)
      (some "dev-export")).getD ""
    "anon-" ++ digest correlationId

def deltaText (delta : ExportDeltaWindow) : String :=
  "delta:" ++ delta.createdAtWatermark ++ ":" ++ intText delta.idWatermark

def buildNamespace (year : Int) (center : Option Int) (fmt : OutputFormat)
    (delta : Option ExportDeltaWindow) : String :=
  let parts := [intText year, fmt.text]
  let parts := match center with
    | some center => intText center :: parts
    | none => parts
  let parts := match delta with
    | some delta => parts ++ [deltaText delta]
    | none => parts
  ":".intercalate parts

def Request.filters (request : Request) : ExportFilters :=
  ⟨request.year, request.center, request.delta⟩

/-- `_submit_job`, where a request without a correlation id gets a random one. -/
def submitJob (digest : String → String) (runner : ExportJobRunner) (request : Request)
    (random jobId : String) (now : Moment) : Except String ExportJob × ExportJobRunner :=
  let idempotencyKey := deriveIdempotencyKey digest request
  let nameSpace := buildNamespace request.year request.center request.options.outputFormat
    request.delta
  runner.submit request.filters request.options idempotencyKey nameSpace
    (request.correlationId.getD random) jobId now

end Export
