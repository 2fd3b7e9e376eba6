import MentorAllocation.Concurrency.Program
import MentorAllocation.Export.ExporterService

namespace Export
open Text Concurrency Files

def exportValidationFaMessage : String := "درخواست نامعتبر است؛ فرمت فایل/محدوده را بررسی کنید."

def exportIoFaMessage : String := "خطا در تولید فایل؛ لطفاً دوباره تلاش کنید."

/-- What the `except` clauses of `_run_job`, in their order, make of an exception. -/
def Raised.errorPayload (e : Raised) : ErrorPayload :=
  match e with
  | .exportValidation message =>
    ⟨"EXPORT_VALIDATION_ERROR", exportValidationFaMessage, message⟩
  | .exportIo _ | .retryExhausted _ => ⟨"EXPORT_IO_ERROR", exportIoFaMessage, e.typeName⟩
  | .fileNotFound _ | .os _ => ⟨"EXPORT_IO_ERROR", exportIoFaMessage, e.text⟩
  | .valueError _ | .assertion | .other _ _ => ⟨"EXPORT_IO_ERROR", exportIoFaMessage, e.typeName⟩

section
variable (E : ImportToSabtExporter) (maxRetries : Nat)

/-- `_run_job`; `max_retries` is at least one. It returns nothing, here it tells what its
retry runner gave it. -/
def runJob (job : ExportJob) : Call (Except Raised ExportManifest) := do
  let startTime ← Fallible.call SystemCall.now
  Fallible.call (SystemCall.updateJob job.id { status := .running, startedAt := some startTime })
  Fallible.handle
    (execute Raised.isOSError
      (E.run job.filters job.options job.snapshot startTime job.correlationId) (maxRetries - 1))
    (fun manifest => do
      let finishedAt ← Fallible.call SystemCall.now
      Fallible.call (SystemCall.updateJob job.id
        { status := .success, finishedAt := some finishedAt, manifest := some manifest })
      return .ok manifest)
    (fun e => do
      let finishedAt ← Fallible.call SystemCall.now
      Fallible.call (SystemCall.updateJob job.id
        { status := .failed, finishedAt := some finishedAt, error := some e.errorPayload })
      return .error e)

/-- A submission and the thread it starts, if it makes a job. -/
def exportJob (submission : Submission) : Call (Option (Except Raised ExportManifest)) := do
  let started ← Fallible.call (SystemCall.submit submission)
  match (started : Option ExportJob) with
  | none => return none
  | some job => do
    let outcome ← runJob E maxRetries job
    return some outcome

end

/-- A file, and the job that wrote it last. -/
structure Stored (ι : Type) where
  writer : Option ι
  content : Content

/-- The output directory with the workspaces below it, the job runner, what the data source
has been asked, and the states that jobs went through. -/
structure World (ι : Type) where
  directory : Directory Path (Stored ι) := Directory.empty
  workspaces : Nat := 0
  fetches : List Fetch := []
  runner : ExportJobRunner := {}
  journal : List (String × ExportJobStatus) := []

/-- What the surroundings settle about one request: the exception that befalls it, if any,
and whether a write has got somewhere by then; a fetch, a random name, the time. -/
structure Choice where
  fault : Option Fault := none
  effective : Bool := true
  fetch : Fetch := {}
  token : String := ""
  now : Moment := ⟨0, "", ""⟩

def Choice.attempt {α ω : Type} (ch : Choice) (s : ω) (x : Except Refusal α × ω) :
    Option (Except Refusal α × ω) :=
  match ch.fault with
  | none => some x
  | some fault => some (.error (.fault fault), s)

namespace World
variable {ι : Type}

/-- The names that `glob("*.part")` finds. -/
def partials (s : World ι) : List Path :=
  s.directory.names.keys.filter fun path =>
    path.workspace == none && path.name.endsWith ".part"

def inside (s : World ι) (workspace : Nat) : List Path :=
  s.directory.names.keys.filter fun path => path.workspace == some workspace

/-- An open file, with `content` written from its beginning. -/
def written (s : World ι) (i : ι) (handle : Nat) (content : Content) : World ι :=
  let before := ((s.directory.get handle).map Stored.content).getD .blank
  { s with directory := s.directory.put handle ⟨some i, content.onto before⟩ }

def readFile {α : Type} (s : World ι) (path : Path) (f : Content → α) : Except Refusal α :=
  match s.directory.read path with
  | some stored => .ok (f stored.content)
  | none => .error (.missing path.name)

/-- The answer to a request of job `i`. A submission starts a thread where its key is new. -/
def answer (L : Library) (ch : Choice) (i : ι) :
    (r : SystemCall) → World ι → Option (r.Response × World ι)
  | .glob, s => ch.attempt s (.ok s.partials, s)
  | .exists path, s => ch.attempt s (.ok (s.directory.find path).isSome, s)
  | .unlink path, s => ch.attempt s (
      if (s.directory.find path).isSome then
        (.ok (), { s with directory := s.directory.erase path })
      else (.error (.missing path.name), s))
  | .openBlank path, s =>
    let (handle, directory) := s.directory.openBlank path ⟨some i, .blank⟩
    ch.attempt s (.ok handle, { s with directory })
  | .mkstemp target, s =>
    let path : Path := ⟨none, target ++ "." ++ ch.token ++ ".part"⟩
    if (s.directory.find path).isSome then none
    else ch.attempt s (.ok (path, s.directory.files.length),
      { s with directory := s.directory.create path ⟨some i, .blank⟩ })
  | .write handle content, s => match ch.fault with
    | none => some (.ok (), s.written i handle content)
    | some fault => some (.error (.fault fault),
        if ch.effective then s.written i handle (.torn content) else s)
  | .replace source target, s => ch.attempt s (match s.directory.rename source target with
    | some directory => (.ok (), { s with directory })
    | none => (.error (.missing source.name), s))
  | .stat path, s => ch.attempt s (s.readFile path L.byteSize, s)
  | .sha256 path, s => ch.attempt s (s.readFile path L.sha256, s)
  | .mkdtemp, s => ch.attempt s (.ok s.workspaces, { s with workspaces := s.workspaces + 1 })
  | .discard path, s => some ((), { s with directory := s.directory.erase path })
  | .rmtree workspace, s =>
    some ((), { s with directory := s.directory.eraseAll (s.inside workspace) })
  | .fetchRows _ _, s => some (ch.fetch, { s with fetches := s.fetches ++ [ch.fetch] })
  | .now, s => some (ch.now, s)
  | .submit submission, s =>
    let (result, runner) := s.runner.submit submission.filters submission.options
      submission.idempotencyKey submission.nameSpace submission.correlationId submission.jobId
      ch.now
    if (s.runner.redis.store (ExportJobRunner.redisKey submission.nameSpace
        submission.idempotencyKey)).isSome then some (none, { s with runner })
    else some (result.toOption, { s with
      runner, journal := s.journal ++ [(submission.jobId, .pending)] })
  | .updateJob jobId update, s => some ((), { s with
      runner := s.runner.updateJob jobId update
      journal := s.journal ++ [(jobId, update.status)] })

end World

end Export
