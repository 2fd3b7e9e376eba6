import MentorAllocation.Concurrency.Exceptions
import MentorAllocation.Uploads.Store

namespace Uploads
open Text Concurrency

structure UploadsConfig where
  storageDir : String
  manifestDir : String
  maxUploadBytes : Int
  retryAttempts : Int
  namespaceName : String

/-- The configuration object of a service: `idempotency_ttl_seconds` may be missing. -/
structure ServiceConfig extends UploadsConfig where
  idempotencyTtlSeconds : Option Int

/-- `UploadsConfig` is frozen and has slots for its own members only, among which there is no
`idempotency_ttl_seconds`. -/
def UploadsConfig.serviceConfig (config : UploadsConfig) : ServiceConfig :=
  { config with idempotencyTtlSeconds := none }

structure UploadContext where
  profile : String
  year : Int
  filename : String
  rid : String
  namespaceName : String
  idempotencyKey : String

/-- What a stream of chunks yields; an exception ends it. -/
abbrev Chunks := List (Except Failure (List UInt8))

/-- A service. `iterCsvFromZip` tells the inner name and the chunks of a ZIP, and `validate`
is what the validator makes of a file's bytes. -/
structure UploadService where
  config : ServiceConfig
  iterCsvFromZip : List UInt8 → Except Failure (String × Chunks)
  validate : List UInt8 → Except Failure ValidationResult
  sha256 : List UInt8 → String

abbrev Call (α : Type) := Fallible Request Request.Response Failure α

/-- One request; an exception that it ends in is raised. -/
def perform (r : Request) : Call r.Result := Program.ask r Program.ret

def chunkSize : Nat := 4 * 1024 * 1024

def slices (size : Nat) : Nat → List UInt8 → List (List UInt8)
  | 0, _ => []
  | _, [] => []
  | fuel + 1, data => data.take size :: slices size fuel (data.drop size)

def iterChunks (data : List UInt8) : List (List UInt8) := slices chunkSize data.length data

/-- `ZipCSVStream.__iter__` over the bytes of its member. -/
def zipChunks (data : List UInt8) : List (List UInt8) := slices (64 * 1024) data.length data

namespace UploadService
variable (S : UploadService)

/-- `_read_stream` of a file whose reads yield these chunks; an empty one ends it. -/
def readStream : List (List UInt8) → List UInt8 → Except Failure (List UInt8)
  | [], data => .ok data
  | [] :: _, data => .ok data
  | chunk :: chunks, data =>
    let data := data ++ chunk
    if S.config.maxUploadBytes < data.length then .error (uploadError .sizeExceeded)
    else readStream chunks data

/-- `_detect_format`; only ASCII letters have the lower case of one. -/
def detectFormat (filename : String) : Except Failure String :=
  let lower := filename.toLower
  if lower.endsWith ".csv" then .ok "csv"
  else if lower.endsWith ".zip" then .ok "zip"
  else .error (uploadError .formatUnsupported)

/-- `_validate_crlf`: each line feed follows a carriage return. `last` is the byte before,
within the chunk `chunk[index - 1]`. -/
def validateCrlf : List UInt8 → Option UInt8 → Except Failure (Option UInt8)
  | [], last => .ok last
  | byte :: chunk, last =>
    if byte == 10 && last != some 13 then
      .error (uploadError .validationError [("reason", "CRLF_REQUIRED")])
    else validateCrlf chunk (some byte)

/-- `_validate_crlf` over successive chunks, each given the byte before it. -/
def validateChunks (chunks : List (List UInt8)) (last : Option UInt8) :
    Except Failure (Option UInt8) :=
  chunks.foldlM (fun last chunk => validateCrlf chunk last) last

def abort (tempPath : String) : Call Unit := do
  let found : Bool ← perform (.pathExists tempPath)
  if found then perform (.unlink tempPath) else pure ()

def pathForDigest (digest : String) : String :=
  S.config.storageDir ++ "/sha256/" ++ digest ++ ".csv"

def finalize (digest tempPath : String) : Call String := do
  let target := S.pathForDigest digest
  let found : Bool ← perform (.pathExists target)
  if found then do
    abort tempPath
    pure target
  else do
    perform (.replace tempPath target)
    pure target

/-- The loop of `_write_csv`: the bytes written. -/
def writeChunks (tempPath : String) : Chunks → List UInt8 → Option UInt8 → Call (List UInt8)
  | [], data, _ => pure data
  | .error e :: _, _, _ => Fallible.raise e
  | .ok chunk :: chunks, data, last =>
    if S.config.maxUploadBytes < (data ++ chunk).length then do
      abort tempPath
      Fallible.raise (uploadError .sizeExceeded)
    else match validateCrlf chunk last with
      | .error e => Fallible.raise e
      | .ok last => do
        perform (.append tempPath chunk)
        writeChunks tempPath chunks (data ++ chunk) last

/-- `_write_csv`: the digest, the path and the size. -/
def writeCsv (chunks : Chunks) : Call (String × String × Nat) := do
  let temp : String ← perform .uuid4
  let tempPath := S.config.storageDir ++ "/tmp/" ++ temp ++ ".csv.part"
  perform (.create tempPath)
  let data ← S.writeChunks tempPath chunks [] none
  let shaHex := S.sha256 data
  let path ← S.finalize shaHex tempPath
  pure (shaHex, path, data.length)

/-- `retry` with `UploadError` fatal and so many attempts left. -/
def retryLoop {α : Type} (call : Call α) : Nat → Call α
  | 0 => Fallible.raise (.other "operation failed after retries")
  | attempts + 1 => Fallible.handle call pure fun
    | .upload envelope => Fallible.raise (.upload envelope)
    | _ => retryLoop call attempts

def retry {α : Type} (call : Call α) (attempts : Int) : Call α :=
  if attempts ≤ 0 then Fallible.raise (.value "attempts must be positive")
  else retryLoop call attempts.toNat

def getRecord (uploadId : String) : Call UploadRecord := do
  match ← perform (.getUpload uploadId) with
  | some record => pure record
  | none => Fallible.raise (.key uploadId)

def createUpload (context : UploadContext) (clockNow sourceFilename : String) :
    Call UploadRecord := do
  let uploadId ← perform .uuid4
  perform (.insertUpload
    { id := uploadId, profile := context.profile, year := context.year, status := .pending,
      sha256 := none, recordCount := none, sizeBytes := none, manifestPath := none,
      sourceFilename, namespaceName := context.namespaceName, createdAt := clockNow,
      updatedAt := clockNow })
  getRecord uploadId

def createManifest (record : UploadRecord) (shaHex : String) (sizeBytes : Nat)
    (validation : ValidationResult) (context : UploadContext) (sourceFormat contentType : String) :
    Call String := do
  let generatedAt ← perform .now
  let stem := S.config.manifestDir ++ "/" ++ record.namespaceName ++ "/" ++ record.id ++
    "_upload_manifest"
  perform (.dump (stem ++ ".part")
    { sha256 := shaHex, sizeBytes, generatedAt, sourceFormat, contentType,
      profile := record.profile, year := record.year, sourceFilename := record.sourceFilename,
      rid := context.rid, namespaceName := context.namespaceName, validation })
  perform (.replace (stem ++ ".part") (stem ++ ".json"))
  pure (stem ++ ".json")

def idempotencyTtlSeconds : Call Int :=
  match S.config.idempotencyTtlSeconds with
  | some ttl => pure ttl
  | none => Fallible.raise
      (.attribute "'UploadsConfig' object has no attribute 'idempotency_ttl_seconds'")

def idempotencyKey (context : UploadContext) : String :=
  "uploads:" ++ S.config.namespaceName ++ ":" ++ context.namespaceName ++ ":idem:" ++
    context.idempotencyKey

/-- `_acquire_idempotency`: the upload already there under the key, or the key is now held. -/
def acquireIdempotency (context : UploadContext) : Call (Option String) := do
  let redisKey := S.idempotencyKey context
  let ttl ← S.idempotencyTtlSeconds
  let acquired : Bool ← perform (.redisSet redisKey ("pending:" ++ context.rid) true ttl)
  if acquired then pure none
  else match ← perform (.redisGet redisKey) with
    | some existing =>
      if existing.startsWith "upload:" then
        pure (some (String.ofList (existing.toList.drop "upload:".length)))
      else Fallible.raise (uploadError .conflict)
    | none => Fallible.raise (uploadError .conflict)

def finalizeIdempotency (redisKey uploadId : String) : Call Unit := do
  let ttl ← S.idempotencyTtlSeconds
  let _ ← perform (.redisSet redisKey ("upload:" ++ uploadId) false ttl)
  pure ()

/-- The file name and the chunks that are stored. -/
def csvStream (context : UploadContext) (fmt : String) (rawBytes : List UInt8) :
    Except Failure (String × Chunks) :=
  if fmt == "zip" then S.iterCsvFromZip rawBytes
  else .ok (context.filename, (slices chunkSize rawBytes.length rawBytes).map Except.ok)

/-- What `upload` does once the file is stored: its digest, path and size. -/
def registerUpload (context : UploadContext) (fmt redisKey filename : String)
    (stored : String × String × Nat) : Call UploadRecord := do
  let (shaHex, path, sizeBytes) := stored
  let createdAt ← perform .now
  let record ← createUpload context createdAt filename
  let data ← perform (.readFile path)
  let validation ← Fallible.ofExcept (S.validate data)
  let manifestPath ← S.createManifest record shaHex sizeBytes validation context fmt "text/csv"
  let updatedAt ← perform .now
  perform (.updateManifest record.id shaHex validation.recordCount sizeBytes manifestPath updatedAt)
  let updated ← getRecord record.id
  S.finalizeIdempotency redisKey updated.id
  pure updated

/-- What `upload` does once it holds the key. -/
def uploadBody (context : UploadContext) (fmt redisKey : String) (file : List (List UInt8)) :
    Call UploadRecord := do
  let rawBytes ← Fallible.ofExcept (S.readStream file [])
  let (filename, chunks) ← Fallible.ofExcept (S.csvStream context fmt rawBytes)
  let stored ← retry (S.writeCsv chunks) S.config.retryAttempts
  S.registerUpload context fmt redisKey filename stored

/-- How `upload` ends where its body raises. -/
def giveUp (redisKey : String) : Failure → Call UploadRecord
  | .upload envelope => do
    perform (.redisDelete redisKey)
    Fallible.raise (.upload envelope)
  | _ => do
    perform (.redisDelete redisKey)
    Fallible.raise (uploadError .internalError)

/-- `upload` of a file whose reads yield these chunks. -/
def upload (context : UploadContext) (file : List (List UInt8)) : Call UploadRecord := do
  let fmt ← Fallible.ofExcept (detectFormat context.filename)
  let redisKey := S.idempotencyKey context
  let existingId ← S.acquireIdempotency context
  if !(existingId.getD "").isEmpty then getRecord (existingId.getD "")
  else Fallible.handle (S.uploadBody context fmt redisKey file) pure (giveUp redisKey)

def getUpload (uploadId : String) : Call UploadRecord :=
  Fallible.handle (getRecord uploadId) pure fun
    | .key _ => Fallible.raise (uploadError .notFound)
    | e => Fallible.raise e

def activationLockKey (year : Int) : String :=
  "uploads:" ++ S.config.namespaceName ++ ":activate:" ++ toString year

/-- `activate` once it holds the lock, before the lock is given up. -/
def activateBody (uploadId : String) : Call UploadRecord :=
  let body : Call UploadRecord := do
    let clockNow ← perform .now
    perform (.activate uploadId clockNow)
    getRecord uploadId
  Fallible.handle body pure fun
    | .value reason =>
      if reason == "upload not ready" then Fallible.raise (uploadError .activationConflict)
      else Fallible.raise (uploadError .validationError [("reason", reason)])
    | .integrity _ => Fallible.raise (uploadError .activationConflict)
    | _ => Fallible.raise (uploadError .internalError)

def activate (uploadId rid : String) : Call UploadRecord := do
  let record ← getUpload uploadId
  let lockKey := S.activationLockKey record.year
  let ttl ← S.idempotencyTtlSeconds
  let acquired : Bool ← perform (.redisSet lockKey rid true ttl)
  if acquired then
    (activateBody uploadId).ensure (perform (.redisDelete lockKey))
  else Fallible.raise (uploadError .activationConflict)

end UploadService

inductive ServiceCall where
  | upload (service : UploadService) (context : UploadContext) (file : List (List UInt8))
  | activate (service : UploadService) (uploadId rid : String)

def ServiceCall.service : ServiceCall → UploadService
  | .upload service _ _ => service
  | .activate service _ _ => service

def ServiceCall.program : ServiceCall → Call UploadRecord
  | .upload service context file => service.upload context file
  | .activate service uploadId rid => service.activate uploadId rid

abbrev UploadSystem (ι : Type) :=
  Config ι (World ι) Request Request.Response (Except Failure UploadRecord)

def UploadSystem.start {ι : Type} (calls : ι → ServiceCall) : UploadSystem ι :=
  ⟨World.empty, fun i => (calls i).program⟩

abbrev UploadSystem.Step {ι : Type} [DecidableEq ι] :
    UploadSystem ι → ι × Choice → UploadSystem ι → Prop :=
  Config.Step World.answer

end Uploads
