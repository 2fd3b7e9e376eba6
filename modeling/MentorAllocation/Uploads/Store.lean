import MentorAllocation.Concurrency.Program
import MentorAllocation.Text.Json

namespace Uploads
open Text Concurrency

structure ErrorEnvelope where
  code : String
  message : String
  details : Option (List (String × String)) := none
  deriving DecidableEq, Repr

/-- The members of `UPLOAD_ERRORS` that a service raises. -/
inductive UploadErrorName where
  | validationError
  | formatUnsupported
  | sizeExceeded
  | internalError
  | conflict
  | activationConflict
  | notFound
  deriving DecidableEq, Repr

def UploadErrorName.base : UploadErrorName → ErrorEnvelope
  | .validationError =>
    { code := "UPLOAD_VALIDATION_ERROR"
      message := "فایل نامعتبر است؛ لطفاً خطاهای اعلام‌شده را رفع کنید." }
  | .formatUnsupported =>
    { code := "UPLOAD_FORMAT_UNSUPPORTED"
      message := "فایل پشتیبانی نمی‌شود؛ فقط CSV یا ZIP مجاز است." }
  | .sizeExceeded =>
    { code := "UPLOAD_SIZE_EXCEEDED", message := "حجم فایل بیش از حد مجاز است (۵۰ مگابایت)." }
  | .internalError =>
    { code := "UPLOAD_INTERNAL_ERROR"
      message := "خطای غیرمنتظره رخ داد؛ لطفاً بعداً دوباره تلاش کنید." }
  | .conflict =>
    { code := "UPLOAD_CONFLICT"
      message := "عملیات تکراری شناسایی شد؛ از شناسه یکتا استفاده کنید." }
  | .activationConflict =>
    { code := "UPLOAD_ACTIVATION_CONFLICT"
      message := "فقط یک پرونده در هر سال تحصیلی می‌تواند فعال باشد." }
  | .notFound => { code := "UPLOAD_NOT_FOUND", message := "پرونده بارگذاری‌شده یافت نشد." }

inductive Failure where
  /-- `UploadError`. -/
  | upload (envelope : ErrorEnvelope)
  /-- `IntegrityError` of a broken constraint. -/
  | integrity (message : String)
  | value (message : String)
  | key (message : String)
  | attribute (message : String)
  /-- Any other exception. -/
  | other (message : String)
  deriving DecidableEq, Repr

/-- `UploadError(envelope(name, details=details))`. -/
def uploadError (name : UploadErrorName) (details : List (String × String) := []) : Failure :=
  .upload (if details.isEmpty then name.base else { name.base with details := some details })

inductive UploadStatus where
  | pending
  | ready
  | active
  deriving DecidableEq, Repr

/-- A row of `uploads`; dates are told by their `isoformat`. -/
structure UploadRecord where
  id : String
  profile : String
  year : Int
  status : UploadStatus
  sha256 : Option String
  recordCount : Option Nat
  sizeBytes : Option Nat
  manifestPath : Option String
  sourceFilename : String
  namespaceName : String
  createdAt : String
  updatedAt : String
  deriving DecidableEq, Repr

structure ActiveRoster where
  year : Int
  uploadId : String
  activatedAt : String
  deriving DecidableEq, Repr

structure ValidationResult where
  recordCount : Nat
  previewRows : List (List (String × String))
  excelSafety : Json
  schema : List String

structure Manifest where
  sha256 : String
  sizeBytes : Nat
  generatedAt : String
  sourceFormat : String
  contentType : String
  profile : String
  year : Int
  sourceFilename : String
  rid : String
  namespaceName : String
  validation : ValidationResult

inductive Content where
  | bytes (data : List UInt8)
  | manifest (manifest : Manifest)

/-- A Redis key with its value; no request reads whose `creator` is. -/
structure Entry (ι : Type) where
  value : String
  creator : ι

/-- A Redis server, the files of the storage and manifest directories, and the database. -/
structure World (ι : Type) where
  redis : String → Option (Entry ι)
  files : String → Option Content
  uploads : String → Option UploadRecord
  activeRosters : List ActiveRoster

def World.empty {ι : Type} : World ι where
  redis := fun _ => none
  files := fun _ => none
  uploads := fun _ => none
  activeRosters := []

/-- What a service asks of its surroundings. A request on the database is one transaction. -/
inductive Request where
  | redisSet (key value : String) (nx : Bool) (ex : Int)
  | redisGet (key : String)
  | redisDelete (key : String)
  | uuid4
  | now
  | pathExists (path : String)
  | create (path : String)
  | append (path : String) (chunk : List UInt8)
  | dump (path : String) (manifest : Manifest)
  | unlink (path : String)
  | replace (source target : String)
  | readFile (path : String)
  | insertUpload (record : UploadRecord)
  | getUpload (uploadId : String)
  | updateManifest (uploadId sha256 : String) (recordCount sizeBytes : Nat)
      (manifestPath clockNow : String)
  | activate (uploadId clockNow : String)

def Request.Result : Request → Type
  | .redisSet .. => Bool
  | .redisGet _ => Option String
  | .uuid4 => String
  | .now => String
  | .pathExists _ => Bool
  | .readFile _ => List UInt8
  | .getUpload _ => Option UploadRecord
  | _ => Unit

abbrev Request.Response (r : Request) : Type := Except Failure r.Result

namespace World
variable {ι : Type}

def setKey (w : World ι) (key : String) (entry : Option (Entry ι)) : World ι :=
  { w with redis := Function.update w.redis key entry }

def setFile (w : World ι) (path : String) (content : Option Content) : World ι :=
  { w with files := Function.update w.files path content }

def setUpload (w : World ι) (record : UploadRecord) : World ι :=
  { w with uploads := Function.update w.uploads record.id (some record) }

/-- Redis keys whose time to live has run out are gone. -/
def expire (w : World ι) (keys : List String) : World ι :=
  { w with redis := fun key => if keys.contains key then none else w.redis key }

@[simp] theorem expire_nil (w : World ι) : w.expire [] = w := by
  simp [expire]

/-- The transaction of `create_upload`; `id` is the primary key. -/
def insertUpload (w : World ι) (record : UploadRecord) : Except Failure (World ι) :=
  match w.uploads record.id with
  | some _ => .error (.integrity "UNIQUE constraint failed: uploads.id")
  | none => .ok (w.setUpload record)

def updateManifest (w : World ι) (uploadId sha256 : String) (recordCount sizeBytes : Nat)
    (manifestPath clockNow : String) : Except Failure (World ι) :=
  match w.uploads uploadId with
  | none => .error (.key uploadId)
  | some model => .ok (w.setUpload { model with
      id := uploadId, sha256 := some sha256, recordCount := some recordCount,
      sizeBytes := some sizeBytes, manifestPath := some manifestPath, status := .ready,
      updatedAt := clockNow })

/-- The transaction of `activate`; `year` is unique in `active_rosters`. -/
def activate (w : World ι) (uploadId clockNow : String) : Except Failure (World ι) :=
  match w.uploads uploadId with
  | none => .error (.key uploadId)
  | some upload =>
    if upload.status != .ready then .error (.value "upload not ready")
    else if w.activeRosters.any (fun row => row.year == upload.year) then
      .error (.integrity "UNIQUE constraint failed: active_rosters.year")
    else .ok { w.setUpload { upload with
                id := uploadId, status := .active, updatedAt := clockNow } with
              activeRosters := w.activeRosters ++
                [{ year := upload.year, uploadId, activatedAt := clockNow }] }

/-- A change that is made as a whole or not at all. -/
def commit (w : World ι) : Except Failure (World ι) → Except Failure Unit × World ι
  | .ok t => (.ok (), t)
  | .error e => (.error e, w)

/-- What a request of `i` does. `fresh` is the text that `uuid4` or the clock returns. -/
def execute (i : ι) (fresh : String) (w : World ι) : (r : Request) → r.Response × World ι
  | .redisSet key value nx ex =>
    if ex ≤ 0 then (.error (.other "invalid expire time in 'set' command"), w)
    else if nx && (w.redis key).isSome then (.ok false, w)
    else (.ok true, w.setKey key (some ⟨value, i⟩))
  | .redisGet key => (.ok ((w.redis key).map Entry.value), w)
  | .redisDelete key => (.ok (), w.setKey key none)
  | .uuid4 => (.ok fresh, w)
  | .now => (.ok fresh, w)
  | .pathExists path => (.ok (w.files path).isSome, w)
  | .create path => (.ok (), w.setFile path (some (.bytes [])))
  | .append path chunk => match w.files path with
    | some (.bytes data) => (.ok (), w.setFile path (some (.bytes (data ++ chunk))))
    | _ => (.ok (), w)
  | .dump path manifest => (.ok (), w.setFile path (some (.manifest manifest)))
  | .unlink path =>
    if (w.files path).isSome then (.ok (), w.setFile path none)
    else (.error (.other ("[Errno 2] No such file or directory: '" ++ path ++ "'")), w)
  | .replace source target => match w.files source with
    | some content => (.ok (), (w.setFile source none).setFile target (some content))
    | none => (.error (.other ("[Errno 2] No such file or directory: '" ++ source ++ "'")), w)
  | .readFile path => match w.files path with
    | some (.bytes data) => (.ok data, w)
    | _ => (.error (.other ("[Errno 2] No such file or directory: '" ++ path ++ "'")), w)
  | .insertUpload record => w.commit (w.insertUpload record)
  | .getUpload uploadId => (.ok (w.uploads uploadId), w)
  | .updateManifest uploadId sha256 recordCount sizeBytes manifestPath clockNow =>
    w.commit (w.updateManifest uploadId sha256 recordCount sizeBytes manifestPath clockNow)
  | .activate uploadId clockNow => w.commit (w.activate uploadId clockNow)

end World

/-- What becomes of a request: carried out and answered, carried out with an exception in
place of the answer, or not carried out. -/
inductive Delivery where
  | delivered
  | lost (message : String)
  | refused (message : String)

structure Choice where
  expired : List String := []
  fresh : String := ""
  delivery : Delivery := .delivered

def World.answer {ι : Type} (ch : Choice) (i : ι) (r : Request) (w : World ι) :
    Option (r.Response × World ι) :=
  let w := w.expire ch.expired
  some (match ch.delivery with
    | .refused message => (.error (.other message), w)
    | .lost message => (.error (.other message), (w.execute i ch.fresh r).2)
    | .delivered => w.execute i ch.fresh r)

end Uploads
