import MentorAllocation.Allocation.Idempotency

namespace Allocation
open Text

/-- A reading of the clock, by what the program takes from it. -/
structure DateTime where
  instant : Int
  year : Nat
  isoformat : String
  deriving DecidableEq, Repr

structure StudentModel where
  nationalId : String
  gender : Int
  eduStatus : Int
  regCenter : Int
  regStatus : Int
  groupCode : Int
  schoolCode : Option Int
  studentType : Option Int
  deriving DecidableEq, Repr

structure MentorModel where
  mentorId : Int
  gender : Int
  type : String
  capacity : Int
  currentLoad : Int
  managerId : Option Int
  isActive : Bool
  deriving DecidableEq, Repr

inductive AllocationStatus where
  | confirmed
  | cancelled
  deriving DecidableEq, Repr

def AllocationStatus.text : AllocationStatus → String
  | .confirmed => "CONFIRMED"
  | .cancelled => "CANCELLED"

structure AllocationRecord where
  allocationId : Int
  allocationCode : String
  yearCode : String
  studentId : String
  mentorId : Int
  idempotencyKey : String
  requestId : Option String
  status : AllocationStatus
  policyCode : Option String
  metadataJson : Option String
  deriving DecidableEq, Repr

inductive OutboxStatus where
  | pending
  | sent
  | failed
  deriving DecidableEq, Repr

structure OutboxMessageModel where
  eventId : String
  aggregateType : String
  aggregateId : String
  eventType : String
  payloadJson : String
  occurredAt : DateTime
  availableAt : DateTime
  retryCount : Nat
  status : OutboxStatus
  deriving DecidableEq, Repr

/-- The committed contents of the tables the allocator reads and writes. -/
structure Database where
  students : List StudentModel
  mentors : List MentorModel
  allocations : List AllocationRecord
  outbox : List OutboxMessageModel
  deriving DecidableEq, Repr

namespace Database

def getByIdempotencyKey (db : Database) (key : String) : Option AllocationRecord :=
  db.allocations.find? (fun r => r.idempotencyKey == key)

def getByStudentYear (db : Database) (studentId yearCode : String) : Option AllocationRecord :=
  db.allocations.find? (fun r => r.studentId == studentId && r.yearCode == yearCode)

def getMentor (db : Database) (mentorId : Int) : Option MentorModel :=
  db.mentors.find? (fun m => m.mentorId == mentorId)

def getStudent (db : Database) (studentId : String) : Option StudentModel :=
  db.students.find? (fun s => s.nationalId == studentId)

def insert (db : Database) (row : AllocationRecord × OutboxMessageModel) : Database :=
  { db with allocations := db.allocations ++ [row.1], outbox := db.outbox ++ [row.2] }

end Database

/-- The unique keys of `allocations`: primary key, code, idempotency key, student and year. -/
def AllocationRecord.clashes (a b : AllocationRecord) : Bool :=
  a.allocationId == b.allocationId || a.allocationCode == b.allocationCode ||
    a.idempotencyKey == b.idempotencyKey ||
    (a.studentId == b.studentId && a.yearCode == b.yearCode)

def OutboxMessageModel.clashes (a b : OutboxMessageModel) : Bool := a.eventId == b.eventId

/-- A record and its message, written by one flush, against another such pair. -/
def rowsClash (a b : AllocationRecord × OutboxMessageModel) : Bool :=
  a.1.clashes b.1 || a.2.clashes b.2

def Database.violates (db : Database) (row : AllocationRecord × OutboxMessageModel) : Bool :=
  db.allocations.any row.1.clashes || db.outbox.any row.2.clashes

structure AllocationRequest where
  studentId : String
  mentorId : Int
  requestId : Option String
  payload : List (String × Json)
  metadata : List (String × Json)
  yearCode : Option String

/-- A mapping argument as it arrives. A text comes with what `json.loads` makes of it. -/
inductive RawMapping where
  | none
  | text (s : String) (parsed : Option Json)
  | dict (members : List (String × Json))
  | other

namespace AllocationRequest

def normalizeStudent (P : Platform) (value : Raw) : String := normalizeIdentifier P value

def normalizeMentor (P : Platform) (value : Raw) : Except String Int :=
  if value == .none || value == .str "" then .ok 0
  else
    let text := normalizeIdentifier P value
    if text.isEmpty then .ok 0
    else match parseInt text with
      | some n => .ok n
      | none => .error "MENTOR_ID_INVALID|شناسه منتور نامعتبر است"

def normalizeRequest (P : Platform) (value : Raw) : Option String :=
  if value == .none || value == .str "" then none
  else
    let text := normalizeIdentifier P value
    if text.isEmpty then none else some text

def ensureDict : RawMapping → Except String (List (String × Json))
  | .none => .ok []
  | .text s parsed =>
    if s.isEmpty then .ok []
    else match parsed with
      | some (.obj members) => .ok members
      | some _ => .error "Input should be a valid dictionary"
      | none => .error "PAYLOAD_INVALID_JSON|ساختار JSON نامعتبر است"
  | .dict members => .ok members
  | .other => .error "PAYLOAD_NOT_MAPPING|ساختار ورودی باید دیکشنری باشد"

/-- What the model accepts, field by field. `str_strip_whitespace` leaves texts that
are already stripped alone, so it only shows on the year code. -/
def validate (P : Platform) (studentId mentorId requestId : Raw) (payload metadata : RawMapping)
    (yearCode : Option String) : Except String AllocationRequest := do
  let mentorId ← normalizeMentor P mentorId
  let payload ← ensureDict payload
  let metadata ← ensureDict metadata
  return {
    studentId := normalizeStudent P studentId
    mentorId
    requestId := normalizeRequest P requestId
    payload
    metadata
    yearCode := yearCode.map strip }

def material (P : Platform) (request : AllocationRequest) : String :=
  idempotencyMaterial P (.str request.studentId) (.int request.mentorId)
    (request.requestId.elim .none .str) (.obj request.payload)

def idempotencyKey (P : Platform) (request : AllocationRequest) : String :=
  deriveIdempotencyKey P (.str request.studentId) (.int request.mentorId)
    (request.requestId.elim .none .str) (.obj request.payload)

end AllocationRequest

end Allocation
