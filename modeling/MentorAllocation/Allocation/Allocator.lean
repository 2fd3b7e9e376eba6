import MentorAllocation.Allocation.Outbox
import MentorAllocation.Concurrency.Program

namespace Allocation
open Text Concurrency

structure PolicyVerdict where
  approved : Bool
  code : String
  deriving DecidableEq, Repr

structure AllocationIdentifiers where
  allocationId : Int
  yearCode : String
  allocationCode : String
  deriving DecidableEq, Repr

structure AllocationResult where
  allocationId : Option Int
  allocationCode : Option String
  yearCode : Option String
  mentorId : Option Int
  status : String
  message : String
  errorCode : Option String
  idempotencyKey : String
  outboxEventId : Option String
  dryRun : Bool := false
  deriving DecidableEq, Repr

/-- What the database driver raises: `OperationalError`, `IntegrityError`, or any
other `SQLAlchemyError`, such as the `DataError` of a value too long for its column. -/
inductive DatabaseError where
  | operational
  | integrity
  | other
  deriving DecidableEq, Repr

inductive AllocateError where
  | database (e : DatabaseError)
  | unitOfWork (message : String)
  | value (message : String)
  deriving DecidableEq, Repr

/-- What one call asks of the world around it, in the order of the source. -/
inductive Statement where
  | openSession
  | getByIdempotencyKey (key : String)
  | getMentorForUpdate (mentorId : Int)
  | getStudentForUpdate (studentId : String)
  | evaluate (student : StudentModel) (mentor : MentorModel) (request : AllocationRequest)
  | nextIdentifiers (student : StudentModel) (mentor : MentorModel)
  | now
  | flush (row : AllocationRecord × OutboxMessageModel)
  | getByStudentYear (studentId yearCode : String)
  | commit
  | rollback
  | close

@[reducible] def Value : Statement → Type
  | .openSession => Unit
  | .getByIdempotencyKey _ => Option AllocationRecord
  | .getMentorForUpdate _ => Option MentorModel
  | .getStudentForUpdate _ => Option StudentModel
  | .evaluate _ _ _ => PolicyVerdict
  | .nextIdentifiers _ _ => AllocationIdentifiers
  | .now => DateTime
  | .flush _ => Unit
  | .getByStudentYear _ _ => Option AllocationRecord
  | .commit => Unit
  | .rollback => Unit
  | .close => Unit

/-- Any request may raise instead of returning its value. -/
@[reducible] def Answer (r : Statement) : Type := Except DatabaseError (Value r)

abbrev Tx (α : Type) : Type := Fallible Statement Answer AllocateError α

def execute (r : Statement) : Tx (Value r) :=
  Program.ask r fun x => match x with
    | .ok a => .ret (.ok a)
    | .error e => .ret (.error (.database e))

/-- `try: p finally: q`. -/
def ensuring (p : Tx α) (q : Tx Unit) : Tx α :=
  Fallible.handle p (fun a => do q; return a) (fun e => do q; Fallible.raise e)

def commitUnitOfWork : Tx Unit :=
  Fallible.handle (execute .commit) pure fun _ => do
    execute .rollback
    Fallible.raise (.unitOfWork "COMMIT_FAILED")

/-- `UnitOfWork.__exit__` without an exception. The body returns its value and whether
it called `uow.rollback`, which sets `_skip_commit`. -/
def leave : α × Bool → Tx α
  | (value, skipCommit) => do
    ensuring (if skipCommit then pure () else commitUnitOfWork) (execute .close)
    return value

/-- `UnitOfWork.__exit__` with an exception, which then propagates. -/
def abandon (e : AllocateError) : Tx α := do
  ensuring (execute .rollback) (execute .close)
  Fallible.raise e

/-- `with self._uow_factory() as uow: body`. -/
def withUnitOfWork (body : Tx (α × Bool)) : Tx α := do
  execute .openSession
  Fallible.handle body leave abandon

def alreadyAssigned (P : Platform) (existing : AllocationRecord) (key message : String) :
    AllocationResult where
  allocationId := some existing.allocationId
  allocationCode := some existing.allocationCode
  yearCode := some existing.yearCode
  mentorId := some existing.mentorId
  status := "ALREADY_ASSIGNED"
  message
  errorCode := some "ALREADY_ASSIGNED"
  idempotencyKey := key
  outboxEventId := some (deriveEventId P key)

def refused (key status message errorCode : String) : AllocationResult where
  allocationId := none
  allocationCode := none
  yearCode := none
  mentorId := none
  status
  message
  errorCode := some errorCode
  idempotencyKey := key
  outboxEventId := none

def dryRunResult (request : AllocationRequest) (mentor : MentorModel) (key : String) :
    AllocationResult where
  allocationId := none
  allocationCode := none
  yearCode := request.yearCode
  mentorId := some mentor.mentorId
  status := "DRY_RUN"
  message := "اجرای آزمایشی بدون ثبت"
  errorCode := none
  idempotencyKey := key
  outboxEventId := none
  dryRun := true

def allocated (P : Platform) (record : AllocationRecord) : AllocationResult where
  allocationId := some record.allocationId
  allocationCode := some record.allocationCode
  yearCode := some record.yearCode
  mentorId := some record.mentorId
  status := "OK"
  message := "تخصیص با موفقیت انجام شد"
  errorCode := none
  idempotencyKey := record.idempotencyKey
  outboxEventId := some (deriveEventId P record.idempotencyKey)

def newRecord (request : AllocationRequest) (key : String) (student : StudentModel)
    (mentor : MentorModel) (verdict : PolicyVerdict) (identifiers : AllocationIdentifiers) :
    AllocationRecord where
  allocationId := identifiers.allocationId
  allocationCode := identifiers.allocationCode
  yearCode := identifiers.yearCode
  studentId := student.nationalId
  mentorId := mentor.mentorId
  idempotencyKey := key
  requestId := request.requestId
  status := .confirmed
  policyCode := some verdict.code
  metadataJson :=
    if request.metadata.isEmpty then none else some (Json.dumps {} (.obj request.metadata))

/-- The `try` block: the event is built from the record, then both rows are flushed. -/
def insertRows (P : Platform) (record : AllocationRecord) : Tx Unit := do
  let now ← execute .now
  match (allocationEvent P record now).toModel with
  | .error message => Fallible.raise (.value message)
  | .ok message => execute (.flush (record, message))

def resolveConflict (P : Platform) (record : AllocationRecord) : Tx (AllocationResult × Bool) := do
  execute .rollback
  let duplicate (existing : AllocationRecord) : AllocationResult × Bool :=
    (alreadyAssigned P existing record.idempotencyKey "درخواست تکراری تشخیص داده شد", true)
  match ← execute (.getByIdempotencyKey record.idempotencyKey) with
  | some existing => return duplicate existing
  | none =>
    if record.yearCode.isEmpty then Fallible.raise (.database .integrity)
    else match ← execute (.getByStudentYear record.studentId record.yearCode) with
      | some existing => return duplicate existing
      | none => Fallible.raise (.database .integrity)

def recover (P : Platform) (record : AllocationRecord) :
    AllocateError → Tx (AllocationResult × Bool)
  | .database .integrity => resolveConflict P record
  | e => Fallible.raise e

def recordAllocation (P : Platform) (record : AllocationRecord) : Tx (AllocationResult × Bool) :=
  Fallible.handle (insertRows P record) (fun _ => return (allocated P record, false))
    (recover P record)

def assign (P : Platform) (request : AllocationRequest) (dryRun : Bool) (key : String)
    (mentor : MentorModel) (student : StudentModel) : Tx (AllocationResult × Bool) := do
  let verdict ← execute (.evaluate student mentor request)
  if !verdict.approved then
    return (refused key "POLICY_REJECT" "درخواست توسط سیاست رد شد"
      (if verdict.code.isEmpty then "POLICY_REJECT" else verdict.code), false)
  if dryRun then
    return (dryRunResult request mentor key, false)
  let identifiers ← execute (.nextIdentifiers student mentor)
  recordAllocation P (newRecord request key student mentor verdict identifiers)

/-- The body of the `with` block of `_execute_once`. -/
def executeBody (P : Platform) (request : AllocationRequest) (dryRun : Bool) (key : String) :
    Tx (AllocationResult × Bool) := do
  match ← execute (.getByIdempotencyKey key) with
  | some existing =>
    return (alreadyAssigned P existing key "درخواست قبلی با موفقیت ثبت شده است", false)
  | none =>
    match ← execute (.getMentorForUpdate request.mentorId) with
    | none => return (refused key "MENTOR_NOT_FOUND" "منتور یافت نشد" "MENTOR_NOT_FOUND", false)
    | some mentor =>
      match ← execute (.getStudentForUpdate request.studentId) with
      | none =>
        return (refused key "STUDENT_NOT_FOUND" "دانش‌آموز یافت نشد" "STUDENT_NOT_FOUND", false)
      | some student => assign P request dryRun key mentor student

def executeOnce (P : Platform) (request : AllocationRequest) (dryRun : Bool) :
    Tx AllocationResult :=
  withUnitOfWork (executeBody P request dryRun (request.idempotencyKey P))

/-- The retry loop of `allocate`, with the number of retries left. Only an
`OperationalError` is retried; the sleep between two attempts has no effect here. -/
def retrying (once : Tx α) : Nat → Tx α
  | 0 => once
  | n + 1 => Fallible.handle once pure fun
    | .database .operational => retrying once n
    | e => Fallible.raise e

def allocate (P : Platform) (maxRetries : Nat) (request : AllocationRequest) (dryRun : Bool) :
    Tx AllocationResult :=
  retrying (executeOnce P request dryRun) maxRetries

end Allocation
