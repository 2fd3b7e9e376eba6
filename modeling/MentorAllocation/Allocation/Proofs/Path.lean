import MentorAllocation.Allocation.Proofs.OutboxConsistency

namespace Allocation
open Concurrency

/-- Where a call stands on the way to a fresh record. -/
inductive Phase where
  | opening
  | looking
  | lockingMentor
  | lockingStudent
  | judging
  | drawing (verdict : PolicyVerdict)
  | timing (record : AllocationRecord)
  | flushing (row : Row)
  | committing (row : Row)
  | closing (record : AllocationRecord)
  | done (record : AllocationRecord)

namespace Phase

/-- The record whose identifiers are drawn and which is not yet committed. -/
def drawn : Phase → Option AllocationRecord
  | .timing record => some record
  | .flushing row | .committing row => some row.1
  | _ => none

def committed : Phase → Option AllocationRecord
  | .closing record | .done record => some record
  | _ => none

def flushed : Phase → Option Row
  | .committing row => some row
  | _ => none

def index : Phase → Nat
  | .opening => 0
  | .looking => 1
  | .lockingMentor => 2
  | .lockingStudent => 3
  | .judging => 4
  | .drawing _ => 5
  | .timing _ => 6
  | .flushing _ => 7
  | .committing _ => 8
  | .closing _ => 9
  | .done _ => 10

end Phase

section
variable (P : Platform) (request : AllocationRequest) (key : String) (student : StudentModel)
  (mentor : MentorModel)

/-- The call is about to make request `r`, and once it is granted `next` holds of the rest. -/
def Awaits (r : Statement) (next : Value r → Tx AllocationResult → Prop)
    (p : Tx AllocationResult) : Prop :=
  ∃ rest : Answer r → Tx AllocationResult,
    p = Program.ask r rest ∧ ∀ a, next a (rest (.ok a))

def Done (record : AllocationRecord) (p : Tx AllocationResult) : Prop :=
  p = Program.ret (.ok (allocated P record))

def Closing (record : AllocationRecord) : Tx AllocationResult → Prop :=
  Awaits .close fun _ => Done P record

def Committing (record : AllocationRecord) : Tx AllocationResult → Prop :=
  Awaits .commit fun _ => Closing P record

def Flushing (row : Row) : Tx AllocationResult → Prop :=
  Awaits (.flush row) fun _ => Committing P row.1

def Timing (record : AllocationRecord) : Tx AllocationResult → Prop :=
  Awaits .now fun now p => ∀ message,
    (allocationEvent P record now).toModel = .ok message → Flushing P (record, message) p

def Drawing (verdict : PolicyVerdict) : Tx AllocationResult → Prop :=
  Awaits (.nextIdentifiers student mentor) fun identifiers =>
    Timing P (newRecord request key student mentor verdict identifiers)

def Judging : Tx AllocationResult → Prop :=
  Awaits (.evaluate student mentor request) fun verdict p =>
    verdict.approved = true → Drawing P request key student mentor verdict p

def LockingStudent : Tx AllocationResult → Prop :=
  Awaits (.getStudentForUpdate request.studentId) fun found p =>
    found = some student → Judging P request key student mentor p

def LockingMentor : Tx AllocationResult → Prop :=
  Awaits (.getMentorForUpdate request.mentorId) fun found p =>
    found = some mentor → LockingStudent P request key student mentor p

def Looking : Tx AllocationResult → Prop :=
  Awaits (.getByIdempotencyKey key) fun found p =>
    found = none → LockingMentor P request key student mentor p

def Opening : Tx AllocationResult → Prop :=
  Awaits .openSession fun _ => Looking P request key student mentor

def At : Phase → Tx AllocationResult → Prop
  | .opening => Opening P request key student mentor
  | .looking => Looking P request key student mentor
  | .lockingMentor => LockingMentor P request key student mentor
  | .lockingStudent => LockingStudent P request key student mentor
  | .judging => Judging P request key student mentor
  | .drawing verdict => Drawing P request key student mentor verdict
  | .timing record => Timing P record
  | .flushing row => Flushing P row
  | .committing row => Committing P row.1
  | .closing record => Closing P record
  | .done record => Done P record

end

section
variable {P : Platform} {request : AllocationRequest} {key : String} {student : StudentModel}
  {mentor : MentorModel} {α : Type} {r : Statement}
  {next : Value r → Tx AllocationResult → Prop}

/-- The rest of a call around the rest of its first attempt's body. -/
def within (once : Tx AllocationResult) (maxRetries : Nat)
    (q : Tx (AllocationResult × Bool)) : Tx AllocationResult :=
  match maxRetries with
  | 0 => Fallible.handle q leave abandon
  | n + 1 => Fallible.handle (Fallible.handle q leave abandon) pure fun
    | .database .operational => retrying once n
    | e => Fallible.raise e

/-- The rest of the body around the rest of its `try` block. -/
def recording (P : Platform) (record : AllocationRecord) (q : Tx Unit) :
    Tx (AllocationResult × Bool) :=
  Fallible.handle q (fun _ => return (allocated P record, false)) (recover P record)

theorem awaits_body {once : Tx AllocationResult} {n : Nat}
    {f : Value r → Tx (AllocationResult × Bool)} (h : ∀ a, next a (within once n (f a))) :
    Awaits r next (within once n (execute r >>= f)) := by
  cases n <;> exact ⟨_, rfl, h⟩

theorem awaits_recording {once : Tx AllocationResult} {n : Nat} {record : AllocationRecord}
    {f : Value r → Tx Unit} (h : ∀ a, next a (within once n (recording P record (f a)))) :
    Awaits r next (within once n (recording P record (execute r >>= f))) := by
  cases n <;> exact ⟨_, rfl, h⟩

theorem flushing_within {once : Tx AllocationResult} {n : Nat} {record : AllocationRecord}
    {message : OutboxMessageModel} :
    Flushing P (record, message)
      (within once n (recording P record (execute (.flush (record, message))))) := by
  cases n <;> exact ⟨_, rfl, fun _ => ⟨_, rfl, fun _ => ⟨_, rfl, fun _ => rfl⟩⟩⟩

theorem timing_within {once : Tx AllocationResult} {n : Nat} {record : AllocationRecord} :
    Timing P record (within once n (recordAllocation P record)) := by
  apply awaits_recording
  intro now message hm
  rw [hm]
  exact flushing_within

/-- A call without failures goes through the phases one by one. -/
theorem opening_allocate (maxRetries : Nat) :
    Opening P request (request.idempotencyKey P) student mentor
      (allocate P maxRetries request false) := by
  have hbody : Looking P request (request.idempotencyKey P) student mentor
      (within (executeOnce P request false) maxRetries
        (executeBody P request false (request.idempotencyKey P))) := by
    apply awaits_body
    rintro _ rfl
    apply awaits_body
    rintro _ rfl
    apply awaits_body
    rintro _ rfl
    apply awaits_body
    rintro ⟨_, code⟩ rfl
    apply awaits_body
    intro identifiers
    exact timing_within
  cases maxRetries <;> exact ⟨_, rfl, fun _ => hbody⟩

end

end Allocation
