import Mathlib.Data.Fintype.Basic
import MentorAllocation.Allocation.Allocator

namespace Allocation
open Concurrency

abbrev Row : Type := AllocationRecord × OutboxMessageModel

/-- The collaborators of the allocator. Whatever they read of the outside at the
moment they are asked (a clock, a counter, a cache) is a value of `ω`. -/
structure Environment (ω : Type) where
  policyEngine : ω → StudentModel → MentorModel → AllocationRequest → PolicyVerdict
  sequenceProvider : ω → List AllocationRecord → StudentModel → MentorModel → AllocationIdentifiers
  clock : ω → DateTime

/-- What may go wrong with a statement. A lost commit is applied by the server
although the client sees it fail. -/
inductive Fault where
  | none
  | operational
  | other
  | lostCommit
  deriving DecidableEq, Repr

structure Choice (ω : Type) where
  world : ω
  fault : Fault := .none

def Choice.failure (ch : Choice ω) : Option DatabaseError :=
  match ch.fault with
  | .operational => some .operational
  | .other => some .other
  | .none | .lostCommit => none

/-- One open transaction: the row locks it holds and the rows it has flushed. -/
structure Session where
  mentorLock : Option Int := none
  studentLock : Option String := none
  pending : Option Row := none
  deriving DecidableEq

structure Store (ι : Type) where
  db : Database
  sessions : ι → Session

namespace Store
variable {ι ω : Type} [DecidableEq ι]

def setSession (s : Store ι) (i : ι) (session : Session) : Store ι :=
  { s with sessions := Function.update s.sessions i session }

/-- Ends the transaction of `i`, keeping nothing of it. -/
def release (s : Store ι) (i : ι) : Store ι := s.setSession i {}

/-- Ends the transaction of `i`, keeping the rows it flushed. -/
def apply (s : Store ι) (i : ι) : Store ι :=
  { s.release i with db := (s.sessions i).pending.elim s.db s.db.insert }

/-- A statement of a READ COMMITTED transaction. A locking read waits for the row's
lock, an insert waits for the end of any transaction that has flushed a clashing row,
and constraints are checked against the committed rows. -/
def answer [Fintype ι] (E : Environment ω) (ch : Choice ω) (i : ι) (r : Statement)
    (s : Store ι) : Option (Answer r × Store ι) :=
  match r with
  | .openSession | .rollback | .close => some (.ok (), s.release i)
  | .now => some (.ok (E.clock ch.world), s)
  | .evaluate student mentor request =>
    some (.ok (E.policyEngine ch.world student mentor request), s)
  | .getByIdempotencyKey key => match ch.failure with
    | some e => some (.error e, s)
    | none => some (.ok (s.db.getByIdempotencyKey key), s)
  | .getByStudentYear studentId yearCode => match ch.failure with
    | some e => some (.error e, s)
    | none => some (.ok (s.db.getByStudentYear studentId yearCode), s)
  | .getMentorForUpdate mentorId => match ch.failure with
    | some e => some (.error e, s)
    | none => match s.db.getMentor mentorId with
      | none => some (.ok none, s)
      | some mentor =>
        if ∃ j, j ≠ i ∧ (s.sessions j).mentorLock = some mentorId then none
        else some (.ok (some mentor),
          s.setSession i { s.sessions i with mentorLock := some mentorId })
  | .getStudentForUpdate studentId => match ch.failure with
    | some e => some (.error e, s)
    | none => match s.db.getStudent studentId with
      | none => some (.ok none, s)
      | some student =>
        if ∃ j, j ≠ i ∧ (s.sessions j).studentLock = some studentId then none
        else some (.ok (some student),
          s.setSession i { s.sessions i with studentLock := some studentId })
  | .nextIdentifiers student mentor => match ch.failure with
    | some e => some (.error e, s)
    | none => some (.ok (E.sequenceProvider ch.world s.db.allocations student mentor), s)
  | .flush row => match ch.failure with
    | some e => some (.error e, s)
    | none =>
      if s.db.violates row then some (.error .integrity, s)
      else if ∃ j, j ≠ i ∧ (s.sessions j).pending.any (rowsClash row) = true then none
      else some (.ok (), s.setSession i { s.sessions i with pending := some row })
  | .commit => match ch.fault with
    | .operational => some (.error .operational, s.release i)
    | .other => some (.error .other, s.release i)
    | .lostCommit => some (.error .operational, s.apply i)
    | .none => some (.ok (), s.apply i)

end Store

/-- Any number of calls of `allocate` on one database, each in its own transactions. -/
abbrev System (ι : Type) : Type :=
  Config ι (Store ι) Statement Answer (Except AllocateError AllocationResult)

def System.start (P : Platform) (maxRetries : Nat) (calls : ι → AllocationRequest × Bool)
    (db : Database) : System ι where
  store := { db, sessions := fun _ => {} }
  threads := fun i => allocate P maxRetries (calls i).1 (calls i).2

/-- `f"{now_year % 100:02d}"`. -/
def yearCodeOf (now : DateTime) : String := Text.zeroPad 2 (now.year % 100 : Nat)

/-- `select(func.max(AllocationRecord.allocation_id))`, or 0 without rows. -/
def maxId (allocations : List AllocationRecord) : Int :=
  (allocations.map AllocationRecord.allocationId).max?.getD 0

/-- `SimpleAllocationSequenceProvider.next`, on the clock's reading and the rows it sees. -/
def simpleNext (legacyWidth : Nat) (now : DateTime) (allocations : List AllocationRecord) :
    AllocationIdentifiers :=
  let nextId := maxId allocations + 1
  { allocationId := nextId
    yearCode := yearCodeOf now
    allocationCode := yearCodeOf now ++ Text.zeroPad legacyWidth nextId }

end Allocation
