import MentorAllocation.Counter.Validation

namespace Counter
open Text

/-- A row of the students table, by its key and its counter. -/
structure StudentModel where
  nationalId : String
  counter : Option String
  deriving DecidableEq, Repr

structure CounterSequenceModel where
  yearCode : String
  genderCode : String
  lastSeq : Int
  deriving DecidableEq, Repr

structure CounterStore where
  students : List StudentModel
  sequences : List CounterSequenceModel
  deriving DecidableEq, Repr

inductive ReserveError where
  | service (error : CounterServiceError)
  /-- `IntegrityError`, by the driver's message. -/
  | integrity (message : String)
  | keyError
  deriving DecidableEq, Repr

inductive AssignError where
  | service (error : CounterServiceError)
  | keyError
  deriving DecidableEq, Repr

/-- `ck_counter_pattern`: nine characters, the first of them in `[0-9]`, with one of
the prefixes in third place. -/
def ckCounterPattern (counter : String) : Bool :=
  match counter.toList with
  | [y₁, _, p₁, p₂, p₃, _, _, _, _] =>
    '0' ≤ y₁ && y₁ ≤ '9' &&
      (String.ofList [p₁, p₂, p₃] == "357" || String.ofList [p₁, p₂, p₃] == "373")
  | _ => false

namespace CounterStore

def lockStudent (s : CounterStore) (nationalId : String) : Option StudentModel :=
  s.students.find? (fun student => student.nationalId == nationalId)

def selectSequenceRow (s : CounterStore) (yearCode genderCode : String) :
    Option CounterSequenceModel :=
  s.sequences.find? (fun row => row.yearCode == yearCode && row.genderCode == genderCode)

def addSequenceRow (s : CounterStore) (yearCode genderCode : String) : CounterStore :=
  { s with sequences := s.sequences ++ [⟨yearCode, genderCode, 0⟩] }

def setLastSeq (s : CounterStore) (yearCode genderCode : String) (value : Int) : CounterStore :=
  { s with sequences := s.sequences.map fun row =>
      if row.yearCode == yearCode && row.genderCode == genderCode then { row with lastSeq := value }
      else row }

def setCounter (s : CounterStore) (nationalId counter : String) : CounterStore :=
  { s with students := s.students.map fun student =>
      if student.nationalId == nationalId then { student with counter := some counter }
      else student }

/-- `flush` of a student's new counter against the table's constraints. -/
def flushCounter (s : CounterStore) (nationalId counter : String) :
    Except ReserveError CounterStore :=
  if !ckCounterPattern counter then
    .error (.integrity "CHECK constraint failed: ck_counter_pattern")
  else if s.students.any (fun student =>
      student.nationalId != nationalId && student.counter == some counter) then
    .error (.integrity "UNIQUE constraint failed: دانش_آموزان.شمارنده")
  else .ok (s.setCounter nationalId counter)

end CounterStore

def truthy : Option String → Option String
  | some "" => none
  | value => value

def classifyConflict (message : String) : String :=
  if contains message "کد_ملی" || contains message "national_id" then "national_id"
  else if contains message "شمارنده" || contains message "counter" then "counter"
  else if contains message "sequence_race" then "sequence"
  else "unknown"

/-- How the engine treats the savepoints of a session in which no `BEGIN` came before. -/
inductive Engine where
  /-- `sqlite+pysqlite`, the default: to release the outermost savepoint is to commit. -/
  | pysqlite
  /-- Nothing is committed before `COMMIT`. -/
  | transactional
  deriving DecidableEq, Repr

/-- The tables after `rollback`, by those at the start of the session and those that its last
released savepoint left. -/
def Engine.rollback : Engine → CounterStore → CounterStore → CounterStore
  | .pysqlite, _, released => released
  | .transactional, begun, _ => begun

structure SqlAlchemyCounterRepository where
  maxRetries : Nat := 3
  engine : Engine := .pysqlite

namespace SqlAlchemyCounterRepository
variable (R : SqlAlchemyCounterRepository) (nfkc : String → String)

def fetchStudentCounter (s : CounterStore) (nationalId : String) :
    Except CounterServiceError (Option String) :=
  match truthy ((s.lockStudent nationalId).bind StudentModel.counter) with
  | none => .ok none
  | some counter => (ensureCounterFormat nfkc counter).map some

/-- `_next_sequence` with so many turns of its loop left, and the tables that its savepoints
left when they were released. -/
def nextSequence (s : CounterStore) (yearCode genderCode : String) :
    Nat → Except ReserveError Int × CounterStore
  | 0 => (.error (.service (dbConflict "Could not fetch sequence row after retries")), s)
  | turns + 1 =>
    let s := match s.selectSequenceRow yearCode genderCode with
      | none => s.addSequenceRow yearCode genderCode
      | some _ => s
    match s.selectSequenceRow yearCode genderCode with
    | none => nextSequence s yearCode genderCode turns
    | some row => match ensureSequenceBounds (row.lastSeq + 1) with
      | .error error => (.error (.service error), s)
      | .ok nextValue => (.ok nextValue, s.setLastSeq yearCode genderCode nextValue)

/-- `_reserve_once` in one session: the counter and the tables that the session would commit, or
the exception and the tables that its last released savepoint left. The new counter is flushed
before the last savepoint begins. -/
def reserveOnce (s : CounterStore) (nationalId : String) (gender : Int) (yearCode : String) :
    Except ReserveError String × CounterStore :=
  match s.lockStudent nationalId with
  | none => (.error (.service (invalidNationalId "دانش‌آموز وجود ندارد.")), s)
  | some student => match truthy student.counter with
    | some existing => match ensureCounterFormat nfkc existing with
      | .error error => (.error (.service error), s)
      | .ok counter => (.ok counter, s)
    | none => match genderPrefix gender with
      | none => (.error .keyError, s)
      | some genderCode => match nextSequence s yearCode genderCode R.maxRetries with
        | (.error error, s) => (.error error, s)
        | (.ok seq, s) => match ensureSequenceBounds seq with
          | .error error => (.error (.service error), s)
          | .ok seq =>
            match ensureCounterFormat nfkc (yearCode ++ genderCode ++ zeroPad 4 seq) with
            | .error error => (.error (.service error), s)
            | .ok counter => match s.flushCounter nationalId counter with
              | .error error => (.error error, s)
              | .ok s => (.ok counter, s)

/-- One turn of `reserve_and_bind`; an `IntegrityError` is told with the tables after it. -/
def attempt (s : CounterStore) (nationalId : String) (gender : Int) (yearCode : String)
    (onIntegrityError : String → CounterStore → Except AssignError String × CounterStore) :
    Except AssignError String × CounterStore :=
  match R.reserveOnce nfkc s nationalId gender yearCode with
  | (.ok counter, committed) => (.ok counter, committed)
  | (.error (.service error), released) => (.error (.service error), R.engine.rollback s released)
  | (.error .keyError, released) => (.error .keyError, R.engine.rollback s released)
  | (.error (.integrity message), released) =>
    onIntegrityError message (R.engine.rollback s released)

/-- `reserve_and_bind` with so many attempts left after the next one. -/
def reserveAndBind (s : CounterStore) (nationalId : String) (gender : Int) (yearCode : String) :
    Nat → Except AssignError String × CounterStore
  | 0 => R.attempt nfkc s nationalId gender yearCode fun message s =>
    (.error (.service (dbConflict ("conflict_type=" ++ classifyConflict message))), s)
  | further + 1 => R.attempt nfkc s nationalId gender yearCode fun _ s =>
    match fetchStudentCounter nfkc s nationalId with
    | .error error => (.error (.service error), s)
    | .ok (some existing) => (.ok existing, s)
    | .ok none => reserveAndBind s nationalId gender yearCode further

end SqlAlchemyCounterRepository

/-- `CounterAssignmentService.assign_counter`: its outcome and the committed tables. -/
def assignCounter (R : SqlAlchemyCounterRepository) (nfkc : String → String) (s : CounterStore)
    (nationalId : String) (gender : Int) (yearCode : String) :
    Except AssignError String × CounterStore :=
  match ensureValidInputs nfkc nationalId gender yearCode with
  | .error error => (.error (.service error), s)
  | .ok (normalizedNid, normalizedYear) =>
    match SqlAlchemyCounterRepository.fetchStudentCounter nfkc s normalizedNid with
    | .error error => (.error (.service error), s)
    | .ok (some existing) => (.ok existing, s)
    | .ok none =>
      R.reserveAndBind nfkc s normalizedNid gender normalizedYear (R.maxRetries - 1)

end Counter
