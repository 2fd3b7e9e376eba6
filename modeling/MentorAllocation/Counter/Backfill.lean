import MentorAllocation.Counter.Repository
import MentorAllocation.Data.Dict
import MentorAllocation.Data.Except

namespace Counter
open Text Data

/-- A line of the CSV; a column that it lacks is `none`. -/
structure RawRow where
  nationalId : Option String
  gender : Option String
  yearCode : Option String

structure BackfillRow where
  nationalId : String
  gender : Int
  yearCode : String
  deriving DecidableEq, Repr

structure BackfillStats where
  totalRows : Nat
  applied : Nat
  reused : Nat
  skipped : Nat
  dryRun : Bool
  prefixMismatches : Nat
  deriving DecidableEq, Repr

inductive BackfillError where
  | service (error : CounterServiceError)
  | keyError
  | valueError
  deriving DecidableEq, Repr

def BackfillError.ofAssign : AssignError → BackfillError
  | .service error => .service error
  | .keyError => .keyError

def parseRow (nfkc : String → String) (lineNo : Nat) (raw : RawRow) :
    Except CounterServiceError BackfillRow :=
  match parseInt (normalize nfkc (raw.gender.getD "")) with
  | none => .error (invalidGender ("مقدار جنسیت نامعتبر در خط " ++ toString lineNo ++ "."))
  | some gender =>
    (ensureValidInputs nfkc (raw.nationalId.getD "") gender (raw.yearCode.getD "")).map
      fun (nationalId, yearCode) => ⟨nationalId, gender, yearCode⟩

/-- `_parse_rows`; what follows an exception is not asked for. -/
def parseRows (nfkc : String → String) (raws : List RawRow) :
    List (Except CounterServiceError BackfillRow) :=
  (raws.zipIdx 2).map fun (raw, lineNo) => parseRow nfkc lineNo raw

/-- `_chunked` with the rows that the next chunk already has; an exception of the rows ends
the chunks. -/
def chunked {ε α : Type} (chunkSize : Int) :
    List α → List (Except ε α) → List (Except ε (List α))
  | [], [] => []
  | chunk, [] => [.ok chunk]
  | _, .error e :: _ => [.error e]
  | chunk, .ok row :: rows =>
    if chunkSize ≤ (chunk ++ [row]).length then .ok (chunk ++ [row]) :: chunked chunkSize [] rows
    else chunked chunkSize (chunk ++ [row]) rows

/-- `int(counter[-4:])` -/
def serial (counter : String) : Option Int :=
  parseInt (String.ofList (counter.toList.drop (counter.toList.length - 4)))

/-- `counter.startswith(expected)` -/
def hasPrefix (counter expected : String) : Bool := expected.toList.isPrefixOf counter.toList

namespace CounterStore

/-- The rows that `fetch_existing_counters` selects and keeps. -/
def counterRows (s : CounterStore) (nationalIds : List String) : List (String × String) :=
  (s.students.filter fun student => nationalIds.contains student.nationalId).filterMap
    fun student => (truthy student.counter).map fun counter => (student.nationalId, counter)

def fetchExistingCounters (nfkc : String → String) (s : CounterStore)
    (nationalIds : List String) : Except CounterServiceError (Dict String String) :=
  let formatted (row : String × String) : Except CounterServiceError (String × String) :=
    (ensureCounterFormat nfkc row.2).map fun value => (row.1, value)
  ((s.counterRows nationalIds).mapM formatted).map Dict.ofList

def snapshotSequences (s : CounterStore) : Dict (String × String) Int :=
  Dict.ofList (s.sequences.map fun row => ((row.yearCode, row.genderCode), row.lastSeq))

end CounterStore

/-- The numbers of a run so far and its picture of the sequences. -/
structure Progress where
  totalRows : Nat
  applied : Nat
  reused : Nat
  skipped : Nat
  prefixMismatches : Nat
  seqSnapshot : Dict (String × String) Int

def Progress.stats (p : Progress) (apply : Bool) : BackfillStats where
  totalRows := p.totalRows
  applied := p.applied
  reused := p.reused
  skipped := p.skipped
  dryRun := !apply
  prefixMismatches := p.prefixMismatches

section
variable (R : SqlAlchemyCounterRepository) (nfkc : String → String) (apply : Bool)

/-- A row whose student is not among the counters that were fetched for its chunk. -/
def processNew (row : BackfillRow) (seqKey : String × String) (p : Progress) (s : CounterStore) :
    Except BackfillError Progress × CounterStore :=
  let last := (p.seqSnapshot.get? seqKey).getD 0
  if !apply then
    match ensureSequenceBounds (last + 1) with
    | .error error => (.error (.service error), s)
    | .ok nextSeq =>
      (.ok { p with seqSnapshot := p.seqSnapshot.set seqKey nextSeq, skipped := p.skipped + 1 }, s)
  else
    let (assigned, s) := assignCounter R nfkc s row.nationalId row.gender row.yearCode
    andThen (assigned.mapError .ofAssign, s) fun counter s => match serial counter with
      | none => (.error .valueError, s)
      | some n => (.ok { p with
          seqSnapshot := p.seqSnapshot.set seqKey (max last n), applied := p.applied + 1 }, s)

def processKnown (row : BackfillRow) (genderCode counterValue : String) (p : Progress) :
    Except BackfillError Progress :=
  let seqKey := (row.yearCode, genderCode)
  if !hasPrefix counterValue (row.yearCode ++ genderCode) then
    .ok { p with prefixMismatches := p.prefixMismatches + 1, reused := p.reused + 1 }
  else match serial counterValue with
    | none => .error .valueError
    | some n => .ok { p with
        seqSnapshot := p.seqSnapshot.set seqKey (max ((p.seqSnapshot.get? seqKey).getD 0) n)
        reused := p.reused + 1 }

def processRow (existing : Dict String String) (row : BackfillRow) (p : Progress)
    (s : CounterStore) : Except BackfillError Progress × CounterStore :=
  match genderPrefix row.gender with
  | none => (.error .keyError, s)
  | some genderCode => match existing.get? row.nationalId with
    | some counterValue => (processKnown row genderCode counterValue p, s)
    | none => processNew R nfkc apply row (row.yearCode, genderCode) p s

def processChunk (existing : Dict String String) :
    List BackfillRow → Progress → CounterStore → Except BackfillError Progress × CounterStore
  | [], p, s => (.ok p, s)
  | row :: rows, p, s => andThen (processRow R nfkc apply existing row p s) fun p s =>
    processChunk existing rows p s

def processChunks : List (Except CounterServiceError (List BackfillRow)) → Progress →
    CounterStore → Except BackfillError Progress × CounterStore
  | [], p, s => (.ok p, s)
  | .error error :: _, _, s => (.error (.service error), s)
  | .ok chunk :: chunks, p, s =>
    match s.fetchExistingCounters nfkc (chunk.map BackfillRow.nationalId) with
    | .error error => (.error (.service error), s)
    | .ok existing =>
      andThen (processChunk R nfkc apply existing chunk
        { p with totalRows := p.totalRows + chunk.length } s) fun p s => processChunks chunks p s

def runBackfill (chunkSize : Int) (raws : List RawRow) (s : CounterStore) :
    Except BackfillError BackfillStats × CounterStore :=
  andThen (processChunks R nfkc apply (chunked chunkSize [] (parseRows nfkc raws))
    ⟨0, 0, 0, 0, 0, s.snapshotSequences⟩ s) fun p s => (.ok (p.stats apply), s)

end

end Counter
