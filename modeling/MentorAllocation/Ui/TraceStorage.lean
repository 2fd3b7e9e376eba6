import MentorAllocation.Data.Except
import MentorAllocation.Data.Lru
import MentorAllocation.Text.Bytes
import MentorAllocation.Text.JsonLines

namespace Ui.Storage
open Data Text

def cacheLimit : Nat := 400

/-- A row with all its fields. A float is its `repr`, and so it is in the ranking key. -/
structure TraceViewerRow where
  studentIndex : Int
  mentorId : String
  mentorType : String
  passed : Bool
  occupancyRatio : Option String
  currentLoad : Option Int
  trace : List (Dict String Json) := []
  rankingKey : Option (List Json) := none
  studentGroup : String := ""
  studentCenter : String := ""
  isSelected : Bool := false

/-- `value if value is not None else None`, written out as JSON. -/
def orNull {α : Type} (write : α → Json) : Option α → Json
  | none => .null
  | some a => write a

namespace TraceViewerRow

/-- `list(self.ranking_key) if self.ranking_key else None` -/
def rankingJson (row : TraceViewerRow) : Json :=
  match row.rankingKey with
  | none | some [] => .null
  | some key => .arr key

def members (row : TraceViewerRow) : List (String × Json) := [
  ("student_index", .int row.studentIndex),
  ("mentor_id", .str row.mentorId),
  ("mentor_type", .str row.mentorType),
  ("passed", .bool row.passed),
  ("occupancy_ratio", orNull Json.float row.occupancyRatio),
  ("current_load", orNull Json.int row.currentLoad),
  ("trace", .arr (row.trace.map fun item => .obj item.entries)),
  ("ranking_key", row.rankingJson),
  ("student_group", .str row.studentGroup),
  ("student_center", .str row.studentCenter),
  ("is_selected", .bool row.isSelected)]

def toSerialisable (row : TraceViewerRow) : Json := .obj row.members

end TraceViewerRow

/-- `int`, `str` and `float` of a value read from JSON: each leaves alone what is of its type,
and `none` is a `TypeError` or a `ValueError`. -/
structure Builtins where
  int : Json → Option Int
  str : Json → String
  float : Json → Option String
  int_int : ∀ n, int (.int n) = some n
  str_str : ∀ s, str (.str s) = s
  float_float : ∀ repr, float (.float repr) = some repr

/-- `bool` of a value read from JSON. -/
def truth : Json → Bool
  | .null => false
  | .bool b => b
  | .int n => n != 0
  | .float repr => repr != "0.0" && repr != "-0.0"
  | .str s => !s.isEmpty
  | .arr items => !items.isEmpty
  | .obj members => !members.isEmpty

/-- `dict(item)` -/
def dictOf : Json → Option (Dict String Json)
  | .obj members => some (Dict.ofList members)
  | _ => none

/-- What `convert` makes of a value that is neither missing nor `None`. -/
def unlessNone {α : Type} (convert : Json → Option α) : Option Json → Option (Option α)
  | none | some .null => some none
  | some value => (convert value).map some

/-- `ranking_tuple`, or `None` where it is empty. -/
def rankingOf : Option Json → Option (List Json)
  | some (.arr (item :: items)) => some (item :: items)
  | _ => none

section
variable (builtins : Builtins) (floatRepr : String → String)

/-- `from_serialisable`; `none` is an exception that one of the conversions raises. -/
def fromSerialisable (payload : List (String × Json)) : Option TraceViewerRow := do
  let get (key : String) (default : Json) : Json := (payload.lookup key).getD default
  let studentIndex ← builtins.int (get "student_index" (.int 0))
  let occupancyRatio ← unlessNone builtins.float (payload.lookup "occupancy_ratio")
  let currentLoad ← unlessNone builtins.int (payload.lookup "current_load")
  let trace ← match get "trace" (.arr []) with
    | .arr items => items.mapM dictOf
    | _ => none
  return {
    studentIndex, occupancyRatio, currentLoad, trace
    mentorId := builtins.str (get "mentor_id" (.str ""))
    mentorType := builtins.str (get "mentor_type" (.str ""))
    passed := truth (get "passed" (.bool false))
    rankingKey := rankingOf (payload.lookup "ranking_key")
    studentGroup := builtins.str (get "student_group" (.str ""))
    studentCenter := builtins.str (get "student_center" (.str ""))
    isSelected := truth (get "is_selected" (.bool false)) }

def rowOfLine (line : List Char) : Option TraceViewerRow :=
  match Json.loads floatRepr (String.ofList line) with
  | some (.obj members) => fromSerialisable builtins members
  | _ => none

structure TraceViewerStorageWriter where
  file : List UInt8 := []
  offsets : List Nat := []

namespace TraceViewerStorageWriter

def appendRow (writer : TraceViewerStorageWriter) (row : TraceViewerRow) :
    TraceViewerStorageWriter where
  file := writer.file ++ encode (Json.dumps {} row.toSerialisable) ++ encode "\n"
  offsets := writer.offsets ++ [writer.file.length]

def appendRows (writer : TraceViewerStorageWriter) (rows : List TraceViewerRow) :
    TraceViewerStorageWriter :=
  rows.foldl appendRow writer

end TraceViewerStorageWriter

/-- A file storage and the row objects made from its file so far; an object is told by its place
among them. -/
structure TraceViewerStorage where
  file : List UInt8
  offsets : List Nat
  cache : Dict Nat Nat := Dict.empty
  objects : List TraceViewerRow := []

def TraceViewerStorageWriter.finalize (writer : TraceViewerStorageWriter) : TraceViewerStorage where
  file := writer.file
  offsets := writer.offsets

/-- A row that is asked for beyond its storage, or whose line cannot be read. -/
inductive RowError where
  | indexError (message : String)
  | unreadable
  deriving DecidableEq, Repr

namespace TraceViewerStorage

/-- The line at an offset of the file, and the row on it. -/
def rowAt (storage : TraceViewerStorage) (offset : Nat) : Option TraceViewerRow :=
  (decode (storage.file.drop offset)).bind fun text =>
    match (splitLines text.toList).head? with
    | none => fromSerialisable builtins []
    | some line => rowOfLine builtins floatRepr line

def getRow (index : Int) (storage : TraceViewerStorage) :
    Except RowError Nat × TraceViewerStorage :=
  if index < 0 ∨ storage.offsets.length ≤ index then
    (.error (.indexError "شناسه ردیف خارج از محدوده است."), storage)
  else match storage.cache.get? index.toNat with
    | some cached =>
      (.ok cached, { storage with cache := storage.cache.moveToEnd index.toNat })
    | none => match (storage.offsets[index.toNat]?).bind (storage.rowAt builtins floatRepr) with
      | none => (.error .unreadable, storage)
      | some row =>
        (.ok storage.objects.length, { storage with
          objects := storage.objects ++ [row]
          cache := storage.cache.store cacheLimit index.toNat storage.objects.length })

/-- `[self.get_row(index) for index in ...]` -/
def getRows : List Nat → TraceViewerStorage → Except RowError (List Nat) × TraceViewerStorage
  | [], storage => (.ok [], storage)
  | index :: indices, storage =>
    andThen (storage.getRow builtins floatRepr index) fun row storage =>
      andThen (getRows indices storage) fun rows storage => (.ok (row :: rows), storage)

/-- `range(start, end)` of `page`, whose negative indices `get_row` rejects. -/
def page (start size : Int) (storage : TraceViewerStorage) :
    Except RowError (List Nat) × TraceViewerStorage :=
  let stop := min (start + size) storage.offsets.length
  if start < 0 ∧ start < stop then
    (.error (.indexError "شناسه ردیف خارج از محدوده است."), storage)
  else storage.getRows builtins floatRepr (List.range' start.toNat (stop - start).toNat)

def iterRows (storage : TraceViewerStorage) : Option (List TraceViewerRow) :=
  (decode storage.file).bind fun text =>
    ((splitLines text.toList).filter fun line => !(strip (String.ofList line)).isEmpty).mapM
      (rowOfLine builtins floatRepr)

/-- All that `iter_selected` yields: new objects, which the cache does not know. -/
def iterSelected (storage : TraceViewerStorage) :
    Except RowError (List Nat) × TraceViewerStorage :=
  match storage.iterRows builtins floatRepr with
  | none => (.error .unreadable, storage)
  | some rows =>
    let selected := rows.filter (·.isSelected)
    (.ok (List.range' storage.objects.length selected.length),
      { storage with objects := storage.objects ++ selected })

end TraceViewerStorage

end

def TraceViewerRow.select (row : TraceViewerRow) (isSelected : Bool) : TraceViewerRow :=
  { row with isSelected }

/-- The rows of `_InMemoryStorage`, no two of them one object: an object is told by its index. -/
structure InMemoryStorage where
  rows : List TraceViewerRow

namespace InMemoryStorage

/-- `self._rows[index]`, which counts a negative index from the end. -/
def getRow (index : Int) (storage : InMemoryStorage) : Except RowError Nat × InMemoryStorage :=
  let n := storage.rows.length
  if 0 ≤ index ∧ index < n then (.ok index.toNat, storage)
  else if index < 0 ∧ 0 ≤ n + index then (.ok (n + index).toNat, storage)
  else (.error (.indexError "list index out of range"), storage)

def sliceBound (n : Nat) (bound : Int) : Nat :=
  if bound < 0 then (n + bound).toNat else min bound.toNat n

/-- `self._rows[start : start + size]` -/
def page (start size : Int) (storage : InMemoryStorage) :
    Except RowError (List Nat) × InMemoryStorage :=
  let n := storage.rows.length
  (.ok (List.range' (sliceBound n start) (sliceBound n (start + size) - sliceBound n start)),
    storage)

def iterSelected (storage : InMemoryStorage) : Except RowError (List Nat) × InMemoryStorage :=
  (.ok ((List.range storage.rows.length).filter fun i =>
    (storage.rows[i]?.map (·.isSelected)).getD false), storage)

end InMemoryStorage

inductive Request where
  | getRow (index : Int)
  | page (start size : Int)
  | iterSelected
  deriving DecidableEq, Repr

/-- What a viewer uses of a storage: requests, which are answered by row objects, and the objects
themselves. -/
structure RowStorage (σ : Type) where
  ask : Request → σ → Except RowError (List Nat) × σ
  objects : σ → List TraceViewerRow
  setObjects : σ → List TraceViewerRow → σ

def fileBacked (builtins : Builtins) (floatRepr : String → String) :
    RowStorage TraceViewerStorage where
  ask
    | .getRow index, storage =>
      andThen (storage.getRow builtins floatRepr index) fun row storage => (.ok [row], storage)
    | .page start size, storage => storage.page builtins floatRepr start size
    | .iterSelected, storage => storage.iterSelected builtins floatRepr
  objects storage := storage.objects
  setObjects storage objects := { storage with objects }

def inMemory : RowStorage InMemoryStorage where
  ask
    | .getRow index, storage =>
      andThen (storage.getRow index) fun row storage => (.ok [row], storage)
    | .page start size, storage => storage.page start size
    | .iterSelected, storage => storage.iterSelected
  objects storage := storage.rows
  setObjects _ rows := ⟨rows⟩

/-- A storage and the rows it returned, oldest first. -/
structure Session (σ : Type) where
  storage : σ
  returned : List Nat := []

/-- A turn of a viewer: a request, or the selection set of a row that it has got. -/
inductive Step where
  | ask (request : Request)
  | select (row : Nat) (isSelected : Bool)
  deriving DecidableEq, Repr

/-- What a request shows: the rows that it returns, as they then are. -/
abbrev Answer := Except RowError (List (Option TraceViewerRow))

namespace Session
variable {σ : Type} (interface : RowStorage σ) (s : Session σ)

def ask (request : Request) : Answer × Session σ :=
  match interface.ask request s.storage with
  | (.error e, storage) => (.error e, { s with storage })
  | (.ok rows, storage) =>
    (.ok (rows.map fun row => (interface.objects storage)[row]?),
      ⟨storage, s.returned ++ rows⟩)

def select (row : Nat) (isSelected : Bool) : Session σ :=
  match s.returned[row]? with
  | none => s
  | some object =>
    ⟨interface.setObjects s.storage
      ((interface.objects s.storage).modify object (·.select isSelected)), s.returned⟩

def answers (s : Session σ) : List Step → List Answer
  | [] => []
  | .ask request :: steps =>
    (s.ask interface request).1 :: (s.ask interface request).2.answers steps
  | .select row isSelected :: steps => (s.select interface row isSelected).answers steps

end Session

def requestsOf (steps : List Step) : List Request :=
  steps.filterMap fun
    | .ask request => some request
    | .select _ _ => none

def written (rows : List TraceViewerRow) : Session TraceViewerStorage :=
  ⟨(TraceViewerStorageWriter.appendRows {} rows).finalize, []⟩

def held (rows : List TraceViewerRow) : Session InMemoryStorage := ⟨⟨rows⟩, []⟩

end Ui.Storage
