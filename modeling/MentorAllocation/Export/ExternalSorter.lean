import Mathlib
import MentorAllocation.Export.Normalization
import MentorAllocation.Sorting.Merge
import MentorAllocation.Text.Json

namespace Export
open Text Sorting

inductive Cell where
  | none
  | str (s : String)
  /-- Anything else, by its `str`. -/
  | other (text : String)
  deriving DecidableEq, Repr

/-- A `dict` with its members in order of insertion. -/
abbrev Row := List (String × String)

abbrev SortKey := List String

structure ExportValidationError where
  message : String
  deriving DecidableEq, Repr

def invalidSortKeyMessage : String := "کلید مرتب‌سازی نامعتبر است."

/-- What `__init__` keeps of its arguments once it has checked them. -/
structure ExternalSorter where
  sortKeys : List String
  bufferRows : Nat
  sortKeys_ne : sortKeys ≠ []
  bufferRows_pos : 0 < bufferRows

/-- `ExternalSorter.__init__`; the text of its `ValueError`. -/
def ExternalSorter.create (sortKeys : List String) (bufferRows : Int) :
    Except String ExternalSorter :=
  if hb : bufferRows ≤ 0 then .error "buffer_rows must be positive"
  else if hk : sortKeys = [] then .error "sort_keys must not be empty"
  else .ok ⟨sortKeys, bufferRows.toNat, hk, by omega⟩

/-- A spilled chunk, by the key and row of each of its JSON lines. -/
abbrev Chunk := List (SortKey × Row)

structure SortPlan where
  chunks : List Chunk
  inMemory : List (SortKey × Row)
  totalRows : Nat
  chunkCount : Nat
  spillBytes : Nat

/-- What iterating over a generator gives, and the value it returns at its end, which
a `for` loop and `list` drop. -/
structure Generator (α ρ : Type) where
  yields : List α
  returns : ρ

structure Preparation where
  chunks : List Chunk := []
  buffer : List (SortKey × Row) := []
  totalRows : Nat := 0
  spillBytes : Nat := 0

namespace ExternalSorter

def normalizeRow (nfkc : String → String) (row : List (String × Cell)) : Row :=
  row.map fun
    | (key, .none) => (key, "")
    | (key, .str s) => (key, normalizeText nfkc s)
    | (key, .other text) => (key, normalizeText nfkc text)

def toInt (value : Option String) (default : Int) : Except ExportValidationError Int :=
  match value with
  | none => .ok default
  | some "" => .ok default
  | some text => match parseInt text with
    | some n => .ok n
    | none => .error ⟨invalidSortKeyMessage⟩

/-- `row[name]`, its `KeyError` already turned into the validation error. -/
def member (row : Row) (name : String) : Except ExportValidationError String :=
  match row.lookup name with
  | some text => .ok text
  | none => .error ⟨invalidSortKeyMessage⟩

def keyComponent (row : Row) (name : String) : Except ExportValidationError String :=
  if name == "year_code" then member row name
  else if name == "reg_center" then (zeroPad 3 ·) <$> toInt (row.lookup name) 0
  else if name == "group_code" then (zeroPad 6 ·) <$> toInt (row.lookup name) 0
  else if name == "school_code" then (zeroPad 6 ·) <$> toInt (row.lookup name) 999999
  else member row name

variable (S : ExternalSorter) (nfkc : String → String)

def buildKey (row : Row) : Except ExportValidationError SortKey :=
  S.sortKeys.mapM (keyComponent row)

/-- The length in UTF-8 of one line of a chunk file. -/
def lineBytes (entry : SortKey × Row) : Nat :=
  (Json.dumps Json.Style.compact (.obj
    [("key", .arr (entry.1.map .str)),
     ("row", .obj (entry.2.map fun kv => (kv.1, .str kv.2)))])).utf8ByteSize + 1

def spillChunk (buffer : List (SortKey × Row)) : Chunk × Nat :=
  let sorted := stableSort buffer
  (sorted, (sorted.map lineBytes).sum)

def keyed (row : List (String × Cell)) : Except ExportValidationError (SortKey × Row) := do
  let normalized := normalizeRow nfkc row
  let key ← S.buildKey normalized
  return (key, normalized)

def prepareRow (state : Preparation) (entry : SortKey × Row) : Preparation :=
  let buffer := state.buffer ++ [entry]
  let totalRows := state.totalRows + 1
  if S.bufferRows ≤ buffer.length then
    let (chunk, written) := spillChunk buffer
    { chunks := state.chunks ++ [chunk], buffer := [], totalRows,
      spillBytes := state.spillBytes + written }
  else { state with buffer, totalRows }

def prepareRows (state : Preparation) :
    List (List (String × Cell)) → Except ExportValidationError Preparation
  | [] => .ok state
  | row :: rows => do
    let entry ← S.keyed nfkc row
    prepareRows (S.prepareRow state entry) rows

def prepare (rows : List (List (String × Cell))) : Except ExportValidationError SortPlan := do
  let state ← S.prepareRows nfkc {} rows
  return { chunks := state.chunks, inMemory := stableSort state.buffer,
           totalRows := state.totalRows, chunkCount := state.chunks.length,
           spillBytes := state.spillBytes }

/-- Reading a chunk back; every text of a row is sanitised once more. -/
def chunkIterator (chunk : Chunk) : List (SortKey × Row) :=
  chunk.map (Prod.map id (List.map (Prod.map id (normalizeText nfkc))))

/-- The rows the inner generator would give if something iterated over it. -/
def generator (plan : SortPlan) : List Row :=
  let iterators := plan.chunks.map (chunkIterator nfkc)
  let iterators := if plan.inMemory.isEmpty then iterators else iterators ++ [plan.inMemory]
  (merge iterators).map Prod.snd

/-- `iter_sorted`. The `yield` of its first branch makes the whole of it a generator, so
the inner generator that its second branch returns is the value it ends with. -/
def iterSorted (plan : SortPlan) : Generator Row (Option (List Row)) :=
  if plan.chunkCount == 0 then ⟨plan.inMemory.map Prod.snd, none⟩
  else ⟨[], some (generator nfkc plan)⟩

end ExternalSorter

end Export
