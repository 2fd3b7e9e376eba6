import Mathlib
import MentorAllocation.Data.Dict
import MentorAllocation.Data.Except
import MentorAllocation.Data.Windows
import MentorAllocation.Text.Python

namespace Ui
open Data Text

/-- A row as the index reads it; cell values are of any type. -/
structure TraceViewerRow (V : Type) where
  studentGroup : V
  studentCenter : V
  isSelected : Bool

/-- The filters that are read; the value of an absent one is `None` among the cell values. -/
structure Filters (V : Type) where
  groupCode : V
  regCenter : V
  selectedOnly : Bool

inductive TraceError where
  | indexError
  | valueError (message : String)
  deriving DecidableEq, Repr

structure CacheEntry where
  generation : Nat
  windows : List (Nat × Nat)
  count : Nat

abbrev FiltersKey := String × String × Bool

structure TraceFilterIndex where
  groupIndex : Dict String (List Nat) := Dict.empty
  centerIndex : Dict String (List Nat) := Dict.empty
  selectedIndices : List Nat := []
  indexedUpto : Nat := 0
  lastCount : Nat := 0
  windowCache : Dict FiltersKey CacheEntry := Dict.empty
  selectionState : Dict Nat Bool := Dict.empty
  pendingSelectionUpdates : List Nat := []
  cacheGeneration : Nat := 0

namespace TraceFilterIndex
variable {V : Type} (normalizeCell : V → String) (storage : List (TraceViewerRow V))
  (x : TraceFilterIndex)

/-- `_prepare_key`; `normalizeCell` is `normalize_cell`. -/
def prepareKey (value : V) : String := strip (normalizeCell value)

/-- `index.setdefault(key, []).append(i)`. -/
def appendTo (index : Dict String (List Nat)) (key : String) (i : Nat) : Dict String (List Nat) :=
  index.set key ((index.get? key).getD [] ++ [i])

def indexRow (row : TraceViewerRow V) : TraceFilterIndex :=
  { x with
    groupIndex := appendTo x.groupIndex (prepareKey normalizeCell row.studentGroup) x.indexedUpto
    centerIndex := appendTo x.centerIndex (prepareKey normalizeCell row.studentCenter) x.indexedUpto
    selectedIndices :=
      if row.isSelected then x.selectedIndices ++ [x.indexedUpto] else x.selectedIndices
    selectionState := x.selectionState.set x.indexedUpto row.isSelected
    indexedUpto := x.indexedUpto + 1 }

def indexRows : Nat → TraceFilterIndex → Except TraceError Unit × TraceFilterIndex
  | 0, x => (.ok (), x)
  | n + 1, x => match storage[x.indexedUpto]? with
    | none => (.error .indexError, x)
    | some row => indexRows n (x.indexRow normalizeCell row)

def ensureIndexed (targetSize : Nat) : Except TraceError Unit × TraceFilterIndex :=
  andThen (indexRows normalizeCell storage (targetSize - x.indexedUpto) x) fun _ y =>
    (.ok (), if x.indexedUpto < targetSize then
      { y with cacheGeneration := y.cacheGeneration + 1 } else y)

def filtersKey (filters : Filters V) : FiltersKey :=
  (prepareKey normalizeCell filters.groupCode, prepareKey normalizeCell filters.regCenter,
    filters.selectedOnly)

def buildFullWindow : List (Nat × Nat) :=
  if storage.length = 0 then [] else [(0, storage.length)]

def candidates (filters : Filters V) : List (List Nat) :=
  let groupValue := prepareKey normalizeCell filters.groupCode
  let centerValue := prepareKey normalizeCell filters.regCenter
  (if groupValue ≠ "" then [(x.groupIndex.get? groupValue).getD []] else []) ++
  (if centerValue ≠ "" then [(x.centerIndex.get? centerValue).getD []] else []) ++
  (if filters.selectedOnly then [x.selectedIndices] else [])

/-- The loop over the other candidates, which stops once nothing is left. -/
def narrow (current : List Nat) : List (List Nat) → List Nat
  | [] => current
  | other :: others =>
    let current := intersectIncreasing current other
    if current.isEmpty then current else narrow current others

def windowsOf (filters : Filters V) : List (Nat × Nat) :=
  match x.candidates normalizeCell filters with
  | [] => buildFullWindow storage
  | first :: others => toWindows (narrow first others)

def computeWindows (filters : Filters V) :
    Except TraceError (List (Nat × Nat)) × TraceFilterIndex :=
  andThen (x.ensureIndexed normalizeCell storage storage.length) fun _ y =>
    (.ok (y.windowsOf normalizeCell storage filters), y)

def storeEntry (filters : Filters V) (windows : List (Nat × Nat)) :
    Except TraceError CacheEntry × TraceFilterIndex :=
  let count := (windows.map fun w => w.2 - w.1).sum
  let entry := ⟨x.cacheGeneration, windows, count⟩
  (.ok entry, { x with
    windowCache := x.windowCache.set (filtersKey normalizeCell filters) entry
    lastCount := count })

def getCacheEntry (filters : Filters V) : Except TraceError CacheEntry × TraceFilterIndex :=
  match (x.windowCache.get? (filtersKey normalizeCell filters)).filter fun entry =>
      entry.generation == x.cacheGeneration with
  | some entry => (.ok entry, { x with lastCount := entry.count })
  | none => andThen (x.computeWindows normalizeCell storage filters) fun windows y =>
      y.storeEntry normalizeCell filters windows

def applyFilters (filters : Filters V) : Except TraceError (List (Nat × Nat)) × TraceFilterIndex :=
  andThen (x.getCacheEntry normalizeCell storage filters) fun entry y => (.ok entry.windows, y)

def pageSizeError : TraceError := .valueError "اندازه صفحه باید بزرگ‌تر از صفر باشد."

def validatePage (filters : Filters V) (pageSize : Int) :
    Except TraceError (Nat × Int) × TraceFilterIndex :=
  if pageSize ≤ 0 then (.error pageSizeError, x)
  else andThen (x.getCacheEntry normalizeCell storage filters) fun entry y =>
    (.ok (entry.count,
      if entry.count = 0 then 0 else ((entry.count : Int) + pageSize - 1) / pageSize), y)

def pageIndices (skip remaining : Nat) : List (Nat × Nat) → List Nat
  | [] => []
  | (start, stop) :: windows =>
    if stop - start ≤ skip then pageIndices (skip - (stop - start)) remaining windows
    else
      let indices := (List.range' (start + skip) (stop - (start + skip))).take remaining
      if remaining ≤ indices.length then indices
      else indices ++ pageIndices 0 (remaining - indices.length) windows

def seekPage (filters : Filters V) (page pageSize : Int) :
    Except TraceError (List Nat) × TraceFilterIndex :=
  if pageSize ≤ 0 then (.error pageSizeError, x)
  else if page ≤ 0 then (.error (.valueError "شماره صفحه باید بزرگ‌تر از صفر باشد."), x)
  else andThen (x.getCacheEntry normalizeCell storage filters) fun entry y =>
    let outside := TraceError.valueError "صفحهٔ درخواستی خارج از محدوده است."
    if entry.count = 0 then
      if 1 < page then (.error outside, y) else (.ok [], y)
    else if ((entry.count : Int) + pageSize - 1) / pageSize < page then (.error outside, y)
    else (.ok (pageIndices ((page - 1) * pageSize).toNat pageSize.toNat entry.windows), y)

def queueSelectionUpdate (index : Int) : TraceFilterIndex :=
  if index < 0 then x
  else { x with pendingSelectionUpdates := x.pendingSelectionUpdates.insert index.toNat }

def refreshSelection (index : Nat) (newState : Bool) : Bool × TraceFilterIndex :=
  let oldState := (x.selectionState.get? index).getD false
  if newState = oldState then (false, x)
  else (true, { x with
    selectedIndices :=
      if newState then insertIncreasing x.selectedIndices index
      else eraseIncreasing x.selectedIndices index
    selectionState := x.selectionState.set index newState })

def refreshRows (updated : Bool) :
    List Nat → TraceFilterIndex → Except TraceError Bool × TraceFilterIndex
  | [], x => (.ok updated, x)
  | index :: rest, x => andThen (x.ensureIndexed normalizeCell storage (index + 1)) fun _ y =>
    match storage[index]? with
    | none => refreshRows updated rest y
    | some row =>
      let (changed, z) := y.refreshSelection index row.isSelected
      refreshRows (updated || changed) rest z

def markSelectionDirty : Except TraceError Unit × TraceFilterIndex :=
  if x.pendingSelectionUpdates.isEmpty then (.ok (), x)
  else andThen (refreshRows normalizeCell storage false
      (x.pendingSelectionUpdates.insertionSort (· ≤ ·)) x) fun updated y =>
    let y := { y with pendingSelectionUpdates := [] }
    if updated then (.ok (), { y with
      windowCache := y.windowCache.filterKeys fun key => !key.2.2
      lastCount := 0 })
    else (.ok (), y)

end TraceFilterIndex

/-- What is done with an index and its storage: the index's own methods, and rows selected or
unselected with their index queued. -/
inductive Operation (V : Type) where
  | applyFilters (filters : Filters V)
  | validatePage (filters : Filters V) (pageSize : Int)
  | seekPage (filters : Filters V) (page pageSize : Int)
  | select (index : Nat) (isSelected : Bool)
  | markSelectionDirty

structure TraceSession (V : Type) where
  storage : List (TraceViewerRow V)
  index : TraceFilterIndex

/-- The session after an operation; there is no row to select beyond the storage. -/
def TraceSession.next {V : Type} (normalizeCell : V → String) (s : TraceSession V) :
    Operation V → Option (TraceSession V)
  | .applyFilters filters =>
    some { s with index := (s.index.applyFilters normalizeCell s.storage filters).2 }
  | .validatePage filters pageSize =>
    some { s with index := (s.index.validatePage normalizeCell s.storage filters pageSize).2 }
  | .seekPage filters page pageSize =>
    some { s with index := (s.index.seekPage normalizeCell s.storage filters page pageSize).2 }
  | .select index isSelected =>
    if index < s.storage.length then
      some ⟨s.storage.modify index fun row => { row with isSelected },
        s.index.queueSelectionUpdate index⟩
    else none
  | .markSelectionDirty =>
    some { s with index := (s.index.markSelectionDirty normalizeCell s.storage).2 }

end Ui
