import MentorAllocation.Concurrency.Run
import MentorAllocation.Ui.TraceIndex

namespace Ui
open Data Text Concurrency TraceFilterIndex

section
variable {V : Type} (normalizeCell : V → String) (storage : List (TraceViewerRow V))

def cellAt (cell : TraceViewerRow V → V) (i : Nat) : Option String :=
  storage[i]?.map fun row => prepareKey normalizeCell (cell row)

/-- Where a prepared cell is found in the first so many rows. -/
def positions (cell : TraceViewerRow V → V) (upto : Nat) (key : String) : List Nat :=
  (List.range upto).filter fun i => cellAt normalizeCell storage cell i == some key

def TraceFilterIndex.selectedAt (x : TraceFilterIndex) (i : Nat) : Bool :=
  (x.selectionState.get? i).getD false

/-- The row passes the filters, by its cells and by what the index knows of its selection. -/
def TraceFilterIndex.matchAt (x : TraceFilterIndex) (key : FiltersKey) (i : Nat) : Bool :=
  (key.1 == "" || cellAt normalizeCell storage TraceViewerRow.studentGroup i == some key.1) &&
  (key.2.1 == "" || cellAt normalizeCell storage TraceViewerRow.studentCenter i == some key.2.1) &&
  (!key.2.2 || x.selectedAt i)

/-- What has been read of the rows so far; `stale` rows may have changed since. -/
structure Scanned (x : TraceFilterIndex) (stale : Nat → Prop) : Prop where
  upto : x.indexedUpto ≤ storage.length
  groups : ∀ key, (x.groupIndex.get? key).getD [] =
    positions normalizeCell storage TraceViewerRow.studentGroup x.indexedUpto key
  centers : ∀ key, (x.centerIndex.get? key).getD [] =
    positions normalizeCell storage TraceViewerRow.studentCenter x.indexedUpto key
  selected : x.selectedIndices = (List.range x.indexedUpto).filter x.selectedAt
  unread : ∀ i, x.indexedUpto ≤ i → x.selectionState.get? i = none
  fresh : ∀ i row, i < x.indexedUpto → storage[i]? = some row → ¬ stale i →
    x.selectedAt i = row.isSelected

/-- The cached windows of the keys in `valid` are right, if they are of this generation. -/
def Cached (x : TraceFilterIndex) (valid : FiltersKey → Prop) : Prop :=
  ∀ key entry, x.windowCache.get? key = some entry → entry.generation ≤ x.cacheGeneration ∧
    (entry.generation = x.cacheGeneration → valid key → x.indexedUpto = storage.length ∧
      entry.windows = toWindows ((List.range storage.length).filter
        (x.matchAt normalizeCell storage key)))

end

section
variable {V : Type} {normalizeCell : V → String} {storage : List (TraceViewerRow V)}
  {x y : TraceFilterIndex} {stale : Nat → Prop} {valid : FiltersKey → Prop}
  {row : TraceViewerRow V} {cell : TraceViewerRow V → V}

theorem filter_range_succ (p : Nat → Bool) (n : Nat) :
    (List.range (n + 1)).filter p = (List.range n).filter p ++ if p n then [n] else [] := by
  rw [List.range_succ, List.filter_append, List.filter_singleton, Bool.cond_eq_ite]

theorem positions_succ (upto : Nat) (hrow : storage[upto]? = some row) (key : String) :
    positions normalizeCell storage cell (upto + 1) key =
      positions normalizeCell storage cell upto key ++
        if key = prepareKey normalizeCell (cell row) then [upto] else [] := by
  have hcell : (cellAt normalizeCell storage cell upto == some key) =
      decide (key = prepareKey normalizeCell (cell row)) := by
    rw [cellAt, hrow, Option.map_some, Bool.eq_iff_iff, beq_iff_eq, decide_eq_true_iff,
      Option.some.injEq, eq_comm]
  rw [positions, filter_range_succ, hcell, ← positions]
  simp only [decide_eq_true_eq]

theorem get?_appendTo (index : Dict String (List Nat)) (key : String) (i : Nat) (q : String) :
    ((appendTo index key i).get? q).getD [] =
      (index.get? q).getD [] ++ if q = key then [i] else [] := by
  rw [appendTo, Dict.get?_set]
  split
  · next he => rw [he, Option.getD_some]
  · rw [List.append_nil]

theorem selectedAt_set {i : Nat} {b : Bool} (h : y.selectionState = x.selectionState.set i b)
    (j : Nat) : y.selectedAt j = if j = i then b else x.selectedAt j := by
  simp only [TraceFilterIndex.selectedAt, h, Dict.get?_set]
  split <;> rfl

theorem Scanned.indexRow (h : Scanned normalizeCell storage x stale)
    (hrow : storage[x.indexedUpto]? = some row) :
    Scanned normalizeCell storage (x.indexRow normalizeCell row) stale where
  upto := (List.getElem?_eq_some_iff.mp hrow).1
  groups key := by
    rw [TraceFilterIndex.indexRow, get?_appendTo, h.groups, positions_succ _ hrow]
  centers key := by
    rw [TraceFilterIndex.indexRow, get?_appendTo, h.centers, positions_succ _ hrow]
  selected := by
    have hstate : ∀ j, (x.indexRow normalizeCell row).selectedAt j =
        if j = x.indexedUpto then row.isSelected else x.selectedAt j := selectedAt_set rfl
    have hbefore : (List.range x.indexedUpto).filter (x.indexRow normalizeCell row).selectedAt =
        x.selectedIndices := by
      rw [h.selected]
      refine List.filter_congr fun i hi => ?_
      rw [hstate, if_neg (List.mem_range.mp hi).ne]
    have hnext : (x.indexRow normalizeCell row).indexedUpto = x.indexedUpto + 1 := rfl
    rw [hnext, filter_range_succ, hbefore, hstate, if_pos rfl, TraceFilterIndex.indexRow]
    cases row.isSelected with
    | true => rfl
    | false => exact (List.append_nil _).symm
  unread i hi := by
    have hne : i ≠ x.indexedUpto := by
      rintro rfl
      exact absurd hi (by simp [TraceFilterIndex.indexRow])
    simp only [TraceFilterIndex.indexRow] at hi
    rw [TraceFilterIndex.indexRow, Dict.get?_set, if_neg hne]
    exact h.unread i (by omega)
  fresh i row' hi hrow' hstale := by
    have hstate : (x.indexRow normalizeCell row).selectedAt i =
        if i = x.indexedUpto then row.isSelected else x.selectedAt i := selectedAt_set rfl i
    rw [hstate]
    split
    · next he =>
      subst he
      rw [Option.some.inj (hrow.symm.trans hrow')]
    · next hne =>
      simp only [TraceFilterIndex.indexRow] at hi
      exact h.fresh i row' (by omega) hrow' hstale

/-- What a loop over rows still to be read leaves as it was. -/
structure Kept (x y : TraceFilterIndex) : Prop where
  cache : y.windowCache = x.windowCache
  pending : y.pendingSelectionUpdates = x.pendingSelectionUpdates

theorem indexRows_scanned (h : Scanned normalizeCell storage x stale) (n : Nat)
    (hn : x.indexedUpto + n ≤ storage.length) :
    ∃ y, indexRows normalizeCell storage n x = (.ok (), y) ∧
      Scanned normalizeCell storage y stale ∧ y.indexedUpto = x.indexedUpto + n ∧
      y.cacheGeneration = x.cacheGeneration ∧ Kept x y := by
  induction n generalizing x with
  | zero => exact ⟨x, rfl, h, rfl, rfl, rfl, rfl⟩
  | succ n ih =>
    obtain ⟨row, hrow⟩ : ∃ row, storage[x.indexedUpto]? = some row :=
      ⟨_, List.getElem?_eq_getElem (by omega)⟩
    have hnext : (x.indexRow normalizeCell row).indexedUpto = x.indexedUpto + 1 := rfl
    obtain ⟨y, hy, hscanned, hupto, hgeneration, hkept⟩ := ih (h.indexRow hrow) (by omega)
    refine ⟨y, ?_, hscanned, by omega, hgeneration, hkept.cache, hkept.pending⟩
    rw [indexRows, hrow]
    exact hy

/-- Rows read meanwhile put every cached entry out of date. -/
theorem ensureIndexed_scanned (h : Scanned normalizeCell storage x stale)
    (hcached : Cached normalizeCell storage x valid) {targetSize : Nat}
    (htarget : targetSize ≤ storage.length) :
    ∃ y, x.ensureIndexed normalizeCell storage targetSize = (.ok (), y) ∧
      Scanned normalizeCell storage y stale ∧ Cached normalizeCell storage y valid ∧
      y.indexedUpto = max x.indexedUpto targetSize ∧ Kept x y := by
  by_cases hlt : x.indexedUpto < targetSize
  · obtain ⟨y, hy, hscanned, hupto, hgeneration, hkept⟩ :=
      indexRows_scanned h (targetSize - x.indexedUpto) (by omega)
    refine ⟨{ y with cacheGeneration := y.cacheGeneration + 1 }, ?_, ?_, ?_, ?_, hkept.cache,
      hkept.pending⟩
    · simp only [TraceFilterIndex.ensureIndexed, hy, andThen_ok, if_pos hlt]
    · exact ⟨hscanned.upto, hscanned.groups, hscanned.centers, hscanned.selected, hscanned.unread,
        hscanned.fresh⟩
    · intro key entry hentry
      have hold := (hcached key entry (hkept.cache ▸ hentry)).1
      rw [← hgeneration] at hold
      exact ⟨Nat.le_succ_of_le hold, fun he => absurd he (Nat.lt_succ_of_le hold).ne⟩
    · dsimp only
      omega
  · refine ⟨x, ?_, h, hcached, by omega, rfl, rfl⟩
    have hzero : targetSize - x.indexedUpto = 0 := by omega
    simp only [TraceFilterIndex.ensureIndexed, hzero, indexRows, andThen_ok, if_neg hlt]

theorem toWindows_range (n : Nat) : toWindows (List.range n) = if n = 0 then [] else [(0, n)] := by
  have hfrom : ∀ m prev, windowsFrom 0 prev (List.range' (prev + 1) m) = [(0, prev + 1 + m)] := by
    intro m
    induction m with
    | zero => exact fun prev => rfl
    | succ m ih =>
      intro prev
      rw [List.range'_succ, windowsFrom, if_pos rfl, ih, Nat.add_assoc (prev + 1), Nat.add_comm 1]
  cases n with
  | zero => rfl
  | succ n =>
    rw [List.range_eq_range', List.range'_succ, toWindows, hfrom, if_neg (by omega), Nat.zero_add,
      Nat.add_comm]

/-- Narrowing the rows that pass one test by the rows that pass others. -/
theorem narrow_filter (n : Nat) (p : Nat → Bool) (tests : List (Nat → Bool)) :
    narrow ((List.range n).filter p) (tests.map fun q => (List.range n).filter q) =
      (List.range n).filter fun i => p i && tests.all fun q => q i := by
  induction tests generalizing p with
  | nil => simp [narrow]
  | cons q tests ih =>
    have hstep : intersectIncreasing ((List.range n).filter p) ((List.range n).filter q) =
        (List.range n).filter fun i => p i && q i := by
      rw [intersectIncreasing_eq (increasing_filter_range n p) (increasing_filter_range n q),
        List.filter_filter]
      refine List.filter_congr fun i hi => ?_
      simp [List.mem_range.mp hi, Bool.and_comm]
    rw [List.map_cons, narrow, hstep]
    split
    · next hempty =>
      rw [List.isEmpty_iff] at hempty
      rw [hempty, eq_comm, List.filter_eq_nil_iff]
      intro i hi
      have hnot := List.filter_eq_nil_iff.mp hempty i hi
      rw [List.all_cons, ← Bool.and_assoc, Bool.and_eq_true]
      exact fun h => hnot h.1
    · rw [ih]
      refine List.filter_congr fun i _ => ?_
      rw [List.all_cons, Bool.and_assoc]

def TraceFilterIndex.tests (normalizeCell : V → String) (storage : List (TraceViewerRow V))
    (x : TraceFilterIndex) (key : FiltersKey) : List (Nat → Bool) :=
  (if key.1 ≠ "" then
    [fun i => cellAt normalizeCell storage TraceViewerRow.studentGroup i == some key.1] else []) ++
  (if key.2.1 ≠ "" then
    [fun i => cellAt normalizeCell storage TraceViewerRow.studentCenter i == some key.2.1]
      else []) ++
  (if key.2.2 then [x.selectedAt] else [])

theorem matchAt_eq_tests (key : FiltersKey) (i : Nat) :
    x.matchAt normalizeCell storage key i =
      (x.tests normalizeCell storage key).all fun test => test i := by
  obtain ⟨group, center, selectedOnly⟩ := key
  simp only [TraceFilterIndex.matchAt, TraceFilterIndex.tests, List.all_append]
  congr 1
  · congr 1
    · by_cases hgroup : group = "" <;> simp [hgroup]
    · by_cases hcenter : center = "" <;> simp [hcenter]
  · cases selectedOnly <;> simp

theorem map_ite_singleton {α β : Type} (c : Prop) [Decidable c] (f : α → β) (a : α) :
    (if c then [a] else []).map f = if c then [f a] else [] := by
  split <;> rfl

/-- Once all rows are read, the computed windows are those of the rows that match. -/
theorem windowsOf_eq (h : Scanned normalizeCell storage x stale)
    (hall : x.indexedUpto = storage.length) (filters : Filters V) :
    x.windowsOf normalizeCell storage filters = toWindows ((List.range storage.length).filter
      (x.matchAt normalizeCell storage (filtersKey normalizeCell filters))) := by
  have hgroups := h.groups (prepareKey normalizeCell filters.groupCode)
  have hcenters := h.centers (prepareKey normalizeCell filters.regCenter)
  have hselected := h.selected
  rw [hall, positions] at hgroups hcenters
  rw [hall] at hselected
  have hcandidates : x.candidates normalizeCell filters =
      (x.tests normalizeCell storage (filtersKey normalizeCell filters)).map fun test =>
        (List.range storage.length).filter test := by
    rw [TraceFilterIndex.candidates, TraceFilterIndex.tests, List.map_append, List.map_append,
      map_ite_singleton, map_ite_singleton, map_ite_singleton, hgroups, hcenters, hselected]
    rfl
  rw [List.filter_congr fun i _ => matchAt_eq_tests _ i, TraceFilterIndex.windowsOf, hcandidates]
  cases x.tests normalizeCell storage (filtersKey normalizeCell filters) with
  | nil => simp [toWindows_range, buildFullWindow]
  | cons test tests =>
    simp only [List.map_cons, narrow_filter, List.all_cons]

theorem Scanned.weaken (stale' : Nat → Prop) (h : Scanned normalizeCell storage x stale)
    (himp : ∀ i, stale i → stale' i) : Scanned normalizeCell storage x stale' :=
  ⟨h.upto, h.groups, h.centers, h.selected, h.unread, fun i row hi hrow hstale =>
    h.fresh i row hi hrow fun hold => hstale (himp i hold)⟩

/-- A row read again is no longer stale. -/
theorem Scanned.refresh {index : Nat} (h : Scanned normalizeCell storage x stale)
    (hrow : storage[index]? = some row) (hread : index < x.indexedUpto) :
    Scanned normalizeCell storage (x.refreshSelection index row.isSelected).2
      fun i => stale i ∧ i ≠ index := by
  simp only [TraceFilterIndex.refreshSelection]
  split
  · next hsame =>
    refine ⟨h.upto, h.groups, h.centers, h.selected, h.unread, fun i row' hi hrow' hstale => ?_⟩
    by_cases he : i = index
    · subst he
      rw [Option.some.inj (hrow'.symm.trans hrow)]
      exact hsame.symm
    · exact h.fresh i row' hi hrow' fun hold => hstale ⟨hold, he⟩
  · next hchanged =>
    refine ⟨h.upto, h.groups, h.centers, ?_, fun i hi => ?_, fun i row' hi hrow' hstale => ?_⟩
    · have hincreasing : Increasing x.selectedIndices := by
        rw [h.selected]
        exact increasing_filter_range _ _
      have hmem : ∀ i, i ∈ x.selectedIndices ↔ i < x.indexedUpto ∧ x.selectedAt i = true := by
        intro i
        rw [h.selected, List.mem_filter, List.mem_range]
      refine Increasing.ext ?_ (increasing_filter_range _ _) fun i => ?_
      · dsimp only
        split
        · exact hincreasing.insert index
        · exact hincreasing.erase index
      · dsimp only
        rw [List.mem_filter, List.mem_range, selectedAt_set rfl i]
        cases row.isSelected with
        | true =>
          rw [if_pos rfl, mem_insertIncreasing, hmem]
          by_cases he : i = index
          · simp [he, hread]
          · simp [he]
        | false =>
          rw [if_neg Bool.false_ne_true, mem_eraseIncreasing hincreasing, hmem]
          by_cases he : i = index
          · simp [he]
          · simp [he]
    · have hne : i ≠ index := by
        rintro rfl
        exact absurd hread hi.not_gt
      rw [Dict.get?_set, if_neg hne]
      exact h.unread i hi
    · dsimp only
      rw [selectedAt_set rfl i]
      split
      · next he =>
        subst he
        rw [Option.some.inj (hrow'.symm.trans hrow)]
      · next hne => exact h.fresh i row' hi hrow' fun hold => hstale ⟨hold, hne⟩

/-- The selection does not matter to filters that do not ask for it. -/
theorem matchAt_unselective {key : FiltersKey} (hkey : key.2.2 = false) :
    x.matchAt normalizeCell storage key = y.matchAt normalizeCell storage key := by
  funext i
  simp only [TraceFilterIndex.matchAt, hkey, Bool.not_false, Bool.true_or]

/-- Only windows of filters on the selection go wrong with it. -/
theorem Cached.refresh {updated : Bool} {index : Nat} {newState : Bool}
    (h : Cached normalizeCell storage x fun key => updated = true → key.2.2 = false) :
    Cached normalizeCell storage (x.refreshSelection index newState).2 fun key =>
      (updated || (x.refreshSelection index newState).1) = true → key.2.2 = false := by
  simp only [TraceFilterIndex.refreshSelection]
  split
  · simp only [Bool.or_false]
    exact h
  · intro key entry hentry
    obtain ⟨hold, hwindows⟩ := h key entry hentry
    refine ⟨hold, fun hgeneration hvalid => ?_⟩
    have hkey : key.2.2 = false := hvalid (Bool.or_true _)
    obtain ⟨hall, heq⟩ := hwindows hgeneration fun _ => hkey
    exact ⟨hall, heq.trans (by rw [matchAt_unselective hkey])⟩

theorem refreshRows_scanned (rest : List Nat) (updated : Bool)
    (h : Scanned normalizeCell storage x (· ∈ rest))
    (hcached : Cached normalizeCell storage x fun key => updated = true → key.2.2 = false)
    (hrest : ∀ i ∈ rest, i < storage.length) :
    ∃ result y, refreshRows normalizeCell storage updated rest x = (.ok result, y) ∧
      Scanned normalizeCell storage y (fun _ => False) ∧
      Cached normalizeCell storage y fun key => result = true → key.2.2 = false := by
  induction rest generalizing x updated with
  | nil => exact ⟨updated, x, rfl, h.weaken _ fun _ => List.not_mem_nil, hcached⟩
  | cons index rest ih =>
    have hindex := hrest index List.mem_cons_self
    obtain ⟨row, hrow⟩ : ∃ row, storage[index]? = some row :=
      ⟨_, List.getElem?_eq_getElem hindex⟩
    obtain ⟨y, hy, hscanned, hcached', hupto, hkept⟩ := ensureIndexed_scanned h hcached hindex
    have hrefreshed := (hscanned.refresh hrow (by omega)).weaken (· ∈ rest)
      fun i hi => (List.mem_cons.mp hi.1).resolve_left hi.2
    obtain ⟨result, z, hz, hresult⟩ :=
      ih _ hrefreshed hcached'.refresh fun i hi => hrest i (List.mem_cons_of_mem _ hi)
    refine ⟨result, z, ?_, hresult⟩
    rw [refreshRows, hy, andThen_ok, hrow]
    exact hz

structure Indexed (normalizeCell : V → String) (storage : List (TraceViewerRow V))
    (x : TraceFilterIndex) : Prop where
  scanned : Scanned normalizeCell storage x (· ∈ x.pendingSelectionUpdates)
  cached : Cached normalizeCell storage x fun _ => True
  pending : ∀ i ∈ x.pendingSelectionUpdates, i < storage.length

theorem Indexed.lastCount (h : Indexed normalizeCell storage x) (count : Nat) :
    Indexed normalizeCell storage { x with lastCount := count } where
  scanned := ⟨h.scanned.upto, h.scanned.groups, h.scanned.centers, h.scanned.selected,
    h.scanned.unread, h.scanned.fresh⟩
  cached := h.cached
  pending := h.pending

/-- The cache entry of filters, found or computed, holds the windows of the rows that match. -/
theorem getCacheEntry_ok (h : Indexed normalizeCell storage x) (filters : Filters V) :
    ∃ entry y, x.getCacheEntry normalizeCell storage filters = (.ok entry, y) ∧
      Indexed normalizeCell storage y ∧ y.indexedUpto = storage.length ∧
      y.pendingSelectionUpdates = x.pendingSelectionUpdates ∧
      entry.windows = toWindows ((List.range storage.length).filter
        (y.matchAt normalizeCell storage (filtersKey normalizeCell filters))) := by
  rw [TraceFilterIndex.getCacheEntry]
  cases hfound : (x.windowCache.get? (filtersKey normalizeCell filters)).filter fun entry =>
      entry.generation == x.cacheGeneration with
  | some entry =>
    obtain ⟨hentry, hgeneration⟩ := Option.filter_eq_some_iff.mp hfound
    obtain ⟨hall, hwindows⟩ :=
      (h.cached _ entry hentry).2 (beq_iff_eq.mp hgeneration) trivial
    exact ⟨entry, _, rfl, h.lastCount _, hall, rfl, hwindows⟩
  | none =>
    obtain ⟨y, hy, hscanned, hcached, hupto, hkept⟩ :=
      ensureIndexed_scanned h.scanned h.cached (le_refl storage.length)
    have hall : y.indexedUpto = storage.length := by
      have := h.scanned.upto
      omega
    have hwindows := windowsOf_eq hscanned hall filters
    simp only [TraceFilterIndex.computeWindows, hy, andThen_ok, TraceFilterIndex.storeEntry]
    generalize y.windowsOf normalizeCell storage filters = windows at hwindows ⊢
    generalize (windows.map fun w => w.2 - w.1).sum = count
    refine ⟨⟨y.cacheGeneration, windows, count⟩, _, rfl, ⟨?_, ?_, ?_⟩, hall, hkept.pending,
      hwindows⟩
    · rw [← hkept.pending] at hscanned
      exact ⟨hscanned.upto, hscanned.groups, hscanned.centers, hscanned.selected, hscanned.unread,
        hscanned.fresh⟩
    · intro key entry hentry
      rw [Dict.get?_set] at hentry
      split at hentry
      · next he =>
        subst he
        obtain rfl := Option.some.inj hentry
        exact ⟨le_refl _, fun _ _ => ⟨hall, hwindows⟩⟩
      · exact hcached key entry hentry
    · intro i hi
      exact h.pending i (hkept.pending ▸ hi)

theorem markSelectionDirty_ok (h : Indexed normalizeCell storage x) :
    ∃ y, x.markSelectionDirty normalizeCell storage = (.ok (), y) ∧
      Indexed normalizeCell storage y ∧ y.pendingSelectionUpdates = [] := by
  rw [TraceFilterIndex.markSelectionDirty]
  split
  · next hempty => exact ⟨x, rfl, h, List.isEmpty_iff.mp hempty⟩
  · have hmem : ∀ i, i ∈ x.pendingSelectionUpdates.insertionSort (· ≤ ·) ↔
        i ∈ x.pendingSelectionUpdates := fun i => (List.perm_insertionSort _ _).mem_iff
    obtain ⟨updated, y, hy, hscanned, hcached⟩ :=
      refreshRows_scanned (x.pendingSelectionUpdates.insertionSort (· ≤ ·)) false
        (h.scanned.weaken _ fun i hi => (hmem i).mpr hi)
        (fun key entry hentry => ⟨(h.cached key entry hentry).1, fun hgeneration _ =>
          (h.cached key entry hentry).2 hgeneration trivial⟩)
        fun i hi => h.pending i ((hmem i).mp hi)
    rw [hy, andThen_ok]
    have hread : Scanned normalizeCell storage y (· ∈ ([] : List Nat)) :=
      hscanned.weaken _ fun i hi => hi.elim
    cases updated with
    | false =>
      refine ⟨_, rfl, ⟨⟨hread.upto, hread.groups, hread.centers, hread.selected, hread.unread,
        hread.fresh⟩, fun key entry hentry => ?_, fun i hi => absurd hi List.not_mem_nil⟩, rfl⟩
      obtain ⟨hold, hwindows⟩ := hcached key entry hentry
      exact ⟨hold, fun hgeneration _ => hwindows hgeneration fun hfalse => nomatch hfalse⟩
    | true =>
      refine ⟨_, rfl, ⟨⟨hread.upto, hread.groups, hread.centers, hread.selected, hread.unread,
        hread.fresh⟩, fun key entry hentry => ?_, fun i hi => absurd hi List.not_mem_nil⟩, rfl⟩
      rw [Dict.get?_filterKeys] at hentry
      split at hentry
      · next hkey =>
        obtain ⟨hold, hwindows⟩ := hcached key entry hentry
        exact ⟨hold, fun hgeneration _ => hwindows hgeneration fun _ => by simpa using hkey⟩
      · cases hentry

theorem applyFilters_ok (h : Indexed normalizeCell storage x) (filters : Filters V) :
    ∃ windows y, x.applyFilters normalizeCell storage filters = (.ok windows, y) ∧
      Indexed normalizeCell storage y ∧ y.indexedUpto = storage.length ∧
      y.pendingSelectionUpdates = x.pendingSelectionUpdates ∧
      windows = toWindows ((List.range storage.length).filter
        (y.matchAt normalizeCell storage (filtersKey normalizeCell filters))) := by
  obtain ⟨entry, y, hy, hindexed, hall, hpending, hwindows⟩ := getCacheEntry_ok h filters
  refine ⟨entry.windows, y, ?_, hindexed, hall, hpending, hwindows⟩
  rw [TraceFilterIndex.applyFilters, hy, andThen_ok]

/-- Whatever is made of a cache entry, the index is left as looking it up left it. -/
theorem Indexed.getCacheEntry {β : Type} (h : Indexed normalizeCell storage x)
    (filters : Filters V)
    {next : CacheEntry → TraceFilterIndex → Except TraceError β × TraceFilterIndex}
    (hnext : ∀ entry y, (next entry y).2 = y) :
    Indexed normalizeCell storage
      (andThen (x.getCacheEntry normalizeCell storage filters) next).2 := by
  obtain ⟨entry, y, hy, hindexed, -⟩ := getCacheEntry_ok h filters
  rw [hy, andThen_ok, hnext]
  exact hindexed

theorem Indexed.validatePage (h : Indexed normalizeCell storage x) (filters : Filters V)
    (pageSize : Int) :
    Indexed normalizeCell storage (x.validatePage normalizeCell storage filters pageSize).2 := by
  rw [TraceFilterIndex.validatePage]
  split
  · exact h
  · exact h.getCacheEntry filters fun _ _ => rfl

theorem Indexed.seekPage (h : Indexed normalizeCell storage x) (filters : Filters V)
    (page pageSize : Int) :
    Indexed normalizeCell storage (x.seekPage normalizeCell storage filters page pageSize).2 := by
  rw [TraceFilterIndex.seekPage]
  split
  · exact h
  · split
    · exact h
    · refine h.getCacheEntry filters fun entry y => ?_
      dsimp only
      split
      · split <;> rfl
      · split <;> rfl

theorem cellAt_modify (normalizeCell : V → String) (storage : List (TraceViewerRow V))
    (cell : TraceViewerRow V → V) (hcell : ∀ (row : TraceViewerRow V) isSelected,
      cell { row with isSelected } = cell row) (index : Nat) (isSelected : Bool) :
    cellAt normalizeCell (storage.modify index fun row => { row with isSelected }) cell =
      cellAt normalizeCell storage cell := by
  funext i
  rw [cellAt, cellAt, List.getElem?_modify]
  cases storage[i]? with
  | none => rfl
  | some row =>
    split
    · simp only [Option.map_eq_map, Option.map_some, hcell]
    · rfl

/-- Selecting a row changes no other row and no cell, and the row is queued. -/
theorem Indexed.select (h : Indexed normalizeCell storage x) {index : Nat} (isSelected : Bool)
    (hindex : index < storage.length) :
    Indexed normalizeCell (storage.modify index fun row => { row with isSelected })
      (x.queueSelectionUpdate index) := by
  have hqueue : x.queueSelectionUpdate index =
      { x with pendingSelectionUpdates := x.pendingSelectionUpdates.insert index } := by
    rw [TraceFilterIndex.queueSelectionUpdate, if_neg (by omega), Int.toNat_natCast]
  have hgroup := cellAt_modify normalizeCell storage TraceViewerRow.studentGroup (fun _ _ => rfl)
    index isSelected
  have hcenter := cellAt_modify normalizeCell storage TraceViewerRow.studentCenter (fun _ _ => rfl)
    index isSelected
  rw [hqueue]
  refine ⟨⟨?_, ?_, ?_, h.scanned.selected, h.scanned.unread, ?_⟩, ?_, ?_⟩
  · rw [List.length_modify]
    exact h.scanned.upto
  · intro key
    rw [positions, hgroup]
    exact h.scanned.groups key
  · intro key
    rw [positions, hcenter]
    exact h.scanned.centers key
  · intro i row hi hrow hstale
    rw [List.mem_insert_iff, not_or] at hstale
    rw [List.getElem?_modify_ne _ _ (Ne.symm hstale.1)] at hrow
    exact h.scanned.fresh i row hi hrow hstale.2
  · intro key entry hentry
    obtain ⟨hold, hwindows⟩ := h.cached key entry hentry
    refine ⟨hold, fun hgeneration hvalid => ?_⟩
    obtain ⟨hall, heq⟩ := hwindows hgeneration hvalid
    rw [List.length_modify]
    refine ⟨hall, heq.trans ?_⟩
    congr 2
    funext i
    simp only [TraceFilterIndex.matchAt, hgroup, hcenter]
    rfl
  · intro i hi
    rw [List.length_modify]
    rcases List.mem_insert_iff.mp hi with rfl | hi
    · exact hindex
    · exact h.pending i hi

theorem indexed_empty : Indexed normalizeCell storage {} where
  scanned := ⟨Nat.zero_le _, fun _ => rfl, fun _ => rfl, rfl, fun _ _ => rfl,
    fun _ _ hi => absurd hi (Nat.not_lt_zero _)⟩
  cached _ _ hentry := nomatch hentry
  pending _ hi := absurd hi List.not_mem_nil

theorem Indexed.next {s t : TraceSession V} {op : Operation V}
    (h : Indexed normalizeCell s.storage s.index) (hstep : s.next normalizeCell op = some t) :
    Indexed normalizeCell t.storage t.index := by
  cases op with
  | applyFilters filters =>
    obtain rfl := Option.some.inj hstep
    exact h.getCacheEntry filters fun _ _ => rfl
  | validatePage filters pageSize =>
    obtain rfl := Option.some.inj hstep
    exact h.validatePage filters pageSize
  | seekPage filters page pageSize =>
    obtain rfl := Option.some.inj hstep
    exact h.seekPage filters page pageSize
  | select index isSelected =>
    rw [TraceSession.next] at hstep
    split at hstep
    · next hindex =>
      obtain rfl := Option.some.inj hstep
      exact h.select isSelected hindex
    · cases hstep
  | markSelectionDirty =>
    obtain rfl := Option.some.inj hstep
    obtain ⟨y, hy, hindexed, -⟩ := markSelectionDirty_ok h
    dsimp only
    rw [hy]
    exact hindexed

/-- A row satisfies filters when its own cells and its own selection do. -/
def Filters.Holds (normalizeCell : V → String) (filters : Filters V) (row : TraceViewerRow V) :
    Prop :=
  (prepareKey normalizeCell filters.groupCode = "" ∨
    prepareKey normalizeCell row.studentGroup = prepareKey normalizeCell filters.groupCode) ∧
  (prepareKey normalizeCell filters.regCenter = "" ∨
    prepareKey normalizeCell row.studentCenter = prepareKey normalizeCell filters.regCenter) ∧
  (filters.selectedOnly = true → row.isSelected = true)

/-- With no update pending, what the index knows of a row is what the row says. -/
theorem matchAt_iff (h : Indexed normalizeCell storage x)
    (hall : x.indexedUpto = storage.length) (hpending : x.pendingSelectionUpdates = [])
    (filters : Filters V) (i : Nat) :
    i < storage.length ∧ x.matchAt normalizeCell storage (filtersKey normalizeCell filters) i =
        true ↔ ∃ row, storage[i]? = some row ∧ filters.Holds normalizeCell row := by
  have hmatch : ∀ row, storage[i]? = some row →
      (x.matchAt normalizeCell storage (filtersKey normalizeCell filters) i = true ↔
        filters.Holds normalizeCell row) := by
    intro row hrow
    have hread : x.selectedAt i = row.isSelected := by
      refine h.scanned.fresh i row ?_ hrow ?_
      · rw [hall]
        exact (List.getElem?_eq_some_iff.mp hrow).1
      · rw [hpending]
        exact List.not_mem_nil
    simp only [TraceFilterIndex.matchAt, filtersKey, cellAt, hrow, Option.map_some, hread,
      Filters.Holds, Bool.and_eq_true, Bool.or_eq_true, beq_iff_eq, Option.some.injEq,
      Bool.not_eq_true', and_assoc]
    cases filters.selectedOnly <;> simp
  constructor
  · rintro ⟨hi, hmatched⟩
    have hrow := List.getElem?_eq_getElem hi
    exact ⟨_, hrow, (hmatch _ hrow).mp hmatched⟩
  · rintro ⟨row, hrow, hholds⟩
    exact ⟨(List.getElem?_eq_some_iff.mp hrow).1, (hmatch row hrow).mpr hholds⟩

end

def sampleStorage : List (TraceViewerRow String) :=
  [⟨"10", "1", false⟩, ⟨"20", "1", false⟩, ⟨"10", "2", false⟩]

/-- Filtered while nothing is selected, then with the last row selected and made known. -/
def sampleOperations : List (Operation String) :=
  [.applyFilters ⟨"10", "", true⟩, .select 2 true, .markSelectionDirty]

end Ui
