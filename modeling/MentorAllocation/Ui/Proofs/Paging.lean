import MentorAllocation.Data.Chunks
import MentorAllocation.Ui.Proofs.TraceFilters
import MentorAllocation.Ui.TraceViewer

namespace Ui
open Data Text Concurrency TraceFilterIndex

section
variable {windows : List (Nat × Nat)} {skip remaining : Nat}

/-- A stretch of a window and what follows it. -/
theorem drop_window {start stop : Nat} (h : skip < stop - start) (rest : List Nat) :
    (List.range' start (stop - start) ++ rest).drop skip =
      List.range' (start + skip) (stop - (start + skip)) ++ rest := by
  rw [List.drop_append_of_le_length (by rw [List.length_range']; omega), List.drop_range',
    Nat.mul_one, Nat.sub_sub]

theorem drop_past_window {start stop : Nat} (h : stop - start ≤ skip) (rest : List Nat) :
    (List.range' start (stop - start) ++ rest).drop skip = rest.drop (skip - (stop - start)) := by
  have hwindow : (List.range' start (stop - start)).length ≤ skip := by rwa [List.length_range']
  rw [List.drop_append, List.drop_of_length_le hwindow, List.length_range', List.nil_append]

theorem take_range' (start n k : Nat) :
    (List.range' start n).take k = List.range' start (min k n) := by
  refine List.ext_getElem (by simp) fun i hi hi' => ?_
  simp

theorem pageIndices_eq (hremaining : 0 < remaining) :
    pageIndices skip remaining windows = ((covered windows).drop skip).take remaining := by
  induction windows generalizing skip remaining with
  | nil => simp [pageIndices, covered]
  | cons w windows ih =>
    obtain ⟨start, stop⟩ := w
    rw [pageIndices, covered, List.flatMap_cons, ← covered]
    dsimp only
    split
    · next hskip =>
      rw [ih hremaining, drop_past_window hskip]
    · next hskip =>
      rw [drop_window (by omega), List.take_append, List.length_take, List.length_range']
      split
      · next hfull =>
        have hzero : remaining - (stop - (start + skip)) = 0 := by omega
        rw [hzero, List.take_zero, List.append_nil]
      · next hpart =>
        have hmin : min remaining (stop - (start + skip)) = stop - (start + skip) := by omega
        rw [ih (by omega), List.drop_zero, hmin]

/-- Both ways of walking the windows find the same rows. -/
theorem windowIndices_eq (hremaining : 0 < remaining) :
    windowIndices skip remaining windows = ((covered windows).drop skip).take remaining := by
  induction windows generalizing skip remaining with
  | nil => simp [windowIndices, covered]
  | cons w windows ih =>
    obtain ⟨start, stop⟩ := w
    rw [windowIndices, covered, List.flatMap_cons, ← covered]
    dsimp only
    split
    · next hskip =>
      rw [ih hremaining, drop_past_window hskip]
    · next hskip =>
      rw [drop_window (by omega), List.take_append, List.length_range', take_range']
      split
      · next hfull =>
        have hzero : remaining - (stop - (start + skip)) = 0 := by omega
        rw [hzero, List.take_zero, List.append_nil]
      · next hpart =>
        have hmin : min remaining (stop - (start + skip)) = stop - (start + skip) := by omega
        rw [ih (by omega), List.drop_zero, hmin]

end

section
variable {V : Type} {normalizeCell : V → String} {storage : List (TraceViewerRow V)}
  {x y : TraceFilterIndex}

/-- Every cached count is the number of rows in the cached windows. -/
def Counted (x : TraceFilterIndex) : Prop :=
  ∀ key entry, x.windowCache.get? key = some entry → entry.count = (covered entry.windows).length

theorem counted_empty : Counted {} := fun _ _ hentry => nomatch hentry

theorem Counted.of_cache (h : Counted x) (hcache : y.windowCache = x.windowCache) : Counted y :=
  fun key entry hentry => h key entry (hcache ▸ hentry)

theorem indexRows_cache (n : Nat) (x : TraceFilterIndex) :
    (indexRows normalizeCell storage n x).2.windowCache = x.windowCache := by
  induction n generalizing x with
  | zero => rfl
  | succ n ih =>
    rw [indexRows]
    split
    · rfl
    · rw [ih]
      rfl

theorem ensureIndexed_cache (targetSize : Nat) (x : TraceFilterIndex) :
    (x.ensureIndexed normalizeCell storage targetSize).2.windowCache = x.windowCache := by
  refine andThen_keeps (P := fun y : TraceFilterIndex => y.windowCache = x.windowCache)
    (indexRows_cache _ x) ?_
  intro _ y hy
  dsimp only
  split
  · exact hy
  · exact hy

theorem refreshRows_cache (updated : Bool) (rest : List Nat) (x : TraceFilterIndex) :
    (refreshRows normalizeCell storage updated rest x).2.windowCache = x.windowCache := by
  induction rest generalizing updated x with
  | nil => rfl
  | cons index rest ih =>
    refine andThen_keeps (P := fun y : TraceFilterIndex => y.windowCache = x.windowCache)
      (ensureIndexed_cache _ x) ?_
    intro _ y hy
    dsimp only
    split
    · rw [ih, hy]
    · rw [ih, TraceFilterIndex.refreshSelection]
      split
      · exact hy
      · exact hy

theorem length_covered (windows : List (Nat × Nat)) :
    (covered windows).length = (windows.map fun w => w.2 - w.1).sum := by
  rw [covered, List.length_flatMap]
  simp only [List.length_range']

/-- A cache entry that is found or computed has the right count. -/
theorem Counted.getCacheEntry (h : Counted x) (filters : Filters V) :
    Counted (x.getCacheEntry normalizeCell storage filters).2 ∧
      ∀ entry, (x.getCacheEntry normalizeCell storage filters).1 = .ok entry →
        entry.count = (covered entry.windows).length := by
  rw [TraceFilterIndex.getCacheEntry]
  split
  · next entry hfound =>
    refine ⟨h, fun entry' hentry => ?_⟩
    obtain rfl := Except.ok.inj hentry
    exact h _ entry (Option.filter_eq_some_iff.mp hfound).1
  · have hcounted : Counted (x.ensureIndexed normalizeCell storage storage.length).2 :=
      h.of_cache (ensureIndexed_cache _ x)
    rw [TraceFilterIndex.computeWindows]
    cases hrows : x.ensureIndexed normalizeCell storage storage.length with
    | mk result y =>
      rw [hrows] at hcounted
      cases result with
      | error e => exact ⟨hcounted, fun entry hentry => by cases hentry⟩
      | ok _ =>
        rw [andThen_ok, andThen_ok, TraceFilterIndex.storeEntry]
        refine ⟨fun key entry hentry => ?_, fun entry hentry => ?_⟩
        · rw [Dict.get?_set] at hentry
          split at hentry
          · rw [← Option.some.inj hentry, length_covered]
          · exact hcounted key entry hentry
        · rw [← Except.ok.inj hentry, length_covered]

theorem Counted.markSelectionDirty (h : Counted x) :
    Counted (x.markSelectionDirty normalizeCell storage).2 := by
  rw [TraceFilterIndex.markSelectionDirty]
  split
  · exact h
  · refine andThen_keeps (h.of_cache (refreshRows_cache _ _ x)) fun updated y hy => ?_
    cases updated with
    | false => exact hy
    | true =>
      intro key entry hentry
      dsimp only at hentry
      rw [if_pos rfl, Dict.get?_filterKeys] at hentry
      split at hentry
      · exact hy key entry hentry
      · cases hentry

theorem Counted.next {s t : TraceSession V} {op : Operation V} (h : Counted s.index)
    (hstep : s.next normalizeCell op = some t) : Counted t.index := by
  cases op with
  | applyFilters filters =>
    obtain rfl := Option.some.inj hstep
    exact andThen_keeps (h.getCacheEntry filters).1 fun _ _ hy => hy
  | validatePage filters pageSize =>
    obtain rfl := Option.some.inj hstep
    dsimp only
    rw [TraceFilterIndex.validatePage]
    split
    · exact h
    · exact andThen_keeps (h.getCacheEntry filters).1 fun _ _ hy => hy
  | seekPage filters page pageSize =>
    obtain rfl := Option.some.inj hstep
    dsimp only
    rw [TraceFilterIndex.seekPage]
    split
    · exact h
    · split
      · exact h
      · refine andThen_keeps (h.getCacheEntry filters).1 fun _ y hy => ?_
        dsimp only
        split
        · split
          · exact hy
          · exact hy
        · split
          · exact hy
          · exact hy
  | select index isSelected =>
    rw [TraceSession.next] at hstep
    split at hstep
    · obtain rfl := Option.some.inj hstep
      refine h.of_cache ?_
      rw [TraceFilterIndex.queueSelectionUpdate]
      split
      · rfl
      · rfl
    · cases hstep
  | markSelectionDirty =>
    obtain rfl := Option.some.inj hstep
    exact h.markSelectionDirty

instance (filters : Filters V) (row : TraceViewerRow V) :
    Decidable (filters.Holds normalizeCell row) :=
  inferInstanceAs (Decidable (_ ∧ _ ∧ _))

def matching (normalizeCell : V → String) (storage : List (TraceViewerRow V))
    (filters : Filters V) : List Nat :=
  (List.range storage.length).filter fun i =>
    storage[i]?.any fun row => decide (filters.Holds normalizeCell row)

theorem mem_matching {filters : Filters V} {i : Nat} :
    i ∈ matching normalizeCell storage filters ↔
      ∃ row, storage[i]? = some row ∧ filters.Holds normalizeCell row := by
  rw [matching, List.mem_filter, List.mem_range, Option.any_eq_true]
  constructor
  · rintro ⟨-, row, hrow, hholds⟩
    exact ⟨row, hrow, of_decide_eq_true hholds⟩
  · rintro ⟨row, hrow, hholds⟩
    exact ⟨(List.getElem?_eq_some_iff.mp hrow).1, row, hrow, decide_eq_true hholds⟩

/-- An index that has been told of every selection. -/
structure Settled (normalizeCell : V → String) (storage : List (TraceViewerRow V))
    (x : TraceFilterIndex) : Prop where
  indexed : Indexed normalizeCell storage x
  counted : Counted x
  pending : x.pendingSelectionUpdates = []

theorem Settled.getCacheEntry (h : Settled normalizeCell storage x) (filters : Filters V) :
    ∃ entry y, x.getCacheEntry normalizeCell storage filters = (.ok entry, y) ∧
      Settled normalizeCell storage y ∧
      entry.windows = toWindows (matching normalizeCell storage filters) ∧
      entry.count = (matching normalizeCell storage filters).length := by
  obtain ⟨entry, y, hy, hindexed, hall, hpending, hwindows⟩ := getCacheEntry_ok h.indexed filters
  have hentry : Counted (x.getCacheEntry normalizeCell storage filters).2 ∧ _ :=
    h.counted.getCacheEntry filters
  rw [hy] at hentry
  obtain ⟨hcounted, hcount⟩ := hentry
  have hmatching : (List.range storage.length).filter
      (y.matchAt normalizeCell storage (filtersKey normalizeCell filters)) =
        matching normalizeCell storage filters := by
    refine (increasing_filter_range _ _).ext (increasing_filter_range _ _) fun i => ?_
    rw [List.mem_filter, List.mem_range, mem_matching]
    exact matchAt_iff hindexed hall (hpending.trans h.pending) filters i
  rw [hmatching] at hwindows
  refine ⟨entry, y, hy, ⟨hindexed, hcounted, hpending.trans h.pending⟩, hwindows, ?_⟩
  rw [hcount entry rfl, hwindows, covered_toWindows]

/-- `(total + page_size - 1) // page_size` -/
theorem totalPages_eq {size : Nat} (hsize : 1 ≤ size) (rows : List Nat) :
    ((rows.length : Int) + size - 1) / size = ((chunks size rows).length : Int) := by
  have hcast : (rows.length : Int) + size - 1 = ((rows.length + size - 1 : Nat) : Int) := by omega
  rw [hcast, length_chunks, Int.natCast_ediv]

/-- What comes back for a page of `size` rows, whatever has been asked before. -/
theorem Settled.seekPage (h : Settled normalizeCell storage x) (filters : Filters V)
    {size : Nat} (hsize : 1 ≤ size) (k : Nat) :
    ∃ y, Settled normalizeCell storage y ∧
      x.seekPage normalizeCell storage filters (k + 1) size =
        ((chunks size (matching normalizeCell storage filters))[k]?.elim
          (if k = 0 then .ok [] else .error (.valueError "صفحهٔ درخواستی خارج از محدوده است."))
          .ok, y) := by
  obtain ⟨entry, y, hy, hsettled, hwindows, hcount⟩ := h.getCacheEntry filters
  refine ⟨y, hsettled, ?_⟩
  have hpositive : ¬ ((size : Int) ≤ 0) := by omega
  have hpage : ¬ ((k : Int) + 1 ≤ 0) := by omega
  rw [TraceFilterIndex.seekPage, if_neg hpositive, if_neg hpage, hy, andThen_ok]
  generalize matching normalizeCell storage filters = rows at hwindows hcount
  dsimp only
  rw [hcount, hwindows, totalPages_eq hsize]
  by_cases hrows : rows.length = 0
  · obtain rfl := List.length_eq_zero_iff.mp hrows
    have hnone : (chunks size ([] : List Nat))[k]? = none := by
      rw [getElem?_chunks hsize, if_neg (by simp)]
    rw [if_pos hrows, hnone, Option.elim_none]
    by_cases hk : k = 0
    · rw [if_neg (by omega), if_pos hk]
    · rw [if_pos (by omega), if_neg hk]
  · rw [if_neg hrows]
    by_cases hk : k < (chunks size rows).length
    · have hchunk := getElem?_chunks hsize rows k
      rw [if_pos ((lt_length_chunks hsize).mp hk)] at hchunk
      rw [if_neg (by omega), hchunk, Option.elim_some, pageIndices_eq (by omega),
        covered_toWindows]
      have hskip : (((k : Int) + 1 - 1) * size).toNat = k * size := by
        rw [Int.add_sub_cancel, ← Int.natCast_mul, Int.toNat_natCast]
      rw [hskip, Int.toNat_natCast]
    · have hzero : k ≠ 0 := by
        rintro rfl
        refine hk ((lt_length_chunks hsize).mpr ?_)
        omega
      rw [if_pos (by omega), List.getElem?_eq_none (Nat.not_lt.mp hk), Option.elim_none,
        if_neg hzero]

theorem Settled.validatePage (h : Settled normalizeCell storage x) (filters : Filters V)
    {size : Nat} (hsize : 1 ≤ size) :
    ∃ y, Settled normalizeCell storage y ∧ x.validatePage normalizeCell storage filters size =
      (.ok ((matching normalizeCell storage filters).length,
        ((chunks size (matching normalizeCell storage filters)).length : Int)), y) := by
  obtain ⟨entry, y, hy, hsettled, -, hcount⟩ := h.getCacheEntry filters
  refine ⟨y, hsettled, ?_⟩
  have hpositive : ¬ ((size : Int) ≤ 0) := by omega
  rw [TraceFilterIndex.validatePage, if_neg hpositive, hy, andThen_ok, hcount,
    ← totalPages_eq hsize]
  split
  · next hzero =>
    have hnone : ((0 : Nat) + (size : Int) - 1) / size = 0 := by
      rw [Int.ediv_eq_zero_of_lt (by omega) (by omega)]
    rw [hzero, hnone]
  · rfl

def seekPages (normalizeCell : V → String) (storage : List (TraceViewerRow V))
    (filters : Filters V) (pageSize : Int) :
    List Int → TraceFilterIndex → Except TraceError (List (List Nat)) × TraceFilterIndex
  | [], x => (.ok [], x)
  | page :: rest, x =>
    andThen (x.seekPage normalizeCell storage filters page pageSize) fun rows y =>
    andThen (seekPages normalizeCell storage filters pageSize rest y) fun pages z =>
      (.ok (rows :: pages), z)

/-- The pages of a stretch of page numbers. -/
theorem Settled.seekPages (h : Settled normalizeCell storage x) (filters : Filters V)
    {size : Nat} (hsize : 1 ≤ size) (first count : Nat)
    (hcount : first + count ≤ (chunks size (matching normalizeCell storage filters)).length) :
    ∃ y, Settled normalizeCell storage y ∧ Ui.seekPages normalizeCell storage filters size
      ((List.range' first count).map fun k => ((k : Nat) : Int) + 1) x =
        (.ok (((chunks size (matching normalizeCell storage filters)).drop first).take count),
          y) := by
  induction count generalizing first x with
  | zero => exact ⟨x, h, rfl⟩
  | succ count ih =>
    obtain ⟨y, hy, hpage⟩ := h.seekPage filters hsize first
    obtain ⟨z, hz, hpages⟩ := ih hy (first + 1) (by omega)
    refine ⟨z, hz, ?_⟩
    have hfirst : first < (chunks size (matching normalizeCell storage filters)).length := by omega
    rw [List.getElem?_eq_getElem hfirst, Option.elim_some] at hpage
    rw [List.range'_succ, List.map_cons, Ui.seekPages, hpage, andThen_ok, hpages, andThen_ok,
      List.drop_eq_getElem_cons hfirst, List.take_succ_cons]

/-- A session with no selection pending leaves its index settled. -/
theorem settled_of_run {trace : List (TraceSession V × Operation V)} {s : TraceSession V}
    (hrun : Run (fun s op t => TraceSession.next normalizeCell s op = some t) ⟨storage, {}⟩ trace s)
    (hpending : s.index.pendingSelectionUpdates = []) :
    Settled normalizeCell s.storage s.index := by
  have hkept := (hrun.invariant
    (I := fun s => Indexed normalizeCell s.storage s.index ∧ Counted s.index) (C := fun _ _ => True)
    ⟨indexed_empty, counted_empty⟩
    (fun _ _ _ h _ hstep => ⟨h.1.next hstep, h.2.next hstep⟩) fun _ _ => trivial).2
  exact ⟨hkept.1, hkept.2, hpending⟩

theorem windows_page {size : Nat} (hsize : 1 ≤ size) (rows : List Nat) (k : Nat) :
    pageWindowIndices (toWindows rows) (((k : Int) + 1 - 1) * size) size =
      (rows.drop (k * size)).take size := by
  have hskip : ((k : Int) + 1 - 1) * size = ((k * size : Nat) : Int) := by
    rw [Int.add_sub_cancel, Int.natCast_mul]
  rw [hskip, pageWindowIndices, if_neg (by omega), Int.toNat_natCast, Int.toNat_natCast,
    windowIndices_eq (by omega), covered_toWindows]

/-- Whenever no selection update is pending, the pages asked for from the first to the last list
every row that satisfies the filters once and in order, and all but the last are full. A page
beyond them is refused, except for the first page when there are none. The window walk of the
viewer finds the rows of every page too. -/
theorem paging_correct {trace : List (TraceSession V × Operation V)} {s : TraceSession V}
    (hrun : Run (fun s op t => TraceSession.next normalizeCell s op = some t) ⟨storage, {}⟩ trace s)
    (hpending : s.index.pendingSelectionUpdates = []) (filters : Filters V) {pageSize : Int}
    (hsize : 1 ≤ pageSize) :
    ∃ totalRows totalPages x, s.index.validatePage normalizeCell s.storage filters pageSize =
      (.ok (totalRows, (totalPages : Nat)), x) ∧
    ∃ pages y, seekPages normalizeCell s.storage filters pageSize
      ((List.range' 0 totalPages).map fun k => ((k : Nat) : Int) + 1) x = (.ok pages, y) ∧
    Increasing pages.flatten ∧
    (∀ i, i ∈ pages.flatten ↔ ∃ row, s.storage[i]? = some row ∧ filters.Holds normalizeCell row) ∧
    (∀ page ∈ pages.dropLast, (page.length : Int) = pageSize) ∧
    (∀ page : Int, max (totalPages : Int) 1 < page → ∃ message,
      (s.index.seekPage normalizeCell s.storage filters page pageSize).1 =
        .error (.valueError message)) ∧
    (totalPages = 0 → (s.index.seekPage normalizeCell s.storage filters 1 pageSize).1 = .ok []) ∧
    ∃ windows z, s.index.applyFilters normalizeCell s.storage filters = (.ok windows, z) ∧
      ∀ page rows, (s.index.seekPage normalizeCell s.storage filters page pageSize).1 = .ok rows →
        pageWindowIndices windows ((page - 1) * pageSize) pageSize = rows := by
  obtain ⟨size, rfl⟩ := Int.eq_ofNat_of_zero_le (show 0 ≤ pageSize by omega)
  have hpositive : 1 ≤ size := by omega
  have hsettled := settled_of_run hrun hpending
  obtain ⟨x, hx, hvalid⟩ := hsettled.validatePage filters hpositive
  obtain ⟨y, -, hpages⟩ := hx.seekPages filters hpositive 0 _ (Nat.zero_add _).le
  obtain ⟨entry, z, hz, -, hwindows, -⟩ := hsettled.getCacheEntry filters
  rw [List.drop_zero, List.take_length] at hpages
  refine ⟨_, _, x, hvalid, _, y, hpages, ?_, ?_, ?_, ?_, ?_, entry.windows, z, ?_, ?_⟩
  · rw [chunks_flatten hpositive]
    exact increasing_filter_range _ _
  · intro i
    rw [chunks_flatten hpositive, mem_matching]
  · intro page hpage
    rw [chunks_full hpositive hpage]
  · intro page hpage
    obtain ⟨k, rfl⟩ : ∃ k : Nat, page = k + 1 := ⟨(page - 1).toNat, by omega⟩
    obtain ⟨_, -, hseek⟩ := hsettled.seekPage filters hpositive k
    rw [hseek, List.getElem?_eq_none (by omega), Option.elim_none, if_neg (by omega)]
    exact ⟨_, rfl⟩
  · intro hnone
    obtain ⟨_, -, hseek⟩ := hsettled.seekPage filters hpositive 0
    rw [List.getElem?_eq_none (by omega), Option.elim_none, if_pos rfl] at hseek
    exact congrArg Prod.fst hseek
  · rw [TraceFilterIndex.applyFilters, hz, andThen_ok]
  · intro page rows hrows
    have hpage : 1 ≤ page := by
      by_contra hno
      rw [TraceFilterIndex.seekPage, if_neg (by omega), if_pos (by omega)] at hrows
      cases hrows
    obtain ⟨k, rfl⟩ : ∃ k : Nat, page = k + 1 := ⟨(page - 1).toNat, by omega⟩
    obtain ⟨_, -, hseek⟩ := hsettled.seekPage filters hpositive k
    rw [hseek] at hrows
    rw [hwindows, windows_page hpositive]
    rw [getElem?_chunks hpositive] at hrows
    split at hrows
    · exact Except.ok.inj hrows
    · next hbeyond =>
      rw [List.drop_of_length_le (Nat.not_lt.mp hbeyond), List.take_nil]
      rw [Option.elim_none] at hrows
      split at hrows
      · exact Except.ok.inj hrows
      · cases hrows

end

theorem paging_correct_sample : ∃ s : TraceSession String,
    replay (TraceSession.next id) ⟨sampleStorage, {}⟩ sampleOperations = some s ∧
    ∃ totalRows totalPages x, s.index.validatePage id s.storage ⟨"10", "", false⟩ 1 =
      (.ok (totalRows, (totalPages : Nat)), x) ∧
    ∃ pages y, seekPages id s.storage ⟨"10", "", false⟩ 1
      ((List.range' 0 totalPages).map fun k => ((k : Nat) : Int) + 1) x = (.ok pages, y) ∧
    Increasing pages.flatten := by
  obtain ⟨s, hs, hpending⟩ : ∃ s, replay (TraceSession.next id) ⟨sampleStorage, {}⟩
      sampleOperations = some s ∧ s.index.pendingSelectionUpdates = [] := ⟨_, rfl, rfl⟩
  obtain ⟨totalRows, totalPages, x, hx, pages, y, hpages, hincreasing, -⟩ :=
    paging_correct (run_of_replay hs) hpending ⟨"10", "", false⟩ (by decide : (1 : Int) ≤ 1)
  exact ⟨s, hs, totalRows, totalPages, x, hx, pages, y, hpages, hincreasing⟩

/-- No row matches, so there is no page; the first page is accepted all the same. -/
theorem first_page_of_nothing :
    (validatePage id [] {} ⟨"", "", false⟩ 10).1 = .ok (0, 0) ∧
    (seekPage id [] {} ⟨"", "", false⟩ 1 10).1 = .ok [] := by
  decide

end Ui
