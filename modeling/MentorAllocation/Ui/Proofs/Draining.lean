import MentorAllocation.Ui.Proofs.TraceFilters

namespace Ui
open Data Text Concurrency TraceFilterIndex

/-- What is done with a session when updates may be queued for any index. -/
inductive QueueOperation (V : Type) where
  | operate (op : Operation V)
  | queue (index : Int)

def TraceSession.nextQueued {V : Type} (normalizeCell : V → String) (s : TraceSession V) :
    QueueOperation V → Option (TraceSession V)
  | .operate op => s.next normalizeCell op
  | .queue index => some { s with index := s.index.queueSelectionUpdate index }

section
variable {V : Type} {normalizeCell : V → String} {storage : List (TraceViewerRow V)}
  {x y : TraceFilterIndex} {stale : Nat → Prop} {row : TraceViewerRow V}

/-- What an index keeps whatever is queued: the rows read are known, but for stale ones, and no
cached entry is of a later generation. -/
structure Readable (normalizeCell : V → String) (storage : List (TraceViewerRow V))
    (x : TraceFilterIndex) (stale : Nat → Prop) : Prop where
  scanned : Scanned normalizeCell storage x stale
  cached : Cached normalizeCell storage x fun _ => False

theorem Readable.congr (h : Readable normalizeCell storage x stale)
    (hgroups : y.groupIndex = x.groupIndex) (hcenters : y.centerIndex = x.centerIndex)
    (hselected : y.selectedIndices = x.selectedIndices) (hupto : y.indexedUpto = x.indexedUpto)
    (hstate : y.selectionState = x.selectionState)
    (hcached : Cached normalizeCell storage y fun _ => False) :
    Readable normalizeCell storage y stale := by
  have hknown : y.selectedAt = x.selectedAt := by
    funext i
    rw [TraceFilterIndex.selectedAt, hstate]
    rfl
  refine ⟨⟨?_, ?_, ?_, ?_, ?_, ?_⟩, hcached⟩
  · rw [hupto]
    exact h.scanned.upto
  · rw [hgroups, hupto]
    exact h.scanned.groups
  · rw [hcenters, hupto]
    exact h.scanned.centers
  · rw [hselected, hupto, hknown]
    exact h.scanned.selected
  · rw [hupto, hstate]
    exact h.scanned.unread
  · rw [hupto, hknown]
    exact h.scanned.fresh

/-- Reading rows beyond the storage reads all there are and raises. -/
theorem indexRows_beyond (h : Scanned normalizeCell storage x stale) (n : Nat)
    (hn : storage.length < x.indexedUpto + n) :
    ∃ y, indexRows normalizeCell storage n x = (.error .indexError, y) ∧
      Scanned normalizeCell storage y stale ∧ y.indexedUpto = storage.length ∧
      y.cacheGeneration = x.cacheGeneration ∧ Kept x y := by
  induction n generalizing x with
  | zero =>
    have := h.upto
    omega
  | succ n ih =>
    cases hrow : storage[x.indexedUpto]? with
    | none =>
      have hall := List.getElem?_eq_none_iff.mp hrow
      have hupto := h.upto
      refine ⟨x, ?_, h, by omega, rfl, rfl, rfl⟩
      rw [indexRows, hrow]
    | some row =>
      have hnext : (x.indexRow normalizeCell row).indexedUpto = x.indexedUpto + 1 := rfl
      obtain ⟨y, hy, hscanned, hupto, hgeneration, hkept⟩ := ih (h.indexRow hrow) (by omega)
      refine ⟨y, ?_, hscanned, hupto, hgeneration, hkept.cache, hkept.pending⟩
      rw [indexRows, hrow]
      exact hy

theorem ensureIndexed_beyond (h : Readable normalizeCell storage x stale) {targetSize : Nat}
    (htarget : storage.length < targetSize) :
    ∃ y, x.ensureIndexed normalizeCell storage targetSize = (.error .indexError, y) ∧
      Readable normalizeCell storage y stale ∧ Kept x y := by
  have hupto := h.scanned.upto
  obtain ⟨y, hy, hscanned, -, hgeneration, hkept⟩ :=
    indexRows_beyond h.scanned (targetSize - x.indexedUpto) (by omega)
  refine ⟨y, ?_, ⟨hscanned, fun key entry hentry => ?_⟩, hkept⟩
  · rw [TraceFilterIndex.ensureIndexed, hy, andThen_error]
  · rw [hgeneration]
    exact ⟨(h.cached key entry (hkept.cache ▸ hentry)).1, fun _ hfalse => hfalse.elim⟩

theorem ensureIndexed_within (h : Readable normalizeCell storage x stale) {targetSize : Nat}
    (htarget : targetSize ≤ storage.length) :
    ∃ y, x.ensureIndexed normalizeCell storage targetSize = (.ok (), y) ∧
      Readable normalizeCell storage y stale ∧ y.indexedUpto = max x.indexedUpto targetSize ∧
      Kept x y := by
  obtain ⟨y, hy, hscanned, hcached, hupto, hkept⟩ :=
    ensureIndexed_scanned h.scanned h.cached htarget
  exact ⟨y, hy, ⟨hscanned, hcached⟩, hupto, hkept⟩

theorem Readable.refresh {index : Nat} (h : Readable normalizeCell storage x stale)
    (hrow : storage[index]? = some row) (hread : index < x.indexedUpto) :
    Readable normalizeCell storage (x.refreshSelection index row.isSelected).2
      fun i => stale i ∧ i ≠ index := by
  refine ⟨h.scanned.refresh hrow hread, fun key entry hentry => ?_⟩
  have hsame : (x.refreshSelection index row.isSelected).2.windowCache = x.windowCache ∧
      (x.refreshSelection index row.isSelected).2.cacheGeneration = x.cacheGeneration := by
    rw [TraceFilterIndex.refreshSelection]
    split
    · exact ⟨rfl, rfl⟩
    · exact ⟨rfl, rfl⟩
  rw [hsame.2]
  exact ⟨(h.cached key entry (hsame.1 ▸ hentry)).1, fun _ hfalse => hfalse.elim⟩

theorem refreshSelection_pending (index : Nat) (newState : Bool) :
    (x.refreshSelection index newState).2.pendingSelectionUpdates =
      x.pendingSelectionUpdates := by
  rw [TraceFilterIndex.refreshSelection]
  split <;> rfl

/-- The loop of `mark_selection_dirty` raises exactly where an index is beyond the storage. -/
theorem refreshRows_exact (rest : List Nat) (updated : Bool)
    (h : Readable normalizeCell storage x stale) :
    ∃ result y, refreshRows normalizeCell storage updated rest x = (result, y) ∧
      y.pendingSelectionUpdates = x.pendingSelectionUpdates ∧
      ((∀ i ∈ rest, i < storage.length) → result.isOk = true ∧
        Readable normalizeCell storage y fun i => stale i ∧ i ∉ rest) ∧
      ((∃ i ∈ rest, storage.length ≤ i) → result = .error .indexError ∧
        Readable normalizeCell storage y stale) := by
  induction rest generalizing x updated stale with
  | nil =>
    refine ⟨.ok updated, x, rfl, rfl, fun _ => ⟨rfl, ?_, h.cached⟩, ?_⟩
    · exact h.scanned.weaken _ fun i hi => ⟨hi, List.not_mem_nil⟩
    · rintro ⟨i, hi, -⟩
      exact absurd hi List.not_mem_nil
  | cons index rest ih =>
    by_cases hindex : index < storage.length
    · obtain ⟨row, hrow⟩ : ∃ row, storage[index]? = some row :=
        ⟨_, List.getElem?_eq_getElem hindex⟩
      obtain ⟨y, hy, hreadable, hupto, hkept⟩ := ensureIndexed_within h hindex
      have hrefreshed := hreadable.refresh hrow (by omega)
      obtain ⟨result, z, hz, hpending, hok, herror⟩ :=
        ih (updated || (y.refreshSelection index row.isSelected).1) hrefreshed
      refine ⟨result, z, ?_, ?_, fun hall => ?_, fun hbeyond => ?_⟩
      · rw [refreshRows, hy, andThen_ok, hrow]
        exact hz
      · rw [hpending, refreshSelection_pending, hkept.pending]
      · obtain ⟨hresult, hscanned, hcached⟩ := hok (List.forall_mem_cons.mp hall).2
        refine ⟨hresult, hscanned.weaken _ fun i hi => ⟨hi.1.1, ?_⟩, hcached⟩
        rw [List.mem_cons, not_or]
        exact ⟨hi.1.2, hi.2⟩
      · obtain ⟨i, hi, hlarge⟩ := hbeyond
        have hrest : i ∈ rest := (List.mem_cons.mp hi).resolve_left (by rintro rfl; omega)
        obtain ⟨hresult, hscanned, hcached⟩ := herror ⟨i, hrest, hlarge⟩
        exact ⟨hresult, hscanned.weaken _ fun j hj => hj.1, hcached⟩
    · have hbeyond : storage.length < index + 1 := by omega
      obtain ⟨y, hy, hreadable, hkept⟩ := ensureIndexed_beyond h hbeyond
      refine ⟨.error .indexError, y, ?_, hkept.pending, fun hall => ?_, fun _ => ⟨rfl, hreadable⟩⟩
      · rw [refreshRows, hy, andThen_error]
      · exact absurd (hall index List.mem_cons_self) hindex

/-- A call drains the queue: it returns, nothing is queued any more, and the index knows the
selection of every row it has read. -/
structure Drains (normalizeCell : V → String) (storage : List (TraceViewerRow V))
    (x : TraceFilterIndex) : Prop where
  returns : (x.markSelectionDirty normalizeCell storage).1 = .ok ()
  empty : (x.markSelectionDirty normalizeCell storage).2.pendingSelectionUpdates = []
  known : ∀ i row, i < (x.markSelectionDirty normalizeCell storage).2.indexedUpto →
    storage[i]? = some row →
      (x.markSelectionDirty normalizeCell storage).2.selectedAt i = row.isSelected

/-- A call is stuck: it raises, and the queue is what it was. -/
structure Stuck (normalizeCell : V → String) (storage : List (TraceViewerRow V))
    (x : TraceFilterIndex) : Prop where
  raises : (x.markSelectionDirty normalizeCell storage).1 = .error .indexError
  queue : (x.markSelectionDirty normalizeCell storage).2.pendingSelectionUpdates =
    x.pendingSelectionUpdates

theorem markSelectionDirty_exact
    (h : Readable normalizeCell storage x (· ∈ x.pendingSelectionUpdates)) :
    let y := (x.markSelectionDirty normalizeCell storage).2
    Readable normalizeCell storage y (· ∈ y.pendingSelectionUpdates) ∧
      ((∀ i ∈ x.pendingSelectionUpdates, i < storage.length) → Drains normalizeCell storage x) ∧
      ((∃ i ∈ x.pendingSelectionUpdates, storage.length ≤ i) → Stuck normalizeCell storage x) := by
  by_cases hempty : x.pendingSelectionUpdates.isEmpty = true
  · have hnothing : x.markSelectionDirty normalizeCell storage = (.ok (), x) := if_pos hempty
    have hnil := List.isEmpty_iff.mp hempty
    refine ⟨by rw [hnothing]; exact h, fun _ =>
      ⟨by rw [hnothing], by rw [hnothing]; exact hnil, ?_⟩,
      ?_⟩
    · rw [hnothing]
      intro i row hread hrow
      refine h.scanned.fresh i row hread hrow ?_
      rw [hnil]
      exact List.not_mem_nil
    · rintro ⟨i, hi, -⟩
      rw [hnil] at hi
      exact absurd hi List.not_mem_nil
  · have hmem : ∀ i, i ∈ x.pendingSelectionUpdates.insertionSort (· ≤ ·) ↔
        i ∈ x.pendingSelectionUpdates := fun i => (List.perm_insertionSort _ _).mem_iff
    obtain ⟨result, y, hy, hpending, hok, herror⟩ :=
      refreshRows_exact (x.pendingSelectionUpdates.insertionSort (· ≤ ·)) false h
    by_cases hall : ∀ i ∈ x.pendingSelectionUpdates, i < storage.length
    · obtain ⟨hresult, hreadable⟩ := hok fun i hi => hall i ((hmem i).mp hi)
      cases result with
      | error e => cases hresult
      | ok updated =>
        have hfresh : Readable normalizeCell storage y (· ∈ ([] : List Nat)) :=
          ⟨hreadable.scanned.weaken _ fun i hi => absurd ((hmem i).mpr hi.1) hi.2,
            hreadable.cached⟩
        have hcall : (x.markSelectionDirty normalizeCell storage).1 = .ok () ∧
            (x.markSelectionDirty normalizeCell storage).2.pendingSelectionUpdates = [] ∧
            Readable normalizeCell storage (x.markSelectionDirty normalizeCell storage).2
              (· ∈ ([] : List Nat)) := by
          rw [TraceFilterIndex.markSelectionDirty, if_neg hempty, hy, andThen_ok]
          cases updated with
          | false => exact ⟨rfl, rfl, hfresh.congr rfl rfl rfl rfl rfl hfresh.cached⟩
          | true =>
            refine ⟨rfl, rfl, hfresh.congr rfl rfl rfl rfl rfl fun key entry hentry => ?_⟩
            simp only [if_true, Dict.get?_filterKeys] at hentry
            split at hentry
            · exact hfresh.cached key entry hentry
            · cases hentry
        refine ⟨by rw [hcall.2.1]; exact hcall.2.2, fun _ => ⟨hcall.1, hcall.2.1, ?_⟩, ?_⟩
        · exact fun i row hread hrow =>
            hcall.2.2.scanned.fresh i row hread hrow List.not_mem_nil
        · rintro ⟨i, hi, hlarge⟩
          exact absurd (hall i hi) (by omega)
    · have hbeyond : ∃ i ∈ x.pendingSelectionUpdates, storage.length ≤ i := by
        simpa only [not_forall, not_lt, exists_prop] using hall
      obtain ⟨i, hi, hlarge⟩ := hbeyond
      obtain ⟨rfl, hreadable⟩ := herror ⟨i, (hmem i).mpr hi, hlarge⟩
      have hcall : x.markSelectionDirty normalizeCell storage = (.error .indexError, y) := by
        rw [TraceFilterIndex.markSelectionDirty, if_neg hempty, hy, andThen_error]
      rw [hcall]
      refine ⟨by rw [hpending]; exact hreadable, fun hall' => absurd hall' hall, fun _ => ?_⟩
      exact ⟨by rw [hcall], by rw [hcall]; exact hpending⟩

/-- What an operation other than a drain does to the queue and to the rows that are known. -/
theorem getCacheEntry_readable (h : Readable normalizeCell storage x stale) (filters : Filters V)
    {β : Type} {next : CacheEntry → TraceFilterIndex → Except TraceError β × TraceFilterIndex}
    (hnext : ∀ entry y, (next entry y).2 = y) :
    let y := (andThen (x.getCacheEntry normalizeCell storage filters) next).2
    Readable normalizeCell storage y stale ∧
      y.pendingSelectionUpdates = x.pendingSelectionUpdates := by
  rw [TraceFilterIndex.getCacheEntry]
  cases hfound : (x.windowCache.get? (filtersKey normalizeCell filters)).filter fun entry =>
      entry.generation == x.cacheGeneration with
  | some entry =>
    dsimp only
    rw [andThen_ok, hnext]
    exact ⟨h.congr rfl rfl rfl rfl rfl h.cached, rfl⟩
  | none =>
    obtain ⟨y, hy, hreadable, -, hkept⟩ := ensureIndexed_within h (le_refl storage.length)
    simp only [TraceFilterIndex.computeWindows, hy, andThen_ok, TraceFilterIndex.storeEntry, hnext]
    generalize y.windowsOf normalizeCell storage filters = windows
    generalize (windows.map fun w => w.2 - w.1).sum = count
    refine ⟨hreadable.congr rfl rfl rfl rfl rfl fun key entry hentry => ?_, hkept.pending⟩
    rw [Dict.get?_set] at hentry
    split at hentry
    · obtain rfl := Option.some.inj hentry
      exact ⟨le_refl _, fun _ hfalse => hfalse.elim⟩
    · exact hreadable.cached key entry hentry

theorem Readable.queue (h : Readable normalizeCell storage x (· ∈ x.pendingSelectionUpdates))
    (index : Int) : Readable normalizeCell storage (x.queueSelectionUpdate index)
      (· ∈ (x.queueSelectionUpdate index).pendingSelectionUpdates) := by
  rw [TraceFilterIndex.queueSelectionUpdate]
  split
  · exact h
  · have hmore : Readable normalizeCell storage x
        (· ∈ x.pendingSelectionUpdates.insert index.toNat) :=
      ⟨h.scanned.weaken _ fun i hi => List.mem_insert_of_mem hi, h.cached⟩
    exact hmore.congr rfl rfl rfl rfl rfl hmore.cached

theorem mem_queueSelectionUpdate {i : Nat} (index : Int) (h : i ∈ x.pendingSelectionUpdates) :
    i ∈ (x.queueSelectionUpdate index).pendingSelectionUpdates := by
  rw [TraceFilterIndex.queueSelectionUpdate]
  split
  · exact h
  · exact List.mem_insert_of_mem h

/-- A row that is selected is stale from then on. -/
theorem Readable.modify {index : Nat} (isSelected : Bool)
    (h : Readable normalizeCell storage x stale) (hindex : stale index) :
    Readable normalizeCell (storage.modify index fun row => { row with isSelected }) x stale := by
  have hgroup := cellAt_modify normalizeCell storage TraceViewerRow.studentGroup (fun _ _ => rfl)
    index isSelected
  have hcenter := cellAt_modify normalizeCell storage TraceViewerRow.studentCenter (fun _ _ => rfl)
    index isSelected
  refine ⟨⟨?_, ?_, ?_, h.scanned.selected, h.scanned.unread, ?_⟩, fun key entry hentry =>
    ⟨(h.cached key entry hentry).1, fun _ hfalse => hfalse.elim⟩⟩
  · rw [List.length_modify]
    exact h.scanned.upto
  · intro key
    rw [positions, hgroup]
    exact h.scanned.groups key
  · intro key
    rw [positions, hcenter]
    exact h.scanned.centers key
  · intro i row hi hrow hstale
    have hne : index ≠ i := by
      rintro rfl
      exact hstale hindex
    rw [List.getElem?_modify_ne _ _ hne] at hrow
    exact h.scanned.fresh i row hi hrow hstale

def Blocked (s : TraceSession V) : Prop :=
  ∃ i ∈ s.index.pendingSelectionUpdates, s.storage.length ≤ i

/-- Once an index that no row has is queued, what is queued stays queued. -/
def StaysQueued (s t : TraceSession V) : Prop :=
  t.storage.length = s.storage.length ∧
    (Blocked s → ∀ i ∈ s.index.pendingSelectionUpdates, i ∈ t.index.pendingSelectionUpdates)

theorem StaysQueued.trans {s t u : TraceSession V} (hst : StaysQueued s t)
    (htu : StaysQueued t u) : StaysQueued s u := by
  refine ⟨htu.1.trans hst.1, fun hblocked i hi => ?_⟩
  have hqueued := hst.2 hblocked
  obtain ⟨j, hj, hlarge⟩ := hblocked
  refine htu.2 ⟨j, hqueued j hj, ?_⟩ i (hqueued i hi)
  rw [hst.1]
  exact hlarge

abbrev TraceSession.Ready (normalizeCell : V → String) (s : TraceSession V) : Prop :=
  Readable normalizeCell s.storage s.index (· ∈ s.index.pendingSelectionUpdates)

theorem TraceSession.Ready.lookup {s : TraceSession V} (h : s.Ready normalizeCell)
    (filters : Filters V) {β : Type}
    {next : CacheEntry → TraceFilterIndex → Except TraceError β × TraceFilterIndex}
    (hnext : ∀ entry y, (next entry y).2 = y) :
    let t : TraceSession V := { s with
      index := (andThen (s.index.getCacheEntry normalizeCell s.storage filters) next).2 }
    t.Ready normalizeCell ∧ StaysQueued s t := by
  obtain ⟨hreadable, hpending⟩ := getCacheEntry_readable h filters hnext
  refine ⟨?_, rfl, fun _ i hi => ?_⟩
  · dsimp only [TraceSession.Ready]
    rw [hpending]
    exact hreadable
  · dsimp only
    rw [hpending]
    exact hi

theorem TraceSession.Ready.nextQueued {s t : TraceSession V} {op : QueueOperation V}
    (h : s.Ready normalizeCell) (hstep : s.nextQueued normalizeCell op = some t) :
    t.Ready normalizeCell ∧ StaysQueued s t := by
  have hself : s.Ready normalizeCell ∧ StaysQueued s s := ⟨h, rfl, fun _ _ hi => hi⟩
  cases op with
  | queue index =>
    obtain rfl := Option.some.inj hstep
    exact ⟨h.queue index, rfl, fun _ i hi => mem_queueSelectionUpdate index hi⟩
  | operate op =>
    cases op with
    | applyFilters filters =>
      obtain rfl := Option.some.inj hstep
      exact h.lookup filters fun _ _ => rfl
    | validatePage filters pageSize =>
      obtain rfl := Option.some.inj hstep
      rw [TraceFilterIndex.validatePage]
      split
      · exact hself
      · exact h.lookup filters fun _ _ => rfl
    | seekPage filters page pageSize =>
      obtain rfl := Option.some.inj hstep
      rw [TraceFilterIndex.seekPage]
      split
      · exact hself
      · split
        · exact hself
        · refine h.lookup filters fun entry y => ?_
          dsimp only
          split
          · split <;> rfl
          · split <;> rfl
    | select index isSelected =>
      rw [TraceSession.nextQueued, TraceSession.next] at hstep
      split at hstep
      · obtain rfl := Option.some.inj hstep
        have hqueued : index ∈ (s.index.queueSelectionUpdate index).pendingSelectionUpdates := by
          rw [TraceFilterIndex.queueSelectionUpdate, if_neg (by omega), Int.toNat_natCast]
          exact List.mem_insert_self
        exact ⟨(h.queue index).modify isSelected hqueued, List.length_modify ..,
          fun _ i hi => mem_queueSelectionUpdate index hi⟩
      · cases hstep
    | markSelectionDirty =>
      obtain rfl := Option.some.inj hstep
      obtain ⟨hreadable, -, hstuck⟩ := markSelectionDirty_exact h
      refine ⟨hreadable, rfl, fun hblocked i hi => ?_⟩
      dsimp only
      rw [(hstuck hblocked).queue]
      exact hi

end

end Ui
