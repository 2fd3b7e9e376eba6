import MentorAllocation.Export.ExternalSorter

namespace Export
open Text Sorting

namespace ExternalSorter
variable (S : ExternalSorter) (nfkc : String → String)

/-- The rows are keyed one by one; the first row without a key ends it. -/
theorem prepareRows_eq (state : Preparation) (rows : List (List (String × Cell))) :
    S.prepareRows nfkc state rows =
      (rows.mapM (S.keyed nfkc)).map (List.foldl S.prepareRow state) := by
  induction rows generalizing state with
  | nil => rfl
  | cons row rows ih =>
    simp only [prepareRows, List.mapM_cons]
    cases S.keyed nfkc row with
    | error e => rfl
    | ok entry =>
      change S.prepareRows nfkc (S.prepareRow state entry) rows = _
      rw [ih]
      cases rows.mapM (S.keyed nfkc) <;> rfl

/-- How far `prepare` has come: full groups of rows spilled, the rest in the buffer. -/
structure Split (groups : List (List (SortKey × Row))) (entries : List (SortKey × Row))
    (state : Preparation) : Prop where
  total : state.totalRows = entries.length
  short : state.buffer.length < S.bufferRows
  full : ∀ g ∈ groups, g.length = S.bufferRows
  chunks : state.chunks = groups.map stableSort
  whole : groups.flatten ++ state.buffer = entries

theorem split_start : S.Split [] [] {} :=
  ⟨rfl, S.bufferRows_pos, by simp, rfl, rfl⟩

theorem Split.step {S : ExternalSorter} {groups : List (List (SortKey × Row))}
    {entries : List (SortKey × Row)} {state : Preparation} (h : S.Split groups entries state)
    (entry : SortKey × Row) :
    ∃ groups', S.Split groups' (entries ++ [entry]) (S.prepareRow state entry) := by
  have hlen : (state.buffer ++ [entry]).length = state.buffer.length + 1 := by simp
  have hshort := h.short
  by_cases hfull : S.bufferRows ≤ (state.buffer ++ [entry]).length
  · refine ⟨groups ++ [state.buffer ++ [entry]], ?_⟩
    rw [prepareRow, if_pos hfull]
    refine ⟨by simp [h.total], S.bufferRows_pos, ?_, ?_, ?_⟩
    · intro g hg
      rcases List.mem_append.mp hg with hg | hg
      · exact h.full g hg
      · rw [List.mem_singleton.mp hg]
        omega
    · simp [h.chunks, spillChunk]
    · simp [← h.whole]
  · refine ⟨groups, ?_⟩
    rw [prepareRow, if_neg hfull]
    refine ⟨by simp [h.total], Nat.lt_of_not_le hfull, h.full, h.chunks, ?_⟩
    rw [← List.append_assoc, h.whole]

theorem Split.run {S : ExternalSorter} {groups : List (List (SortKey × Row))}
    {before : List (SortKey × Row)} {state : Preparation} (h : S.Split groups before state)
    (entries : List (SortKey × Row)) :
    ∃ groups', S.Split groups' (before ++ entries) (entries.foldl S.prepareRow state) := by
  induction entries generalizing groups before state with
  | nil => exact ⟨groups, by simpa using h⟩
  | cons entry entries ih =>
    obtain ⟨groups', h'⟩ := h.step entry
    simpa using ih h'

/-- Nothing is spilled exactly while the rows stay below the buffer's size. -/
theorem Split.chunks_nil {S : ExternalSorter} {groups : List (List (SortKey × Row))}
    {entries : List (SortKey × Row)} {state : Preparation} (h : S.Split groups entries state) :
    state.chunks = [] ↔ entries.length < S.bufferRows := by
  have hwhole := congrArg List.length h.whole
  have hshort := h.short
  rw [h.chunks]
  cases groups with
  | nil => simpa [← hwhole] using hshort
  | cons g groups =>
    have hg := h.full g List.mem_cons_self
    simp only [List.flatten_cons, List.length_append] at hwhole
    simp only [List.map_cons, reduceCtorEq, false_iff]
    omega

/-- What `prepare` makes of rows that all have a key. -/
theorem prepare_split {rows : List (List (String × Cell))} {entries : List (SortKey × Row)}
    (h : rows.mapM (S.keyed nfkc) = .ok entries) :
    ∃ groups state, S.Split groups entries state ∧
      S.prepare nfkc rows = .ok ⟨state.chunks, stableSort state.buffer, state.totalRows,
        state.chunks.length, state.spillBytes⟩ := by
  obtain ⟨groups, hs⟩ := S.split_start.run entries
  refine ⟨groups, _, hs, ?_⟩
  rw [prepare, prepareRows_eq, h]
  rfl

theorem mapM_keyed_length {rows : List (List (String × Cell))} {entries : List (SortKey × Row)}
    (h : rows.mapM (S.keyed nfkc) = .ok entries) : entries.length = rows.length := by
  induction rows generalizing entries with
  | nil =>
    cases h
    rfl
  | cons row rows ih =>
    rw [List.mapM_cons] at h
    cases hk : S.keyed nfkc row with
    | error e => simp [hk, bind, Except.bind] at h
    | ok entry =>
      cases hr : rows.mapM (S.keyed nfkc) with
      | error e => simp [hk, hr, bind, Except.bind] at h
      | ok rest =>
        simp only [hk, hr, bind, Except.bind, pure, Except.pure, Except.ok.injEq] at h
        rw [← h, List.length_cons, List.length_cons, ih hr]

theorem keyed_ok {row : List (String × Cell)} :
    (∃ entry, S.keyed nfkc row = .ok entry) ↔
      ∃ key, S.buildKey (normalizeRow nfkc row) = .ok key := by
  cases h : S.buildKey (normalizeRow nfkc row) <;>
    simp [keyed, h, bind, Except.bind, pure, Except.pure]

theorem mapM_keyed_ok {rows : List (List (String × Cell))} :
    (∃ entries, rows.mapM (S.keyed nfkc) = .ok entries) ↔
      ∀ row ∈ rows, ∃ key, S.buildKey (normalizeRow nfkc row) = .ok key := by
  induction rows with
  | nil => simp [pure, Except.pure]
  | cons row rows ih =>
    rw [List.forall_mem_cons, ← ih, ← keyed_ok, List.mapM_cons]
    cases hk : S.keyed nfkc row with
    | error e => simp [bind, Except.bind]
    | ok entry =>
      cases hr : rows.mapM (S.keyed nfkc) <;> simp [bind, Except.bind, pure, Except.pure]

/-- `iter_sorted(prepare(rows))` gives the stable sort of the normalised rows by their
keys, as many of them as the plan counts. -/
def SortsStably (rows : List (List (String × Cell))) : Prop :=
  ∃ plan entries output, S.prepare nfkc rows = .ok plan ∧
    rows.mapM (S.keyed nfkc) = .ok entries ∧ StableSorted entries output ∧
    (iterSorted nfkc plan).yields = output.map Prod.snd ∧
    (iterSorted nfkc plan).yields.length = plan.totalRows

/-- Once a chunk is on disk the sorter gives no rows, though the plan counts them. -/
theorem yields_of_spill {rows : List (List (String × Cell))} {plan : SortPlan}
    (h : S.prepare nfkc rows = .ok plan) (hmany : S.bufferRows ≤ rows.length) :
    (iterSorted nfkc plan).yields = [] ∧ plan.totalRows = rows.length := by
  cases hentries : rows.mapM (S.keyed nfkc) with
  | error e => simp [prepare, prepareRows_eq, hentries, Except.map, bind, Except.bind] at h
  | ok entries =>
    have hrows := S.mapM_keyed_length nfkc hentries
    obtain ⟨groups, state, hs, hp⟩ := S.prepare_split nfkc hentries
    obtain rfl := Except.ok.inj (h.symm.trans hp)
    have hne : state.chunks ≠ [] := by
      rw [Ne, hs.chunks_nil]
      omega
    exact ⟨by simp [iterSorted, hne], hs.total.trans hrows⟩

/-- Rows are sorted as long as nothing is spilled. Once a chunk is on disk the rows of the
merge are never handed out. -/
theorem sorts_stably_iff (rows : List (List (String × Cell))) :
    S.SortsStably nfkc rows ↔
      (∀ row ∈ rows, ∃ key, S.buildKey (normalizeRow nfkc row) = .ok key) ∧
        rows.length < S.bufferRows := by
  rw [← mapM_keyed_ok]
  constructor
  · rintro ⟨plan, entries, output, hplan, hentries, _, _, hlen⟩
    refine ⟨⟨entries, hentries⟩, ?_⟩
    by_contra hmany
    obtain ⟨hyields, htotal⟩ := S.yields_of_spill nfkc hplan (Nat.le_of_not_lt hmany)
    have hpos := S.bufferRows_pos
    rw [hyields, htotal, List.length_nil] at hlen
    omega
  · rintro ⟨⟨entries, hentries⟩, hfew⟩
    obtain ⟨groups, state, hs, hp⟩ := S.prepare_split nfkc hentries
    rw [← S.mapM_keyed_length nfkc hentries, ← hs.chunks_nil] at hfew
    have hgroups : groups = [] := by simpa [hfew] using hs.chunks
    have hbuffer : state.buffer = entries := by simpa [hgroups] using hs.whole
    refine ⟨_, entries, stableSort entries, hp, hentries, stableSorted_stableSort entries, ?_, ?_⟩
    · simp [iterSorted, hfew, hbuffer]
    · simp [iterSorted, hfew, hbuffer, hs.total, (stableSort_perm entries).length_eq]

def sampleSorter : ExternalSorter := ⟨["year_code"], 1, by decide, by decide⟩

def sampleRows : List (List (String × Cell)) := [[("year_code", .str "1402")]]

/-- A single row that fills the buffer is counted but not handed out. -/
theorem spilled_row_lost :
    (∃ plan, sampleSorter.prepare id sampleRows = .ok plan ∧ plan.totalRows = 1 ∧
      (iterSorted id plan).yields = []) ∧ ¬ sampleSorter.SortsStably id sampleRows := by
  constructor
  · exact ⟨_, rfl, rfl, rfl⟩
  · rintro ⟨plan, entries, output, hplan, _, _, _, hlen⟩
    obtain ⟨hyields, htotal⟩ := sampleSorter.yields_of_spill id hplan (by decide)
    rw [hyields, htotal] at hlen
    exact absurd hlen (by decide)

/-- An entry as it comes back from a chunk file. -/
def respilled (entry : SortKey × Row) : SortKey × Row :=
  entry.map id (List.map (Prod.map id (normalizeText nfkc)))

theorem chunkIterator_stableSort (group : List (SortKey × Row)) :
    chunkIterator nfkc (stableSort group) = stableSort (group.map (respilled nfkc)) :=
  (stableSort_map _ group).symm

/-- What the sorter withholds: the stable sort of all rows, those of full groups
sanitised a second time. -/
theorem generator_sorts {rows : List (List (String × Cell))} {entries : List (SortKey × Row)}
    {plan : SortPlan} (hentries : rows.mapM (S.keyed nfkc) = .ok entries)
    (hplan : S.prepare nfkc rows = .ok plan) :
    ∃ spilled kept, entries = spilled ++ kept ∧
      spilled.length = plan.chunkCount * S.bufferRows ∧ kept.length < S.bufferRows ∧
      generator nfkc plan =
        (stableSort (spilled.map (respilled nfkc) ++ kept)).map Prod.snd := by
  obtain ⟨groups, state, hs, hp⟩ := S.prepare_split nfkc hentries
  obtain rfl := Except.ok.inj (hplan.symm.trans hp)
  refine ⟨groups.flatten, state.buffer, hs.whole.symm, ?_, hs.short, ?_⟩
  · rw [List.length_flatten, hs.chunks, List.length_map,
      List.eq_replicate_iff.mpr ⟨List.length_map _, fun n hn => ?_⟩, List.sum_replicate_nat]
    obtain ⟨g, hg, rfl⟩ := List.mem_map.mp hn
    exact hs.full g hg
  · have hsources : (if (stableSort state.buffer).isEmpty then state.chunks.map (chunkIterator nfkc)
        else state.chunks.map (chunkIterator nfkc) ++ [stableSort state.buffer]) =
        (groups.map (List.map (respilled nfkc)) ++
          if state.buffer.isEmpty then [] else [state.buffer]).map stableSort := by
      have hempty : (stableSort state.buffer).isEmpty = state.buffer.isEmpty := by
        rw [Bool.eq_iff_iff, List.isEmpty_iff_length_eq_zero, List.isEmpty_iff_length_eq_zero,
          (stableSort_perm state.buffer).length_eq]
      have hchunks : state.chunks.map (chunkIterator nfkc) =
          (groups.map (List.map (respilled nfkc))).map stableSort := by
        rw [hs.chunks, List.map_map, List.map_map]
        exact List.map_congr_left fun g _ => chunkIterator_stableSort nfkc g
      rw [hempty, hchunks]
      cases state.buffer.isEmpty <;> simp
    have hflat : (groups.map (List.map (respilled nfkc)) ++
        if state.buffer.isEmpty then [] else [state.buffer]).flatten =
        groups.flatten.map (respilled nfkc) ++ state.buffer := by
      rw [List.flatten_append, ← List.map_flatten]
      cases state.buffer <;> simp
    simp only [generator]
    rw [hsources, merge_stableSort, hflat]

end ExternalSorter

end Export
