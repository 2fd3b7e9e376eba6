import MentorAllocation.Counter.Proofs.Backfill
import MentorAllocation.Data.Firsts

namespace Counter
open Text Data
open SqlAlchemyCounterRepository (fetchStudentCounter)

/-- The chunks of a stream without exceptions hold its elements in order. -/
theorem chunked_flatten {ε α : Type} (n : Int) (chunk rows : List α) :
    ∃ chunks : List (List α), chunked n chunk (rows.map (Except.ok (ε := ε))) =
      chunks.map Except.ok ∧
      chunks.flatten = chunk ++ rows := by
  induction rows generalizing chunk with
  | nil =>
    cases chunk with
    | nil => exact ⟨[], rfl, rfl⟩
    | cons a chunk => exact ⟨[a :: chunk], rfl, by simp⟩
  | cons row rows ih =>
    rw [List.map_cons, chunked]
    split
    · obtain ⟨chunks, hchunks, hflatten⟩ := ih []
      exact ⟨(chunk ++ [row]) :: chunks, by rw [hchunks, List.map_cons], by simp [hflatten]⟩
    · obtain ⟨chunks, hchunks, hflatten⟩ := ih (chunk ++ [row])
      exact ⟨chunks, hchunks, by simp [hflatten]⟩

theorem chunked_one {ε α : Type} (rows : List α) :
    chunked 1 [] (rows.map (Except.ok (ε := ε))) = (rows.map fun row => [row]).map Except.ok := by
  induction rows with
  | nil => rfl
  | cons row rows ih =>
    rw [List.map_cons, chunked, if_pos (by simp), ih]
    rfl

/-- A chunk size above the number of rows leaves one chunk. -/
theorem chunked_whole {ε α : Type} {n : Int} (chunk rows : List α) (hne : chunk ++ rows ≠ [])
    (hn : (chunk ++ rows).length < n) :
    chunked n chunk (rows.map (Except.ok (ε := ε))) = [.ok (chunk ++ rows)] := by
  induction rows generalizing chunk with
  | nil =>
    rw [List.append_nil] at hne ⊢
    cases chunk with
    | nil => exact absurd rfl hne
    | cons a chunk => rfl
  | cons row rows ih =>
    have happend : chunk ++ row :: rows = (chunk ++ [row]) ++ rows := by simp
    rw [happend] at hn ⊢
    have hlength : ¬ n ≤ (chunk ++ [row]).length := by
      rw [List.length_append] at hn
      omega
    rw [List.map_cons, chunked, if_neg hlength]
    exact ih (chunk ++ [row]) (by simp) hn

def CounterStore.hasCounter (s : CounterStore) (nationalId : String) : Bool :=
  (truthy ((s.lockStudent nationalId).bind StudentModel.counter)).isSome

/-- The number of students that have a counter in `t` and had none in `s`. -/
def newlyBound (s t : CounterStore) : Nat :=
  (s.students.map StudentModel.nationalId).countP fun nid => !s.hasCounter nid && t.hasCounter nid

def freeRows (s : CounterStore) (rows : List BackfillRow) : List BackfillRow :=
  rows.filter fun row => !s.hasCounter row.nationalId

/-- What the statistics of an applied run become with the rows of a chunk. -/
def BackfillStats.tally (known : String → Option String) (rows : List BackfillRow)
    (stats : BackfillStats) : BackfillStats :=
  { stats with
    totalRows := stats.totalRows + rows.length
    applied := stats.applied + rows.countP fun row => (known row.nationalId).isNone
    reused := stats.reused + rows.countP fun row => (known row.nationalId).isSome
    prefixMismatches := stats.prefixMismatches + rows.countP fun row =>
      (known row.nationalId).any fun counter =>
        !hasPrefix counter (row.yearCode ++ row.genderCode) }

section
variable {known known' : String → Option String} {rows : List BackfillRow} {stats : BackfillStats}

theorem foldl_count (known : String → Option String) (rows : List BackfillRow)
    (stats : BackfillStats) : rows.foldl (BackfillStats.count known) stats =
      { stats.tally known rows with totalRows := stats.totalRows } := by
  induction rows generalizing stats with
  | nil => rfl
  | cons row rows ih =>
    rw [List.foldl_cons, ih, BackfillStats.count]
    simp only [BackfillStats.tally, List.countP_cons]
    cases known row.nationalId with
    | none =>
      simp
      omega
    | some counter =>
      dsimp only
      split
      · next h =>
        simp [h]
        omega
      · next h =>
        simp [h]
        omega

theorem BackfillStats.tally_append (more : List BackfillRow) :
    stats.tally known (rows ++ more) = (stats.tally known rows).tally known more := by
  simp only [BackfillStats.tally, List.length_append, List.countP_append, Nat.add_assoc]

theorem BackfillStats.tally_congr (h : ∀ row ∈ rows, known row.nationalId = known' row.nationalId) :
    stats.tally known rows = stats.tally known' rows := by
  simp only [BackfillStats.tally]
  congr 2
  · exact List.countP_congr fun row hrow => by rw [h row hrow]
  · exact List.countP_congr fun row hrow => by rw [h row hrow]
  · exact List.countP_congr fun row hrow => by rw [h row hrow]

end

def soundChunk (nfkc : String → String) (s : CounterStore) (chunk : List BackfillRow) : Bool :=
  chunk.all fun row => (fetchStudentCounter nfkc s row.nationalId).isOk

/-- The chunks before the first one with a malformed counter. -/
def soundChunks (nfkc : String → String) (s : CounterStore) (chunks : List (List BackfillRow)) :
    List (List BackfillRow) :=
  chunks.takeWhile (soundChunk nfkc s)

/-- The counter of a student as `fetch_existing_counters` tells it. -/
def CounterStore.known (nfkc : String → String) (s : CounterStore) (nationalId : String) :
    Option String :=
  (fetchStudentCounter nfkc s nationalId).toOption.join

/-- What an applied run ends in, by the calls of `assign_counter` for its sound chunks. -/
structure RunOutcome (nfkc : String → String) (s : CounterStore) (chunks : List (List BackfillRow))
    (p : Progress) (assigned : Except AssignError Unit × CounterStore)
    (result : Except BackfillError Progress × CounterStore) : Prop where
  failed : ∀ error t, assigned = (.error error, t) → result = (.error (.ofAssign error), t)
  stopped : ∀ t, assigned = (.ok (), t) → soundChunks nfkc s chunks ≠ chunks →
    result = (.error (.service counterMalformed), t)
  done : ∀ t, assigned = (.ok (), t) → soundChunks nfkc s chunks = chunks →
    ∃ q, result = (.ok q, t) ∧
      (((freeRows s chunks.flatten).map BackfillRow.nationalId).Nodup →
        q.stats true = (p.stats true).tally (s.known nfkc) chunks.flatten)

section
variable {R : SqlAlchemyCounterRepository} {nfkc : String → String} {s t : CounterStore}
  {rows chunk : List BackfillRow} {chunks : List (List BackfillRow)} {p : Progress}
  {nationalId : String}

theorem hasCounter_eq_false :
    s.hasCounter nationalId = false ↔ fetchStudentCounter nfkc s nationalId = .ok none := by
  rw [fetchStudentCounter_none, CounterStore.hasCounter, Option.isSome_eq_false_iff,
    Option.isNone_iff_eq_none]

theorem assignRows_append (more : List BackfillRow) : assignRows R nfkc (rows ++ more) s =
    andThen (assignRows R nfkc rows s) fun _ t => assignRows R nfkc more t := by
  induction rows generalizing s with
  | nil => rfl
  | cons row rows ih =>
    rw [List.cons_append, assignRows, assignRows]
    rcases assignCounter R nfkc s row.nationalId row.gender row.yearCode with ⟨outcome, t⟩
    cases outcome with
    | error e => rfl
    | ok counter => exact ih

theorem soundChunk_grown (h : Grown nfkc s t) : soundChunk nfkc t = soundChunk nfkc s := by
  funext chunk
  rw [soundChunk, soundChunk]
  congr 1
  funext row
  exact h.isOk row.nationalId

/-- A sound chunk is run on the counters that its students have. -/
theorem processChunks_sound (hn : DigitByDigit nfkc) (hk : s.Keyed)
    (hvalid : ∀ row ∈ chunk, row.Valid nfkc s) (hsound : soundChunk nfkc s chunk = true) :
    ∃ existing result, (∀ row ∈ chunk,
        fetchStudentCounter nfkc s row.nationalId = .ok (existing.get? row.nationalId)) ∧
      ChunkOutcome existing chunk { p with totalRows := p.totalRows + chunk.length }
        (assignRows R nfkc chunk s).1 (assignRows R nfkc chunk s).2 result ∧
      ∀ chunks, processChunks R nfkc true (.ok chunk :: chunks) p s =
        andThen result fun q t => processChunks R nfkc true chunks q t := by
  have hok : ∀ row ∈ chunk, (fetchStudentCounter nfkc s row.nationalId).isOk = true :=
    List.all_eq_true.mp hsound
  obtain ⟨existing, hexisting, hget⟩ :=
    fetchExistingCounters_ok hk (chunk.map BackfillRow.nationalId) (by simpa using hok)
  have hrows : ∀ row ∈ chunk,
      fetchStudentCounter nfkc s row.nationalId = .ok (existing.get? row.nationalId) :=
    fun row hrow => hget _ (List.mem_map_of_mem hrow)
  refine ⟨existing, _, hrows, processChunk_apply (assignRows_assigns hn hk hvalid hok)
    (fun row hrow => (hvalid row hrow).gender) ?_, fun chunks => ?_⟩
  · intro row hrow counter hcounter
    rw [hrows row hrow, hcounter]
  · rw [processChunks, hexisting]

theorem processChunks_unsound (hk : s.Keyed) (hsound : soundChunk nfkc s chunk = false)
    (chunks : List (Except CounterServiceError (List BackfillRow))) {apply : Bool} :
    processChunks R nfkc apply (.ok chunk :: chunks) p s =
      (.error (.service counterMalformed), s) := by
  obtain ⟨row, hrow, hbad⟩ := List.all_eq_false.mp hsound
  rw [processChunks, fetchExistingCounters_error hk (List.mem_map_of_mem hrow)
    (by simpa using hbad)]

theorem ChunkOutcome.tally {existing : Dict String String}
    {result : Except BackfillError Progress × CounterStore}
    (h : ChunkOutcome existing chunk { p with totalRows := p.totalRows + chunk.length } (.ok ()) t
      result) : ∃ q, result = (.ok q, t) ∧
        q.stats true = (p.stats true).tally existing.get? chunk := by
  obtain ⟨q, hq, hstats⟩ := h.done rfl
  exact ⟨q, hq, hstats.trans (foldl_count _ _ _)⟩

/-- The rows after some that got their counters: who was free once is free or was among those. -/
theorem Grown.hasCounter (h : Grown nfkc s t) (hs : s.hasCounter nationalId = true) :
    t.hasCounter nationalId = true := by
  by_contra hfree
  rw [Bool.not_eq_true, hasCounter_eq_false] at hfree
  by_cases hsome : fetchStudentCounter nfkc s nationalId = .ok none
  · rw [hasCounter_eq_false.mpr hsome] at hs
    cases hs
  · exact hsome ((h.kept nationalId hsome).symm.trans hfree)

/-- Where no row of a free student comes twice, the next chunks find what was there at first. -/
theorem fetch_unrepeated (h : Assigns R nfkc chunk s (.ok ()) t)
    (honce : ((freeRows s (chunk ++ rows)).map BackfillRow.nationalId).Nodup) :
    (∀ row ∈ rows, fetchStudentCounter nfkc t row.nationalId =
      fetchStudentCounter nfkc s row.nationalId) ∧
    ((freeRows t rows).map BackfillRow.nationalId).Nodup := by
  rw [freeRows, List.filter_append, List.map_append, List.nodup_append] at honce
  refine ⟨fun row hrow => ?_, honce.2.1.sublist (List.Sublist.map _ ?_)⟩
  · by_cases hfree : fetchStudentCounter nfkc s row.nationalId = .ok none
    · apply h.other
      intro hmem
      obtain ⟨earlier, hearlier, he⟩ := List.mem_map.mp hmem
      have hnone := hasCounter_eq_false.mpr hfree
      refine honce.2.2 _ (List.mem_map_of_mem (List.mem_filter.mpr ⟨hearlier, ?_⟩)) _
        (List.mem_map_of_mem (List.mem_filter.mpr ⟨hrow, ?_⟩)) he
      · rw [he, hnone]
        rfl
      · rw [hnone]
        rfl
    · exact h.grown.kept _ hfree
  · refine List.monotone_filter_right rows fun row hrow => ?_
    rw [Bool.not_eq_true'] at hrow ⊢
    by_contra hs
    rw [Bool.not_eq_false] at hs
    rw [h.grown.hasCounter hs] at hrow
    cases hrow

/-- Chunk after chunk, an applied run makes the calls of `assign_counter` for its rows. -/
theorem processChunks_apply (hn : DigitByDigit nfkc) (hk : s.Keyed)
    (hvalid : ∀ row ∈ chunks.flatten, row.Valid nfkc s) :
    RunOutcome nfkc s chunks p (assignRows R nfkc (soundChunks nfkc s chunks).flatten s)
      (processChunks R nfkc true (chunks.map Except.ok) p s) := by
  induction chunks generalizing s p with
  | nil =>
    refine ⟨nofun, fun t _ hne => absurd rfl hne, fun t ht _ => ⟨p, ?_, fun _ => rfl⟩⟩
    obtain rfl := (Prod.mk.inj ht).2
    rfl
  | cons chunk chunks ih =>
    rw [List.flatten_cons] at hvalid
    have hhead : ∀ row ∈ chunk, row.Valid nfkc s :=
      fun row hrow => hvalid row (List.mem_append_left _ hrow)
    have htail : ∀ row ∈ chunks.flatten, row.Valid nfkc s :=
      fun row hrow => hvalid row (List.mem_append_right _ hrow)
    rw [List.map_cons]
    cases hsound : soundChunk nfkc s chunk with
    | false =>
      have hchunks : soundChunks nfkc s (chunk :: chunks) = [] :=
        List.takeWhile_cons_of_neg (by rw [hsound]; decide)
      rw [processChunks_unsound hk hsound]
      refine ⟨?_, fun t ht _ => ?_, ?_⟩
      · rw [hchunks]
        exact nofun
      · rw [hchunks] at ht
        rw [← (Prod.mk.inj ht).2]
      · rw [hchunks]
        exact nofun
    | true =>
      obtain ⟨existing, result, hget, hchunk, hrun⟩ :=
        processChunks_sound (R := R) (p := p) hn hk hhead hsound
      have hchunks : soundChunks nfkc s (chunk :: chunks) = chunk :: soundChunks nfkc s chunks :=
        List.takeWhile_cons_of_pos hsound
      have hassigns := assignRows_assigns (R := R) hn hk hhead (List.all_eq_true.mp hsound)
      rw [hrun, hchunks, List.flatten_cons, assignRows_append]
      generalize assignRows R nfkc chunk s = assigned at hchunk hassigns
      obtain ⟨outcome, t⟩ := assigned
      cases outcome with
      | error e =>
        rw [hchunk.failed e rfl]
        refine ⟨fun error u hu => ?_, fun u hu => ?_, fun u hu => ?_⟩
        · obtain ⟨he, rfl⟩ := Prod.mk.inj hu
          obtain rfl := Except.error.inj he
          rfl
        · exact absurd (Prod.mk.inj hu).1 (by simp)
        · exact absurd (Prod.mk.inj hu).1 (by simp)
      | ok done =>
        obtain ⟨q, rfl, hstats⟩ := hchunk.tally
        have hgrown := hassigns.grown
        have hrest := ih (p := q) (hgrown.keyed hk) fun row hrow => hgrown.valid (htail row hrow)
        rw [soundChunks, soundChunk_grown hgrown] at hrest
        rw [andThen_ok, andThen_ok]
        refine ⟨hrest.failed, fun u hu hne => hrest.stopped u hu ?_, fun u hu heq => ?_⟩
        · rw [soundChunks, soundChunk_grown hgrown]
          exact fun h => hne (hchunks.trans (congrArg (List.cons chunk) h))
        · have hsame : soundChunks nfkc t chunks = chunks := by
            rw [soundChunks, soundChunk_grown hgrown]
            exact (List.cons.inj (hchunks.symm.trans heq)).2
          obtain ⟨q', hq', hfinal⟩ := hrest.done u hu hsame
          refine ⟨q', hq', fun honce => ?_⟩
          rw [List.flatten_cons] at honce ⊢
          obtain ⟨hfetch, honce'⟩ := fetch_unrepeated hassigns honce
          rw [hfinal honce', hstats, BackfillStats.tally_append]
          have hfirst : (p.stats true).tally existing.get? chunk =
              (p.stats true).tally (s.known nfkc) chunk := by
            refine BackfillStats.tally_congr fun row hrow => ?_
            rw [CounterStore.known, hget row hrow]
            rfl
          rw [hfirst]
          exact BackfillStats.tally_congr fun row hrow => by
            rw [CounterStore.known, CounterStore.known, hfetch row hrow]

end

/-- The CSV has these rows, all of them valid, and their students exist. -/
structure ReadsAs (nfkc : String → String) (s : CounterStore) (raws : List RawRow)
    (rows : List BackfillRow) : Prop where
  parsed : parseRows nfkc raws = rows.map Except.ok
  students : ∀ row ∈ rows, row.nationalId ∈ s.students.map StudentModel.nationalId

section
variable {R : SqlAlchemyCounterRepository} {nfkc : String → String} {s t : CounterStore}
  {raws : List RawRow} {rows : List BackfillRow} {chunks : List (List BackfillRow)}
  {chunkSize : Int}

/-- A row that was parsed has its inputs in the form in which they are kept. -/
theorem parseRow_ok (hf : NormalForm nfkc) (hn : DigitByDigit nfkc) {lineNo : Nat} {raw : RawRow}
    {row : BackfillRow} (h : parseRow nfkc lineNo raw = .ok row) :
    ensureValidInputs nfkc row.nationalId row.gender row.yearCode =
      .ok (row.nationalId, row.yearCode) := by
  unfold parseRow at h
  split at h
  · cases h
  · next gender _ =>
    cases hinputs : ensureValidInputs nfkc (raw.nationalId.getD "") gender
        (raw.yearCode.getD "") with
    | error e =>
      rw [hinputs] at h
      cases h
    | ok inputs =>
      rw [hinputs] at h
      obtain rfl := Except.ok.inj h
      exact ensureValidInputs_again hf hn hinputs

theorem ReadsAs.valid (hf : NormalForm nfkc) (hn : DigitByDigit nfkc)
    (h : ReadsAs nfkc s raws rows) : ∀ row ∈ rows, row.Valid nfkc s := by
  intro row hrow
  have hmem : Except.ok row ∈ parseRows nfkc raws := by
    rw [h.parsed]
    exact List.mem_map_of_mem hrow
  obtain ⟨raw, -, hraw⟩ := List.mem_map.mp hmem
  exact ⟨parseRow_ok hf hn hraw, lockStudent_isSome.mpr (h.students row hrow)⟩

/-- The new counters are those of the free students in the rows. -/
theorem newlyBound_eq (hk : s.Keyed) (h : Assigns R nfkc rows s (.ok ()) t)
    (hstudents : ∀ row ∈ rows, row.nationalId ∈ s.students.map StudentModel.nationalId) :
    newlyBound s t = (firstsBy BackfillRow.nationalId (freeRows s rows)).length := by
  rw [newlyBound, List.countP_eq_length_filter]
  refine (length_firstsBy_eq (hk.students.filter _) fun nid => ?_).symm
  simp only [List.mem_filter, Bool.and_eq_true, Bool.not_eq_true', freeRows]
  constructor
  · rintro ⟨-, hfree, hbound⟩
    by_contra hnone
    have hmem : nid ∉ rows.map BackfillRow.nationalId := by
      intro hmem
      obtain ⟨row, hrow, rfl⟩ := List.mem_map.mp hmem
      exact hnone (List.mem_map_of_mem (List.mem_filter.mpr ⟨hrow, by rw [hfree]; rfl⟩))
    rw [hasCounter_eq_false.mpr ((h.other hmem).trans (hasCounter_eq_false.mp hfree))] at hbound
    cases hbound
  · intro hmem
    obtain ⟨row, hrow, rfl⟩ := List.mem_map.mp hmem
    obtain ⟨hrow, hfree⟩ := List.mem_filter.mp hrow
    refine ⟨hstudents row hrow, by simpa using hfree, ?_⟩
    by_contra hnone
    rw [Bool.not_eq_true, hasCounter_eq_false] at hnone
    exact h.settled row hrow hnone

/-- Each row of a free student stands for a new counter when no student comes twice. -/
theorem newlyBound_applied (hk : s.Keyed) (hreads : ReadsAs nfkc s raws rows)
    (hassigns : Assigns R nfkc rows s (.ok ()) t) :
    (freeRows s rows).length = newlyBound s t ↔
      ((freeRows s rows).map BackfillRow.nationalId).Nodup := by
  rw [newlyBound_eq hk hassigns hreads.students, eq_comm, length_firstsBy]

/-- An applied run over chunks, by the calls of `assign_counter` for the sound ones. -/
theorem runBackfill_apply (hf : NormalForm nfkc) (hn : DigitByDigit nfkc) (hk : s.Keyed)
    (hreads : ReadsAs nfkc s raws rows)
    (hchunks : chunked chunkSize [] (rows.map (Except.ok (ε := CounterServiceError))) =
      chunks.map Except.ok) (hflatten : chunks.flatten = rows) :
    RunOutcome nfkc s chunks ⟨0, 0, 0, 0, 0, s.snapshotSequences⟩
      (assignRows R nfkc (soundChunks nfkc s chunks).flatten s)
      (processChunks R nfkc true (chunks.map Except.ok) ⟨0, 0, 0, 0, 0, s.snapshotSequences⟩ s) ∧
    runBackfill R nfkc true chunkSize raws s = andThen (processChunks R nfkc true
      (chunks.map Except.ok) ⟨0, 0, 0, 0, 0, s.snapshotSequences⟩ s)
        fun p s => (.ok (p.stats true), s) := by
  refine ⟨processChunks_apply hn hk ?_, ?_⟩
  · rw [hflatten]
    exact hreads.valid hf hn
  · rw [runBackfill, hreads.parsed, hchunks]

theorem isOk_of_mem_soundChunks {row : BackfillRow}
    (h : row ∈ (soundChunks nfkc s chunks).flatten) :
    (fetchStudentCounter nfkc s row.nationalId).isOk = true := by
  obtain ⟨chunk, hchunk, hrow⟩ := List.mem_flatten.mp h
  have hsound : soundChunk nfkc s chunk = true := List.mem_takeWhile_imp hchunk
  exact List.all_eq_true.mp hsound row hrow

theorem mem_of_mem_soundChunks {row : BackfillRow}
    (h : row ∈ (soundChunks nfkc s chunks).flatten) : row ∈ chunks.flatten := by
  obtain ⟨chunk, hchunk, hrow⟩ := List.mem_flatten.mp h
  exact List.mem_flatten.mpr ⟨chunk, (List.takeWhile_prefix _).subset hchunk, hrow⟩

theorem soundChunks_eq_self (h : ∀ row ∈ chunks.flatten,
    (fetchStudentCounter nfkc s row.nationalId).isOk = true) :
    soundChunks nfkc s chunks = chunks := by
  rw [soundChunks, List.takeWhile_eq_self_iff]
  intro chunk hchunk
  exact List.all_eq_true.mpr fun row hrow => h row (List.mem_flatten.mpr ⟨chunk, hchunk, hrow⟩)

/-- Students who have well-formed counters keep them, and nothing else happens. -/
theorem assignRows_known (hvalid : ∀ row ∈ rows, row.Valid nfkc s)
    (hok : ∀ row ∈ rows, (fetchStudentCounter nfkc s row.nationalId).isOk = true)
    (hknown : ∀ row ∈ rows, s.hasCounter row.nationalId = true) :
    assignRows R nfkc rows s = (.ok (), s) := by
  induction rows with
  | nil => rfl
  | cons row rows ih =>
    obtain ⟨hrow, hvalid⟩ := List.forall_mem_cons.mp hvalid
    obtain ⟨hrowOk, hok⟩ := List.forall_mem_cons.mp hok
    obtain ⟨hrowKnown, hknown⟩ := List.forall_mem_cons.mp hknown
    have hcounter : ∃ counter, fetchStudentCounter nfkc s row.nationalId = .ok (some counter) := by
      cases hfetch : fetchStudentCounter nfkc s row.nationalId with
      | error e =>
        rw [hfetch] at hrowOk
        cases hrowOk
      | ok stored =>
        cases stored with
        | none =>
          rw [hasCounter_eq_false.mpr hfetch] at hrowKnown
          cases hrowKnown
        | some counter => exact ⟨counter, rfl⟩
    obtain ⟨counter, hfetch⟩ := hcounter
    rw [assignRows, assignCounter_known hrow.accepted hfetch, andThen_ok]
    exact ih hvalid hok hknown

theorem Assigns.error_ne {outcome : Except AssignError Unit}
    (h : Assigns R nfkc rows s outcome t) : outcome ≠ .error (.service counterMalformed) := by
  induction h with
  | done s => exact nofun
  | known hfetch hcall hrest ih => exact ih
  | failed hfetch hcall hsame hcause =>
    intro he
    obtain rfl := Except.error.inj he
    rcases hcause with ⟨-, message, he⟩ | ⟨-, he⟩
    · have hcode := congrArg CounterServiceError.code (AssignError.service.inj he)
      simp [counterMalformed, counterExhausted, dbConflict] at hcode
    · have hdetails := congrArg CounterServiceError.details (AssignError.service.inj he)
      exact absurd hdetails (by decide)
  | assigned hvalid hfetch hdraw hcall hself hrest ih => exact ih

end

def Malformed (nfkc : String → String) (s : CounterStore) (row : BackfillRow) : Prop :=
  (fetchStudentCounter nfkc s row.nationalId).isOk = false

instance (nfkc : String → String) (s : CounterStore) : DecidablePred (Malformed nfkc s) :=
  fun row => inferInstanceAs
    (Decidable ((fetchStudentCounter nfkc s row.nationalId).isOk = false))

section
variable {R : SqlAlchemyCounterRepository} {nfkc : String → String} {s t : CounterStore}
  {raws : List RawRow} {rows before after : List BackfillRow} {bad : BackfillRow}
  {chunks : List (List BackfillRow)} {m : Int}

/-- A malformed counter that comes before any free student ends every run at once. -/
theorem runBackfill_malformed (hf : NormalForm nfkc) (hn : DigitByDigit nfkc) (hk : s.Keyed)
    (hreads : ReadsAs nfkc s raws rows) (hsplit : rows = before ++ bad :: after)
    (hbad : Malformed nfkc s bad) (hknown : ∀ row ∈ before, s.hasCounter row.nationalId = true) :
    runBackfill R nfkc true m raws s = (.error (.service counterMalformed), s) := by
  obtain ⟨chunks, hchunks, hflatten⟩ := chunked_flatten (ε := CounterServiceError) m [] rows
  rw [List.nil_append] at hflatten
  obtain ⟨hrun, heq⟩ := runBackfill_apply (R := R) hf hn hk hreads hchunks hflatten
  have hbadMem : bad ∉ (soundChunks nfkc s chunks).flatten := by
    intro hmem
    have hok := isOk_of_mem_soundChunks hmem
    rw [hbad] at hok
    cases hok
  have hinit : (soundChunks nfkc s chunks).flatten <+: before := by
    have hrows : (soundChunks nfkc s chunks).flatten <+: before ++ bad :: after := by
      rw [← hsplit, ← hflatten]
      obtain ⟨rest, hrest⟩ := List.takeWhile_prefix (p := soundChunk nfkc s) (l := chunks)
      exact ⟨rest.flatten, by rw [soundChunks, ← List.flatten_append, hrest]⟩
    rcases List.prefix_or_prefix_of_prefix hrows (List.prefix_append before _) with h | h
    · exact h
    · obtain ⟨more, hmore⟩ := h
      cases more with
      | nil => exact ⟨[], by rw [List.append_nil, ← hmore, List.append_nil]⟩
      | cons row more =>
        rw [← hmore] at hrows hbadMem
        obtain ⟨rest, hrest⟩ := hrows
        rw [List.append_assoc] at hrest
        have hhead := (List.cons.inj (List.append_cancel_left hrest)).1
        exact absurd (by simp [hhead]) hbadMem
  have hne : soundChunks nfkc s chunks ≠ chunks := by
    intro h
    rw [h, hflatten, hsplit] at hbadMem
    simp at hbadMem
  have hassigned : assignRows R nfkc (soundChunks nfkc s chunks).flatten s = (.ok (), s) :=
    assignRows_known
      (fun row hrow => hreads.valid hf hn row (by
        rw [hsplit]
        exact List.mem_append_left _ (hinit.subset hrow)))
      (fun row hrow => isOk_of_mem_soundChunks hrow)
      (fun row hrow => hknown row (hinit.subset hrow))
  rw [heq, hrun.stopped s hassigned hne, andThen_error]

/-- Without malformed counters a run does what the calls for its rows do. -/
theorem runBackfill_sound (hf : NormalForm nfkc) (hn : DigitByDigit nfkc) (hk : s.Keyed)
    (hreads : ReadsAs nfkc s raws rows)
    (hok : ∀ row ∈ rows, (fetchStudentCounter nfkc s row.nationalId).isOk = true) :
    (∀ error, assignRows R nfkc rows s = (.error error, t) →
      runBackfill R nfkc true m raws s = (.error (.ofAssign error), t)) ∧
    (assignRows R nfkc rows s = (.ok (), t) → ∃ stats,
      runBackfill R nfkc true m raws s = (.ok stats, t) ∧
      (((freeRows s rows).map BackfillRow.nationalId).Nodup →
        stats = BackfillStats.tally (s.known nfkc) rows ⟨0, 0, 0, 0, false, 0⟩)) := by
  obtain ⟨chunks, hchunks, hflatten⟩ := chunked_flatten (ε := CounterServiceError) m [] rows
  rw [List.nil_append] at hflatten
  obtain ⟨hrun, heq⟩ := runBackfill_apply (R := R) hf hn hk hreads hchunks hflatten
  have hsound : soundChunks nfkc s chunks = chunks :=
    soundChunks_eq_self (by rw [hflatten]; exact hok)
  rw [hsound, hflatten] at hrun
  refine ⟨fun error he => ?_, fun he => ?_⟩
  · rw [heq, hrun.failed error t he, andThen_error]
  · obtain ⟨q, hq, hstats⟩ := hrun.done t he hsound
    refine ⟨q.stats true, by rw [heq, hq, andThen_ok], fun honce => ?_⟩
    rw [← hflatten] at honce
    rw [hstats honce, hflatten]
    rfl

end

def sampleTables : CounterStore := ⟨[⟨"0012345678", none⟩, ⟨"0012345679", none⟩], []⟩

def sampleRaw (nationalId : String) : RawRow := ⟨some nationalId, some "1", some "02"⟩

theorem sampleTables_keyed : sampleTables.Keyed := ⟨by decide, List.nodup_nil⟩

end Counter
