import MentorAllocation.Counter.Proofs.NewStudents

namespace Counter
open Text Data
open SqlAlchemyCounterRepository (fetchStudentCounter)

/-- The applied runs over a CSV agree for any two chunk sizes and count the counters that come. -/
def ChunkingIrrelevant (R : SqlAlchemyCounterRepository) (nfkc : String → String)
    (s : CounterStore) (raws : List RawRow) : Prop :=
  ∀ m n : Int, 1 ≤ m → 1 ≤ n →
    (runBackfill R nfkc true m raws s).1 = (runBackfill R nfkc true n raws s).1 ∧
    (runBackfill R nfkc true m raws s).2.students =
      (runBackfill R nfkc true n raws s).2.students ∧
    ∀ stats, (runBackfill R nfkc true m raws s).1 = .ok stats →
      stats.applied = newlyBound s (runBackfill R nfkc true m raws s).2

section
variable {R : SqlAlchemyCounterRepository} {nfkc : String → String} {s t : CounterStore}
  {raws : List RawRow} {rows : List BackfillRow}

/-- All rows in one chunk: each row of a free student counts as applied. -/
theorem runBackfill_whole (hf : NormalForm nfkc) (hn : DigitByDigit nfkc) (hk : s.Keyed)
    (hreads : ReadsAs nfkc s raws rows) (hne : rows ≠ [])
    (hok : ∀ row ∈ rows, (fetchStudentCounter nfkc s row.nationalId).isOk = true)
    (h : assignRows R nfkc rows s = (.ok (), t)) :
    ∃ stats, runBackfill R nfkc true (rows.length + 1) raws s = (.ok stats, t) ∧
      stats.applied = (freeRows s rows).length := by
  have hchunks := chunked_whole (ε := CounterServiceError) (n := rows.length + 1) [] rows hne
    (by rw [List.nil_append]; omega)
  obtain ⟨existing, result, hget, hchunk, hrun⟩ :=
    processChunks_sound (R := R) (p := ⟨0, 0, 0, 0, 0, s.snapshotSequences⟩) hn hk
      (hreads.valid hf hn) (List.all_eq_true.mpr hok)
  rw [h] at hchunk
  obtain ⟨q, rfl, hstats⟩ := hchunk.tally
  refine ⟨q.stats true, ?_, ?_⟩
  · rw [runBackfill, hreads.parsed, hchunks, List.nil_append, hrun, andThen_ok]
    rfl
  · have happlied : (q.stats true).applied =
        0 + rows.countP fun row => (existing.get? row.nationalId).isNone :=
      congrArg BackfillStats.applied hstats
    rw [happlied, Nat.zero_add, freeRows, ← List.countP_eq_length_filter]
    refine List.countP_congr fun row hrow => ?_
    rw [Option.isNone_iff_eq_none, Bool.not_eq_true', hasCounter_eq_false, hget row hrow,
      Except.ok.injEq]

/-- With one row a chunk, the rows before the first malformed counter are worked off. -/
theorem runBackfill_single {before after : List BackfillRow} {bad : BackfillRow}
    (hf : NormalForm nfkc) (hn : DigitByDigit nfkc) (hk : s.Keyed)
    (hreads : ReadsAs nfkc s raws rows) (hsplit : rows = before ++ bad :: after)
    (hbad : Malformed nfkc s bad)
    (hok : ∀ row ∈ before, (fetchStudentCounter nfkc s row.nationalId).isOk = true) :
    (∀ error t, assignRows R nfkc before s = (.error error, t) →
      runBackfill R nfkc true 1 raws s = (.error (.ofAssign error), t)) ∧
    ∀ t, assignRows R nfkc before s = (.ok (), t) →
      runBackfill R nfkc true 1 raws s = (.error (.service counterMalformed), t) := by
  have hchunks := chunked_one (ε := CounterServiceError) rows
  obtain ⟨hrun, heq⟩ := runBackfill_apply (R := R) hf hn hk hreads hchunks
    (by rw [← List.flatMap_def, List.flatMap_singleton'])
  have hsound : soundChunks nfkc s (rows.map fun row => [row]) = before.map fun row => [row] := by
    rw [hsplit, List.map_append, soundChunks, List.takeWhile_append_of_pos]
    · have hnot : ¬ soundChunk nfkc s [bad] = true := by
        have hisOk : (fetchStudentCounter nfkc s bad.nationalId).isOk = false := hbad
        simp [soundChunk, hisOk]
      rw [List.map_cons, List.takeWhile_cons_of_neg hnot, List.append_nil]
    · intro chunk hchunk
      obtain ⟨row, hrow, rfl⟩ := List.mem_map.mp hchunk
      simp [soundChunk, hok row hrow]
  have hne : soundChunks nfkc s (rows.map fun row => [row]) ≠ rows.map fun row => [row] := by
    rw [hsound, hsplit]
    intro h
    have := congrArg List.length h
    simp at this
  rw [hsound, ← List.flatMap_def, List.flatMap_singleton'] at hrun
  refine ⟨fun error t he => ?_, fun t he => ?_⟩
  · rw [heq, hrun.failed error t he, andThen_error]
  · rw [heq, hrun.stopped t he hne, andThen_error]

theorem not_chunkingIrrelevant (hf : NormalForm nfkc) (hn : DigitByDigit nfkc) (hk : s.Keyed)
    (hreads : ReadsAs nfkc s raws rows) {before after : List BackfillRow} {bad free : BackfillRow}
    (hsplit : rows = before ++ bad :: after) (hbad : Malformed nfkc s bad)
    (hok : ∀ row ∈ before, (fetchStudentCounter nfkc s row.nationalId).isOk = true)
    (hfree : free ∈ before) (hnone : s.hasCounter free.nationalId = false) :
    ¬ ChunkingIrrelevant R nfkc s raws := by
  intro hsame
  obtain ⟨houtcome, hstudents, -⟩ := hsame 1 (rows.length + 1) (by decide) (by omega)
  have hchunks := chunked_whole (ε := CounterServiceError) (n := rows.length + 1) [] rows
    (by simp [hsplit]) (by rw [List.nil_append]; omega)
  have hunsound : soundChunk nfkc s rows = false := by
    rw [soundChunk, List.all_eq_false]
    have hisOk : (fetchStudentCounter nfkc s bad.nationalId).isOk = false := hbad
    exact ⟨bad, by simp [hsplit], by simp [hisOk]⟩
  have hwhole : runBackfill R nfkc true (rows.length + 1) raws s =
      (.error (.service counterMalformed), s) := by
    rw [runBackfill, hreads.parsed, hchunks, List.nil_append, processChunks_unsound hk hunsound,
      andThen_error]
  rw [hwhole] at houtcome hstudents
  obtain ⟨hfailed, hdone⟩ := runBackfill_single (R := R) hf hn hk hreads hsplit hbad hok
  have hassigns := assignRows_assigns (R := R) hn hk
    (fun row hrow => hreads.valid hf hn row (by rw [hsplit]; exact List.mem_append_left _ hrow)) hok
  generalize hassigned : assignRows R nfkc before s = assigned at hassigns
  obtain ⟨outcome, t⟩ := assigned
  cases outcome with
  | error error =>
    rw [hfailed error t hassigned] at houtcome
    have herror := Except.error.inj houtcome
    cases error with
    | keyError => cases herror
    | service error =>
      obtain rfl := BackfillError.service.inj herror
      exact hassigns.error_ne rfl
  | ok done =>
    rw [hdone t hassigned] at hstudents
    have htables : t.students = s.students := hstudents
    have hfetch : fetchStudentCounter nfkc t free.nationalId =
        fetchStudentCounter nfkc s free.nationalId := by
      simp only [fetchStudentCounter, CounterStore.lockStudent, htables]
    exact hassigns.settled free hfree (hfetch.trans (hasCounter_eq_false.mp hnone))

/-- The chunk size makes no difference exactly when a malformed counter ends each run before
its first assignment, or when all stored counters are well-formed and the students without a
counter come once each or do not all find a number. -/
theorem chunking_irrelevant_iff (hf : NormalForm nfkc) (hn : DigitByDigit nfkc) (hk : s.Keyed)
    (hreads : ReadsAs nfkc s raws rows) : ChunkingIrrelevant R nfkc s raws ↔
      (∃ before bad after, rows = before ++ bad :: after ∧ Malformed nfkc s bad ∧
        ∀ row ∈ before, s.hasCounter row.nationalId = true) ∨
      (∀ row ∈ rows, ¬ Malformed nfkc s row) ∧
        (((freeRows s rows).map BackfillRow.nationalId).Nodup ∨
          ¬ Served R s rows) := by
  constructor
  · intro hsame
    cases hfind : rows.find? fun row => !(fetchStudentCounter nfkc s row.nationalId).isOk with
    | some bad =>
      obtain ⟨hbad, before, after, hsplit, hok⟩ := List.find?_eq_some_iff_append.mp hfind
      have hmalformed : Malformed nfkc s bad := (Bool.not_eq_true' _).mp hbad
      refine .inl ⟨before, bad, after, hsplit, hmalformed, fun row hrow => ?_⟩
      by_contra hnone
      exact not_chunkingIrrelevant hf hn hk hreads hsplit hmalformed (by simpa using hok) hrow
        (by simpa using hnone) hsame
    | none =>
      have hok : ∀ row ∈ rows, (fetchStudentCounter nfkc s row.nationalId).isOk = true := by
        simpa using hfind
      refine .inr ⟨fun row hrow hbad => ?_, ?_⟩
      · rw [Malformed, hok row hrow] at hbad
        cases hbad
      have hassigns := assignRows_assigns (R := R) hn hk (hreads.valid hf hn) hok
      generalize hassigned : assignRows R nfkc rows s = assigned at hassigns
      obtain ⟨outcome, t⟩ := assigned
      rcases hassigns.outcome_cases hk with ⟨rfl, -⟩ | ⟨-, hnot, -⟩ | ⟨-, hnot, -⟩
      · refine .inl ?_
        by_cases hempty : rows = []
        · subst hempty
          exact List.nodup_nil
        obtain ⟨stats, hstats, happlied⟩ :=
          runBackfill_whole hf hn hk hreads hempty hok hassigned
        have hcount := (hsame (rows.length + 1) 1 (by omega) (by decide)).2.2 stats
          (by rw [hstats])
        rw [hstats] at hcount
        exact (newlyBound_applied hk hreads hassigns).mp (happlied.symm.trans hcount)
      · exact .inr hnot
      · exact .inr hnot
  · rintro (⟨before, bad, after, hsplit, hbad, hknown⟩ | ⟨hsound, hrest⟩) m n - -
    · have hrun := fun k =>
        runBackfill_malformed (R := R) (m := k) hf hn hk hreads hsplit hbad hknown
      rw [hrun m, hrun n]
      exact ⟨rfl, rfl, nofun⟩
    · have hok : ∀ row ∈ rows, (fetchStudentCounter nfkc s row.nationalId).isOk = true :=
        fun row hrow => by simpa [Malformed] using hsound row hrow
      have hassigns := assignRows_assigns (R := R) hn hk (hreads.valid hf hn) hok
      generalize hassigned : assignRows R nfkc rows s = assigned at hassigns
      obtain ⟨outcome, t⟩ := assigned
      have hrun := fun k => runBackfill_sound (R := R) (t := t) (m := k) hf hn hk hreads hok
      cases outcome with
      | error error =>
        rw [(hrun m).1 error hassigned, (hrun n).1 error hassigned]
        exact ⟨rfl, rfl, nofun⟩
      | ok done =>
        have hserved : Served R s rows := by
          rcases hassigns.outcome_cases hk with ⟨-, h, -⟩ | ⟨⟨message, h⟩, -⟩ | ⟨h, -⟩
          · exact h
          · cases h
          · cases h
        have honce := hrest.resolve_right (not_not_intro hserved)
        obtain ⟨stats, hstats, htally⟩ := (hrun m).2 hassigned
        obtain ⟨stats', hstats', htally'⟩ := (hrun n).2 hassigned
        rw [hstats, hstats', htally honce, htally' honce]
        refine ⟨rfl, rfl, fun final hfinal => ?_⟩
        obtain rfl := Except.ok.inj hfinal
        rw [← (newlyBound_applied hk hreads hassigns).mpr honce, freeRows,
          ← List.countP_eq_length_filter]
        simp only [BackfillStats.tally, Nat.zero_add]
        refine List.countP_congr fun row hrow => ?_
        rw [Option.isNone_iff_eq_none, Bool.not_eq_true', hasCounter_eq_false, CounterStore.known]
        cases hfetch : fetchStudentCounter nfkc s row.nationalId with
        | error e =>
          have := hok row hrow
          rw [hfetch] at this
          cases this
        | ok stored => simp [Except.toOption]

end

/-- Two students, each in a row of their own. -/
theorem chunking_irrelevant_iff_once :
    ChunkingIrrelevant {} nfkcDigits sampleTables
      [sampleRaw "0012345678", sampleRaw "0012345679"] := by
  have hreads : ReadsAs nfkcDigits sampleTables [sampleRaw "0012345678", sampleRaw "0012345679"]
      [⟨"0012345678", 1, "02"⟩, ⟨"0012345679", 1, "02"⟩] := ⟨by rfl, by decide⟩
  exact (chunking_irrelevant_iff normalForm_nfkcDigits digitByDigit_nfkcDigits
    sampleTables_keyed hreads).mpr (.inr ⟨by decide +kernel, .inl (by decide +kernel)⟩)

/-- One student in two rows: both are applied in one chunk, the second is reused in the next. -/
theorem repeated_row_depends_on_chunking :
    sampleTables.Keyed ∧ ReadsAs nfkcDigits sampleTables
      [sampleRaw "0012345678", sampleRaw "0012345678"]
      [⟨"0012345678", 1, "02"⟩, ⟨"0012345678", 1, "02"⟩] ∧
    ¬ ChunkingIrrelevant {} nfkcDigits sampleTables
      [sampleRaw "0012345678", sampleRaw "0012345678"] := by
  refine ⟨sampleTables_keyed, ⟨by rfl, by decide⟩, fun hsame => ?_⟩
  have happlied : ((runBackfill {} nfkcDigits true 1
      [sampleRaw "0012345678", sampleRaw "0012345678"] sampleTables).1.map
        BackfillStats.applied).toOption ≠
      ((runBackfill {} nfkcDigits true 2
        [sampleRaw "0012345678", sampleRaw "0012345678"] sampleTables).1.map
          BackfillStats.applied).toOption := by
    decide +kernel
  exact happlied (by rw [(hsame 1 2 (by decide) (by decide)).1])

end Counter
