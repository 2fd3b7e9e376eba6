import MentorAllocation.Counter.Proofs.DryRun
import MentorAllocation.Counter.Proofs.NewStudents

namespace Counter
open Text Data
open SqlAlchemyCounterRepository (fetchStudentCounter)

/-- The numbers that a dry run foresees are numbers of a counter: those after the last one of
the sequence, and those after a matching counter in an earlier row. -/
def Room (nfkc : String → String) (s : CounterStore) (rows : List BackfillRow) : Prop :=
  ∀ before key rest, rows.map (s.use nfkc) = before ++ Use.take key :: rest →
    (0 ≤ s.lastSeq key + before.count (.take key) ∨ ∃ n, .seen key n ∈ before) ∧
    s.lastSeq key + before.count (.take key) + 1 ≤ counterMaxSeq ∧
    ∀ earlier n later, before = earlier ++ .seen key n :: later →
      n + later.count (.take key) + 1 ≤ counterMaxSeq

section
variable {R : SqlAlchemyCounterRepository} {nfkc : String → String} {s t : CounterStore}
  {row : BackfillRow} {rows : List BackfillRow} {outcome : Except AssignError Unit}

theorem use_seen {key : String × String} {n : Int} (h : s.use nfkc row = .seen key n) : 0 ≤ n := by
  unfold CounterStore.use at h
  split at h
  · cases h
  · next counter hknown =>
    have hfetch : fetchStudentCounter nfkc s row.nationalId = .ok (some counter) := by
      rw [CounterStore.known] at hknown
      cases hfetch : fetchStudentCounter nfkc s row.nationalId with
      | error e =>
        rw [hfetch] at hknown
        cases hknown
      | ok stored =>
        rw [hfetch] at hknown
        exact congrArg Except.ok hknown
    obtain ⟨m, hserial⟩ := fetchStudentCounter_serial hfetch
    split at h
    · rw [hserial] at h
      obtain ⟨-, rfl⟩ := Use.seen.inj h
      exact Int.natCast_nonneg m
    · cases h

theorem room_iff_fit :
    Room nfkc s rows ↔ Use.Fit counterMaxSeq s.lastSeq (rows.map (s.use nfkc)) := by
  rw [Use.fit_iff]
  refine forall_congr' fun before => forall_congr' fun key => forall_congr' fun rest =>
    imp_congr_right fun hsplit => ?_
  have hseen : ∀ n, Use.seen key n ∈ before → 0 ≤ n := by
    intro n hn
    have hmem : Use.seen key n ∈ rows.map (s.use nfkc) := by
      rw [hsplit]
      exact List.mem_append_left _ hn
    obtain ⟨row, -, hrow⟩ := List.mem_map.mp hmem
    exact use_seen hrow
  have hlow : 1 ≤ Use.after s.lastSeq before key + 1 ↔ 0 ≤ Use.after s.lastSeq before key := by
    omega
  have hhigh : Use.after s.lastSeq before key + 1 ≤ counterMaxSeq ↔
      Use.after s.lastSeq before key ≤ counterMaxSeq - 1 := by
    omega
  rw [hlow, hhigh, Use.le_after hseen, Use.after_le]
  refine and_congr_right fun _ => and_congr (by omega) ?_
  refine forall_congr' fun earlier => forall_congr' fun n => forall_congr' fun later =>
    imp_congr_right fun _ => ?_
  omega

end

def Exhausted (result : Except BackfillError BackfillStats × CounterStore) : Prop :=
  ∃ error, result.1 = .error (.service error) ∧ error.code = "E_COUNTER_EXHAUSTED"

/-- The dry run raises the exhaustion error when the applied run does, and else it skips as
many rows as students are newly bound. -/
def DryRunPredicts (R : SqlAlchemyCounterRepository) (nfkc : String → String) (s : CounterStore)
    (raws : List RawRow) (chunkSize : Int) : Prop :=
  (Exhausted (runBackfill R nfkc false chunkSize raws s) ↔
    Exhausted (runBackfill R nfkc true chunkSize raws s)) ∧
  ∀ dry applied, (runBackfill R nfkc false chunkSize raws s).1 = .ok dry →
    (runBackfill R nfkc true chunkSize raws s).1 = .ok applied →
      dry.skipped = newlyBound s (runBackfill R nfkc true chunkSize raws s).2

/-- The rows of the chunks before the first one with a malformed counter. -/
def soundRows (nfkc : String → String) (s : CounterStore) (chunkSize : Int)
    (rows : List BackfillRow) : List BackfillRow :=
  (soundChunks nfkc s ((chunked (ε := CounterServiceError) chunkSize []
    (rows.map Except.ok)).filterMap Except.toOption)).flatten

section
variable {R : SqlAlchemyCounterRepository} {nfkc : String → String} {s t : CounterStore}
  {raws : List RawRow} {rows : List BackfillRow} {chunkSize : Int} {error : CounterServiceError}

theorem exhausted_error : Exhausted (.error (.service error), t) ↔
    error.code = "E_COUNTER_EXHAUSTED" := by
  constructor
  · rintro ⟨error', he, hcode⟩
    obtain rfl := BackfillError.service.inj (Except.error.inj he)
    exact hcode
  · exact fun hcode => ⟨error, rfl, hcode⟩

theorem not_exhausted_ok (stats : BackfillStats) : ¬ Exhausted (.ok stats, t) := by
  rintro ⟨error, he, -⟩
  cases he

theorem not_exhausted_conflict (message : String) :
    ¬ Exhausted (.error (.service (dbConflict message)), t) := by
  rw [exhausted_error]
  simp [dbConflict]

/-- With a malformed counter the dry run is exhausted, and so is the applied run unless it
meets a conflict before. -/
theorem dryRunPredicts_malformed (hf : NormalForm nfkc) (hn : DigitByDigit nfkc) (hk : s.Keyed)
    (hreads : ReadsAs nfkc s raws rows) (hbad : ∃ row ∈ rows, Malformed nfkc s row) :
    DryRunPredicts R nfkc s raws chunkSize ↔
      ¬ MeetsConflict R s (soundRows nfkc s chunkSize rows) := by
  obtain ⟨chunks, hchunks, hflatten⟩ := chunked_flatten (ε := CounterServiceError) chunkSize [] rows
  rw [List.nil_append] at hflatten
  obtain ⟨hrun, heq⟩ := runBackfill_apply (R := R) hf hn hk hreads hchunks hflatten
  have hvalid : ∀ row ∈ chunks.flatten, row.Valid nfkc s := by
    rw [hflatten]
    exact hreads.valid hf hn
  have hrows : soundRows nfkc s chunkSize rows = (soundChunks nfkc s chunks).flatten := by
    have hsome : (chunks.map (Except.ok (ε := CounterServiceError))).filterMap Except.toOption =
        chunks := by
      rw [List.filterMap_map]
      exact List.filterMap_some
    rw [soundRows, hchunks, hsome]
  have hne : soundChunks nfkc s chunks ≠ chunks := by
    intro h
    obtain ⟨row, hrow, hmalformed⟩ := hbad
    rw [← hflatten, ← h] at hrow
    have hisOk := isOk_of_mem_soundChunks hrow
    rw [hmalformed] at hisOk
    cases hisOk
  obtain ⟨dryError, hdry, hcode⟩ := processChunks_dry_malformed (R := R)
    (p := ⟨0, 0, 0, 0, 0, s.snapshotSequences⟩) hk hvalid (by rw [hflatten]; exact hbad)
  have hdryRun : (runBackfill R nfkc false chunkSize raws s).1 = .error (.service dryError) := by
    rw [runBackfill, hreads.parsed, hchunks]
    generalize processChunks R nfkc false (chunks.map Except.ok)
      ⟨0, 0, 0, 0, 0, s.snapshotSequences⟩ s = result at hdry
    obtain ⟨outcome, u⟩ := result
    rw [show outcome = _ from hdry]
    rfl
  have hpredicts : DryRunPredicts R nfkc s raws chunkSize ↔
      Exhausted (runBackfill R nfkc true chunkSize raws s) := by
    refine ⟨fun h => h.1.mp ⟨dryError, hdryRun, hcode⟩, fun h => ⟨?_, fun dry _ hok _ => ?_⟩⟩
    · exact iff_of_true ⟨dryError, hdryRun, hcode⟩ h
    · rw [hdryRun] at hok
      cases hok
  rw [hpredicts, hrows, heq]
  have hassigns : Assigns R nfkc (soundChunks nfkc s chunks).flatten s
      (assignRows R nfkc (soundChunks nfkc s chunks).flatten s).1
      (assignRows R nfkc (soundChunks nfkc s chunks).flatten s).2 :=
    assignRows_assigns hn hk (fun row hrow => hvalid row (mem_of_mem_soundChunks hrow))
      (fun row hrow => isOk_of_mem_soundChunks hrow)
  generalize hassigned : assignRows R nfkc (soundChunks nfkc s chunks).flatten s = assigned
    at hassigns hrun
  obtain ⟨outcome, u⟩ := assigned
  rcases hassigns.outcome_cases hk with ⟨rfl, -, hclear⟩ | ⟨⟨message, rfl⟩, -, hconflict⟩ |
    ⟨rfl, -, hclear⟩
  · rw [hrun.stopped u rfl hne, andThen_error]
    exact iff_of_true (exhausted_error.mpr rfl) hclear
  · rw [hrun.failed _ u rfl, andThen_error]
    exact iff_of_false (not_exhausted_conflict message) (not_not.mpr hconflict)
  · rw [hrun.failed _ u rfl, andThen_error]
    exact iff_of_true (exhausted_error.mpr rfl) hclear

/-- Without malformed counters a dry run is exhausted or skips the rows of free students. -/
theorem runBackfill_dry (R : SqlAlchemyCounterRepository) (chunkSize : Int)
    (hf : NormalForm nfkc) (hn : DigitByDigit nfkc) (hk : s.Keyed)
    (hreads : ReadsAs nfkc s raws rows)
    (hok : ∀ row ∈ rows, (fetchStudentCounter nfkc s row.nationalId).isOk = true) :
    (¬ Room nfkc s rows → runBackfill R nfkc false chunkSize raws s =
      (.error (.service sequenceExhausted), s)) ∧
    (Room nfkc s rows → ∃ stats, runBackfill R nfkc false chunkSize raws s = (.ok stats, s) ∧
      stats.skipped = (freeRows s rows).length) := by
  obtain ⟨chunks, hchunks, hflatten⟩ := chunked_flatten (ε := CounterServiceError) chunkSize [] rows
  rw [List.nil_append] at hflatten
  have hdry : DryOutcome nfkc s chunks.flatten ⟨0, 0, 0, 0, 0, s.snapshotSequences⟩
      (processChunks R nfkc false (chunks.map Except.ok) ⟨0, 0, 0, 0, 0, s.snapshotSequences⟩ s) :=
    processChunks_dry hk (by rw [hflatten]; exact hreads.valid hf hn) (by rw [hflatten]; exact hok)
  have hlast : Progress.last ⟨0, 0, 0, 0, 0, s.snapshotSequences⟩ = s.lastSeq :=
    funext fun key => last_snapshot hk key
  rw [hflatten] at hdry
  rw [room_iff_fit, ← hlast, runBackfill, hreads.parsed, hchunks]
  refine ⟨fun hnot => ?_, fun hfit => ?_⟩
  · rw [hdry.exhausted hnot, andThen_error]
  · obtain ⟨q, hq, -, hskipped⟩ := hdry.done hfit
    refine ⟨q.stats false, by rw [hq, andThen_ok], ?_⟩
    rw [← Nat.zero_add (freeRows s rows).length]
    exact hskipped

theorem dryRunPredicts_sound (hf : NormalForm nfkc) (hn : DigitByDigit nfkc) (hk : s.Keyed)
    (hreads : ReadsAs nfkc s raws rows)
    (hok : ∀ row ∈ rows, (fetchStudentCounter nfkc s row.nationalId).isOk = true) :
    DryRunPredicts R nfkc s raws chunkSize ↔
      MeetsConflict R s rows ∧ Room nfkc s rows ∨
      Served R s rows ∧ Room nfkc s rows ∧
        ((freeRows s rows).map BackfillRow.nationalId).Nodup ∨
      ¬ MeetsConflict R s rows ∧ ¬ Served R s rows ∧ ¬ Room nfkc s rows := by
  obtain ⟨hdryNot, hdryRoom⟩ := runBackfill_dry R chunkSize hf hn hk hreads hok
  have hassigns := assignRows_assigns (R := R) hn hk (hreads.valid hf hn) hok
  generalize hassigned : assignRows R nfkc rows s = assigned at hassigns
  obtain ⟨outcome, u⟩ := assigned
  obtain ⟨hfailed, hdone⟩ :=
    runBackfill_sound (R := R) (t := u) (m := chunkSize) hf hn hk hreads hok
  rcases hassigns.outcome_cases hk with ⟨houtcome, hserved, hclear⟩ |
    ⟨⟨message, houtcome⟩, hserved, hconflict⟩ | ⟨houtcome, hserved, hclear⟩
  · obtain rfl := show outcome = _ from houtcome
    obtain ⟨applied, happlied, -⟩ := hdone hassigned
    rw [DryRunPredicts, happlied]
    by_cases hroom : Room nfkc s rows
    · obtain ⟨stats, hstats, hskipped⟩ := hdryRoom hroom
      have hcount : (∀ dry applied',
          (Except.ok stats : Except BackfillError BackfillStats) = .ok dry →
          (Except.ok applied : Except BackfillError BackfillStats) = .ok applied' →
            dry.skipped = newlyBound s u) ↔
          ((freeRows s rows).map BackfillRow.nationalId).Nodup := by
        rw [← newlyBound_applied hk hreads hassigns, ← hskipped]
        refine ⟨fun h => h stats applied rfl rfl, fun h dry _ hdry _ => ?_⟩
        obtain rfl := Except.ok.inj hdry
        exact h
      rw [hstats, hcount]
      have hsame : (Exhausted (.ok stats, s) ↔ Exhausted (.ok applied, u)) :=
        iff_of_false (not_exhausted_ok stats) (not_exhausted_ok applied)
      rw [and_iff_right hsame]
      simp [hclear, hserved, hroom]
    · rw [hdryNot hroom]
      refine iff_of_false (fun h => not_exhausted_ok applied
        (h.1.mp (exhausted_error.mpr rfl))) ?_
      simp [hclear, hserved, hroom]
  · obtain rfl := show outcome = _ from houtcome
    rw [DryRunPredicts, hfailed _ hassigned]
    by_cases hroom : Room nfkc s rows
    · obtain ⟨stats, hstats, -⟩ := hdryRoom hroom
      rw [hstats]
      exact iff_of_true ⟨iff_of_false (not_exhausted_ok stats) (not_exhausted_conflict message),
        fun _ _ _ happlied => absurd happlied (by simp)⟩ (.inl ⟨hconflict, hroom⟩)
    · rw [hdryNot hroom]
      refine iff_of_false (fun h => not_exhausted_conflict message
        (h.1.mp (exhausted_error.mpr rfl))) ?_
      simp [hconflict, hroom]
  · obtain rfl := show outcome = _ from houtcome
    rw [DryRunPredicts, hfailed _ hassigned]
    by_cases hroom : Room nfkc s rows
    · obtain ⟨stats, hstats, -⟩ := hdryRoom hroom
      rw [hstats]
      refine iff_of_false (fun h => not_exhausted_ok stats (h.1.mpr (exhausted_error.mpr rfl))) ?_
      simp [hclear, hserved, hroom]
    · rw [hdryNot hroom]
      exact iff_of_true ⟨iff_of_true (exhausted_error.mpr rfl) (exhausted_error.mpr rfl),
        fun _ _ hdry => absurd hdry (by simp)⟩ (.inr (.inr ⟨hclear, hserved, hroom⟩))

/-- When a dry run foretells the applied run. With a malformed counter in the rows both are
exhausted unless a student before its chunk meets a conflict; without one, the students have to
find numbers where the foreseen ones have room, each student in one row, or a conflict, or neither
the foreseen numbers nor those in the tables suffice. -/
theorem dry_run_predicts_iff (hf : NormalForm nfkc) (hn : DigitByDigit nfkc) (hk : s.Keyed)
    (hreads : ReadsAs nfkc s raws rows) : DryRunPredicts R nfkc s raws chunkSize ↔
      (∃ row ∈ rows, Malformed nfkc s row) ∧
        ¬ MeetsConflict R s (soundRows nfkc s chunkSize rows) ∨
      (∀ row ∈ rows, ¬ Malformed nfkc s row) ∧
        (MeetsConflict R s rows ∧ Room nfkc s rows ∨
        Served R s rows ∧ Room nfkc s rows ∧
          ((freeRows s rows).map BackfillRow.nationalId).Nodup ∨
        ¬ MeetsConflict R s rows ∧ ¬ Served R s rows ∧ ¬ Room nfkc s rows) := by
  by_cases hbad : ∃ row ∈ rows, Malformed nfkc s row
  · have hnot : ¬ ∀ row ∈ rows, ¬ Malformed nfkc s row := by
      obtain ⟨row, hrow, hmalformed⟩ := hbad
      exact fun h => h row hrow hmalformed
    rw [dryRunPredicts_malformed hf hn hk hreads hbad, and_iff_right hbad]
    exact (or_iff_left fun h => hnot h.1).symm
  · have hsound : ∀ row ∈ rows, ¬ Malformed nfkc s row :=
      fun row hrow hmalformed => hbad ⟨row, hrow, hmalformed⟩
    have hok : ∀ row ∈ rows, (fetchStudentCounter nfkc s row.nationalId).isOk = true :=
      fun row hrow => by simpa [Malformed] using hsound row hrow
    rw [dryRunPredicts_sound hf hn hk hreads hok, and_iff_right hsound]
    exact (or_iff_right fun h => hbad h.1).symm

end

/-- Two students, each in a row of their own. -/
theorem dry_run_predicts_iff_once : DryRunPredicts {} nfkcDigits sampleTables
    [sampleRaw "0012345678", sampleRaw "0012345679"] 500 := by
  have hreads : ReadsAs nfkcDigits sampleTables [sampleRaw "0012345678", sampleRaw "0012345679"]
      [⟨"0012345678", 1, "02"⟩, ⟨"0012345679", 1, "02"⟩] := ⟨by rfl, by decide⟩
  refine (dry_run_predicts_iff normalForm_nfkcDigits digitByDigit_nfkcDigits sampleTables_keyed
    hreads).mpr (.inr ⟨by decide +kernel, .inr (.inl ⟨?_, ?_, by decide +kernel⟩)⟩)
  · rw [Served, ← drawAll_eq_none]
    decide +kernel
  · rw [room_iff_fit]
    have huses : [⟨"0012345678", 1, "02"⟩, ⟨"0012345679", 1, "02"⟩].map
        (sampleTables.use nfkcDigits) = [.take ("02", "357"), .take ("02", "357")] := by
      decide +kernel
    rw [huses]
    refine ⟨fun key hkey => ?_, fun key hkey => ?_, trivial⟩
    · obtain rfl := Use.take.inj hkey
      decide +kernel
    · obtain rfl := Use.take.inj hkey
      decide +kernel

/-- One student in two rows: the dry run skips both, the applied run binds one student. -/
theorem repeated_row_not_predicted :
    sampleTables.Keyed ∧ ReadsAs nfkcDigits sampleTables
      [sampleRaw "0012345678", sampleRaw "0012345678"]
      [⟨"0012345678", 1, "02"⟩, ⟨"0012345678", 1, "02"⟩] ∧
    ¬ DryRunPredicts {} nfkcDigits sampleTables
      [sampleRaw "0012345678", sampleRaw "0012345678"] 500 := by
  refine ⟨sampleTables_keyed, ⟨by rfl, by decide⟩, fun hpredicts => ?_⟩
  have hskipped : ((runBackfill {} nfkcDigits false 500
      [sampleRaw "0012345678", sampleRaw "0012345678"] sampleTables).1.map
        BackfillStats.skipped).toOption = some 2 := by
    decide +kernel
  have hbound : (runBackfill {} nfkcDigits true 500
      [sampleRaw "0012345678", sampleRaw "0012345678"] sampleTables).1.isOk = true ∧
      newlyBound sampleTables (runBackfill {} nfkcDigits true 500
        [sampleRaw "0012345678", sampleRaw "0012345678"] sampleTables).2 = 1 := by
    decide +kernel
  have hcount := hpredicts.2
  rw [hbound.2] at hcount
  cases hdry : (runBackfill {} nfkcDigits false 500
      [sampleRaw "0012345678", sampleRaw "0012345678"] sampleTables).1 with
  | error e =>
    rw [hdry] at hskipped
    cases hskipped
  | ok dry =>
    cases happlied : (runBackfill {} nfkcDigits true 500
        [sampleRaw "0012345678", sampleRaw "0012345678"] sampleTables).1 with
    | error e =>
      rw [happlied] at hbound
      cases hbound.1
    | ok applied =>
      have hone := hcount dry applied hdry happlied
      rw [hdry] at hskipped
      have htwo : dry.skipped = 2 := Option.some.inj hskipped
      omega

end Counter
